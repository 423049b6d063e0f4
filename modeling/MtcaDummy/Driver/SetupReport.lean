/-
  When the set-up of the module reports success.

  `device_create` reports a failure by an `ERR_PTR`, and the code compares the
  pointer with `NULL`.  So the loop goes on without the node, and the module is
  loaded.  `set_up_reported`: this is the only way in which the return value is
  wrong.
-/
import MtcaDummy.Driver.SetupLedger

namespace MtcaDummy

open Conc.Ledger

/-! ## Success -/

/-- Device `i` is set up. -/
structure Setup.DeviceUp (m : Setup) (i : ℕ) : Prop where
  systemBar : Held m.log (.block (m.dummyPrivateData i).systemBar)
  dmaBar : Held m.log (.block (m.dummyPrivateData i).dmaBar)
  registers : ∀ j < nRegisters,
    m.store (.word (m.dummyPrivateData i).systemBar j) = initialSystemBar j
  dma : ∀ j < dmaSize / 4, m.store (.word (m.dummyPrivateData i).dmaBar j) = 0#32
  slotNr : (m.dummyPrivateData i).slotNr = BitVec.ofNat 32 i
  inUse : m.store (.inUse i) = 0#32
  cdev : Held m.log (.cdev i)
  node : Held m.log (.node i)

/-- The return value is 0 if and only if no call was refused, and then all
    devices are set up. -/
def ReportsSuccess (N : ℕ) (k : Outcomes) (mem : Ptr → ℕ → U32) : Prop :=
  ((loaded N k mem).1 = 0 ↔ ∀ r, .refuse r ∉ (loaded N k mem).2.log) ∧
    ((loaded N k mem).1 = 0 → ∀ i < N, (loaded N k mem).2.DeviceUp i)

/-- The calls of the loop that are tested the right way succeed for device `i`. -/
def Outcomes.Tested (k : Outcomes) (i : ℕ) : Prop :=
  k.kmallocSystemBar i = true ∧ k.kmallocDmaBar i = true ∧ k.cdevAdd i = true

/-- All calls succeed but some of `device_create`. -/
structure OnlyNodesMissing (N : ℕ) (k : Outcomes) : Prop where
  region : k.allocChrdevRegion = true
  cls : k.classCreate = true
  tested : ∀ i < N, k.Tested i
  node : ∃ i < N, k.deviceCreate i = false

/-! ## The refusals -/

section
variable {k : Outcomes} {mem : Ptr → ℕ → U32}

/-- A step that does not jump is refused the node at most. -/
theorem DeviceStep.refused {i : ℕ} {m m' : Setup} (h : DeviceStep k i m m' none) (r : Resource) :
    .refuse r ∈ m'.log ↔ .refuse r ∈ m.log ∨ r = .node i ∧ k.deviceCreate i = false := by
  cases h with
  | done _ _ _ _ _ _ _ hlog =>
    rw [hlog]
    cases hnode : k.deviceCreate i with
    | false => simp [deviceActs]
    | true => simp [deviceActs]

/-- A jump follows on a refusal. -/
theorem DeviceStep.refused_of_jump {i : ℕ} {m m' : Setup} {l : Label}
    (h : DeviceStep k i m m' (some l)) : ¬ k.Tested i ∧ ∃ r, .refuse r ∈ m'.log := by
  cases h with
  | errAllocateSystemBar hsystem hlog =>
    refine ⟨fun ht => ?_, .block NULL, by simp [hlog]⟩
    rw [ht.1] at hsystem
    cases hsystem
  | errAllocateDmaBar hdma _ hlog =>
    refine ⟨fun ht => ?_, .block NULL, by simp [hlog]⟩
    rw [ht.2.1] at hdma
    cases hdma
  | errCdevInit hcdev _ _ hlog =>
    refine ⟨fun ht => ?_, .cdev i, by simp [hlog]⟩
    rw [ht.2.2] at hcdev
    cases hcdev

/-- What the loop was refused before device `i`. -/
structure Setup.Refused (k : Outcomes) (i : ℕ) (m : Setup) : Prop where
  tested : ∀ j < i, k.Tested j
  refused : ∀ r, .refuse r ∈ m.log ↔ ∃ j < i, r = .node j ∧ k.deviceCreate j = false

theorem Setup.Refused.succ {i : ℕ} {m m' : Setup} (hm : m.Refused k i)
    (h : DeviceStep k i m m' none) : m'.Refused k (i + 1) := by
  constructor
  · intro j hj
    rcases Nat.lt_succ_iff_lt_or_eq.1 hj with hlt | rfl
    · exact hm.tested j hlt
    · cases h with
      | done hsystem hdma hcdev => exact ⟨hsystem, hdma, hcdev⟩
  · intro r
    rw [h.refused, hm.refused]
    constructor
    · rintro (⟨j, hj, hr⟩ | hr)
      · exact ⟨j, by omega, hr⟩
      · exact ⟨i, by omega, hr⟩
    · rintro ⟨j, hj, hr⟩
      rcases Nat.lt_succ_iff_lt_or_eq.1 hj with hlt | rfl
      · exact .inl ⟨j, hlt, hr⟩
      · exact .inr hr

/-- **The refusals of the loop.** -/
theorem initLoop_refused (n : ℕ) :
    (∀ m, (initLoop k n 0).run (.begun mem) = (none, m) → m.Refused k n) ∧
    ∀ l i m, (initLoop k n 0).run (.begun mem) = (some (l, i), m) →
      i < n ∧ ¬ k.Tested i ∧ ∃ r, .refuse r ∈ m.log := by
  obtain ⟨hdone, hstop⟩ := initLoop_rule
    (I := fun i m => m.Ready mem i ∧ m.Refused k i)
    (S := fun i l m => ¬ k.Tested i ∧ ∃ r, .refuse r ∈ m.log)
    (fun i m m' hm h => by
      have hstep := (initDevice_step hm.1.next_ne h).1
      exact ⟨hm.1.device hstep, hm.2.succ hstep⟩)
    (fun i l m m' hm h => (initDevice_step hm.1.next_ne h).1.refused_of_jump) n
    ⟨Setup.ready_begun mem, fun j hj => absurd hj (Nat.not_lt_zero j),
      fun r => by simp [Setup.begun]⟩
  rw [Nat.zero_add] at hdone hstop
  exact ⟨fun m h => (hdone m h).2, hstop⟩

end

/-! ## The code after the labels only adds to the log -/

theorem destroyDevices_log (n j : ℕ) (m : Setup) :
    m.log <+: ((destroyDevices n j).run m).2.log := by
  induction n generalizing j m with
  | zero => exact List.prefix_rfl
  | succ n ih =>
    have hone : m.log <+: ((destroyDevice j).run m).2.log := by
      have hrun : ((destroyDevice j).run m).2.log = m.log ++ [.use .cls] ++ [.release (.node j)] ++
          [.release (.cdev j)] ++ [.release (.mutex j)] ++
          [.release (.block (m.dummyPrivateData j).systemBar)] ++
          [.release (.block (m.dummyPrivateData j).dmaBar)] := rfl
      rw [hrun]
      simp only [List.append_assoc]
      exact List.prefix_append _ _
    exact hone.trans (ih (j + 1) _)

theorem errAllocateSystemBar_log (i : ℕ) (m : Setup) :
    m.log <+: ((errAllocateSystemBar i).run m).2.log := by
  have hrun : ((errAllocateSystemBar i).run m).2.log =
      ((destroyDevices i 0).run m).2.log ++ [.release .cls] ++ [.release .region] := rfl
  rw [hrun, List.append_assoc]
  exact (destroyDevices_log i 0 m).trans (List.prefix_append _ _)

theorem errAllocateDmaBar_log (i : ℕ) (m : Setup) :
    m.log <+: ((errAllocateDmaBar i).run m).2.log :=
  (List.prefix_append _ _).trans (errAllocateSystemBar_log i
    { m with log := m.log ++ [.release (.block (m.dummyPrivateData i).systemBar)] })

theorem errCdevInit_log (i : ℕ) (m : Setup) : m.log <+: ((errCdevInit i).run m).2.log := by
  have hrest := errAllocateDmaBar_log i { m with log := m.log ++ [.release (.mutex i)] ++
    [.release (.block (m.dummyPrivateData i).dmaBar)] }
  refine List.IsPrefix.trans ?_ hrest
  rw [List.append_assoc]
  exact List.prefix_append _ _

theorem unwind_log (i : ℕ) (l : Label) (m : Setup) : m.log <+: ((unwind i l).run m).2.log := by
  cases l with
  | errAllocateSystemBar => exact errAllocateSystemBar_log i m
  | errAllocateDmaBar => exact errAllocateDmaBar_log i m
  | errCdevInit => exact errCdevInit_log i m
  | errDeviceCreate =>
    exact (List.prefix_append _ _).trans
      (errCdevInit_log i { m with log := m.log ++ [.release (.cdev i)] })

/-! ## The return value -/

section
variable {N : ℕ} {k : Outcomes} {mem : Ptr → ℕ → U32}

/-- A device whose node was created is set up when the loop is done. -/
theorem deviceUp_of_created {m : Setup} (hready : m.Ready mem N)
    (hm : m.Accounts (moduleHolds k 0 N) (missingNodes k 0)) {i : ℕ} (hi : i < N)
    (hnode : k.deviceCreate i = true) : m.DeviceUp i := by
  have hdata : m.dummyPrivateData i = readyDevice i := by
    rw [hready.data, readyData, if_pos hi]
  constructor
  · rw [hdata, hm.held]
    exact ⟨Nat.succ_pos _, (by omega : 2 * i + 1 ≤ 2 * N)⟩
  · rw [hdata, hm.held]
    exact ⟨Nat.succ_pos _, (by omega : 2 * i + 2 ≤ 2 * N)⟩
  · intro j hj
    have hblock : 2 * i + 1 ≠ 0 ∧ 2 * i + 1 ≤ 2 * N := by omega
    have hodd : (2 * i + 1) % 2 = 1 := by omega
    rw [hdata, hready.store]
    dsimp only [readyStore, readyDevice]
    rw [if_pos hblock, if_pos hodd, if_pos hj]
  · intro j hj
    have hblock : 2 * i + 2 ≠ 0 ∧ 2 * i + 2 ≤ 2 * N := by omega
    have heven : ¬ (2 * i + 2) % 2 = 1 := by omega
    rw [hdata, hready.store]
    dsimp only [readyStore, readyDevice]
    rw [if_pos hblock, if_neg heven, if_pos hj]
  · rw [hdata]
    rfl
  · rw [hready.store]
    rfl
  · exact (hm.held _).2 ⟨Nat.zero_le i, hi⟩
  · exact (hm.held _).2 ⟨Nat.zero_le i, hi, hnode⟩

theorem reports_of_not_missing (h : ¬ OnlyNodesMissing N k) : ReportsSuccess N k mem := by
  have hresult := loaded_result N k mem
  unfold ReportsSuccess
  generalize loaded N k mem = r at hresult ⊢
  -- a run that fails was refused something
  have hfails : ∀ m : Setup, (∃ r, .refuse r ∈ m.log) →
      (((-1, m) : ℤ × Setup).1 = 0 ↔ ∀ r, .refuse r ∉ ((-1, m) : ℤ × Setup).2.log) ∧
        (((-1, m) : ℤ × Setup).1 = 0 → ∀ i < N, ((-1, m) : ℤ × Setup).2.DeviceUp i) := by
    rintro m ⟨r, hr⟩
    exact ⟨⟨fun h => (by cases h), fun h => absurd hr (h r)⟩, fun h => (by cases h)⟩
  cases hresult with
  | errAllocChrdevRegion => exact hfails _ ⟨.region, by simp⟩
  | errClassCreate => exact hfails _ ⟨.cls, by simp⟩
  | stopped hr hc hloop =>
    obtain ⟨-, -, r, hrefused⟩ := (initLoop_refused N).2 _ _ _ hloop
    exact hfails _ ⟨r, (unwind_log _ _ _).subset hrefused⟩
  | done hr hc hloop =>
    have hrefused := (initLoop_refused N).1 _ hloop
    obtain ⟨hready, haccounts⟩ := (initLoop_accounts N).1 _ hloop
    have hcreated : ∀ i < N, k.deviceCreate i = true := by
      intro i hi
      by_contra hnode
      exact h ⟨hr, hc, hrefused.tested, i, hi, Bool.eq_false_iff.2 hnode⟩
    refine ⟨⟨fun _ r hmem => ?_, fun _ => rfl⟩, fun _ i hi => ?_⟩
    · obtain ⟨j, hj, rfl, hnode⟩ := (hrefused.refused r).1 hmem
      rw [hcreated j hj] at hnode
      cases hnode
    · exact deviceUp_of_created hready haccounts hi (hcreated i hi)

theorem not_reports_of_missing (h : OnlyNodesMissing N k) : ¬ ReportsSuccess N k mem := by
  have hresult := loaded_result N k mem
  unfold ReportsSuccess
  generalize loaded N k mem = r at hresult ⊢
  rintro ⟨hiff, -⟩
  cases hresult with
  | errAllocChrdevRegion hr =>
    rw [h.region] at hr
    cases hr
  | errClassCreate _ hc =>
    rw [h.cls] at hc
    cases hc
  | stopped hr hc hloop =>
    obtain ⟨hi, hfails, -⟩ := (initLoop_refused N).2 _ _ _ hloop
    exact hfails (h.tested _ hi)
  | done hr hc hloop =>
    obtain ⟨i, hi, hnode⟩ := h.node
    exact hiff.1 rfl (.node i) ((((initLoop_refused N).1 _ hloop).refused _).2 ⟨i, hi, rfl, hnode⟩)

/-- **The set-up reports success** if and only if all of it succeeded, unless
    all succeeded but the creation of some node. -/
theorem set_up_reported (N : ℕ) (k : Outcomes) (mem : Ptr → ℕ → U32) :
    ReportsSuccess N k mem ↔ ¬ OnlyNodesMissing N k :=
  ⟨fun h hmissing => not_reports_of_missing hmissing h, reports_of_not_missing⟩

end

/-- Every call succeeds but the first `device_create`. -/
def Outcomes.firstNodeFails : Outcomes :=
  { Outcomes.success with deviceCreate := fun i => i ≠ 0 }

/-- The module is loaded without the node of device 0, and reports success. -/
theorem missing_node_unreported : ¬ ReportsSuccess nrDevs .firstNodeFails fun _ _ => 0#32 :=
  not_reports_of_missing ⟨rfl, rfl, fun _ _ => ⟨rfl, rfl, rfl⟩, 0, nrDevs_pos, rfl⟩

end MtcaDummy

/-
  The set-up of the module leaks nothing and frees nothing twice.

  Before device `i` the module holds the region, the class and the resources of
  the devices below `i` (`moduleHolds`); where the loop jumps to a label, it
  also holds what the body had acquired so far (`labelHolds`).  The code after
  the label releases just that, the devices below `i` one by one:
  `unwind_empty`.  The cleanup does the same for all `N` devices:
  `setup_leaks_nothing`.
-/
import MtcaDummy.Driver.Init
import Mathlib.Order.BooleanAlgebra.Set

namespace MtcaDummy

open Conc.Ledger

/-! ## What the module holds -/

/-- The resources that need not be there when they are released: to destroy a
    node that was never created is a no-op. -/
def nodes : Set Resource := {r | ∃ i, r = .node i}

/-- The nodes from `lo` on that `device_create` fails to create. -/
def missingNodes (k : Outcomes) (lo : ℕ) : Set Resource :=
  {r | ∃ i, r = .node i ∧ lo ≤ i ∧ k.deviceCreate i = false}

/-- The region, the class, and the devices from `lo` to `hi - 1`. -/
def moduleHolds (k : Outcomes) (lo hi : ℕ) : Set Resource := {r | match r with
  | .region | .cls => True
  | .block p => 2 * lo < p ∧ p ≤ 2 * hi
  | .mutex i | .cdev i => lo ≤ i ∧ i < hi
  | .node i => lo ≤ i ∧ i < hi ∧ k.deviceCreate i = true}

section
variable {k : Outcomes} {lo hi : ℕ}

@[simp] theorem region_mem_moduleHolds : .region ∈ moduleHolds k lo hi := trivial

@[simp] theorem cls_mem_moduleHolds : .cls ∈ moduleHolds k lo hi := trivial

@[simp] theorem block_mem_moduleHolds {p : ℕ} :
    .block p ∈ moduleHolds k lo hi ↔ 2 * lo < p ∧ p ≤ 2 * hi := Iff.rfl

@[simp] theorem mutex_mem_moduleHolds {i : ℕ} :
    .mutex i ∈ moduleHolds k lo hi ↔ lo ≤ i ∧ i < hi := Iff.rfl

@[simp] theorem cdev_mem_moduleHolds {i : ℕ} :
    .cdev i ∈ moduleHolds k lo hi ↔ lo ≤ i ∧ i < hi := Iff.rfl

@[simp] theorem node_mem_moduleHolds {i : ℕ} :
    .node i ∈ moduleHolds k lo hi ↔ lo ≤ i ∧ i < hi ∧ k.deviceCreate i = true := Iff.rfl

end

/-- What the module holds at a label, for the `i` at which the loop stopped. -/
def labelHolds (k : Outcomes) (i : ℕ) : Label → Set Resource
  | .errAllocateSystemBar => moduleHolds k 0 i
  | .errAllocateDmaBar => insert (.block (2 * i + 1)) (moduleHolds k 0 i)
  | .errCdevInit =>
    insert (.mutex i) (insert (.block (2 * i + 2)) (insert (.block (2 * i + 1)) (moduleHolds k 0 i)))
  | .errDeviceCreate => insert (.cdev i) (insert (.mutex i)
    (insert (.block (2 * i + 2)) (insert (.block (2 * i + 1)) (moduleHolds k 0 i))))

/-- What the module holds after the loop body for device `i`. -/
def stepHolds (k : Outcomes) (i : ℕ) : Option Label → Set Resource
  | none => moduleHolds k 0 (i + 1)
  | some l => labelHolds k i l

/-- One more device. -/
theorem moduleHolds_succ (k : Outcomes) (i : ℕ) : moduleHolds k 0 (i + 1) =
    {r | r ∈ labelHolds k i .errDeviceCreate ∨ r = .node i ∧ k.deviceCreate i = true} := by
  ext r
  cases r with
  | region => simp [labelHolds]
  | cls => simp [labelHolds]
  | block p =>
    simp [labelHolds]
    dsimp only [Ptr]
    omega
  | mutex j =>
    simp [labelHolds]
    omega
  | cdev j =>
    simp [labelHolds]
    omega
  | node j =>
    simp [labelHolds]
    constructor
    · rintro ⟨hj, hnode⟩
      have hj' : j < i ∨ j = i := by omega
      rcases hj' with hlt | rfl
      · exact .inl ⟨hlt, hnode⟩
      · exact .inr ⟨rfl, hnode⟩
    · rintro (⟨hlt, hnode⟩ | ⟨rfl, hnode⟩)
      · exact ⟨by omega, hnode⟩
      · exact ⟨by omega, hnode⟩

/-- The account of the module. -/
abbrev Setup.Accounts (m : Setup) (H F : Set Resource) : Prop := Account nodes m.log H F

theorem DeviceStep.accounts {k : Outcomes} {i : ℕ} {m m' : Setup} {r : Option Label}
    (h : DeviceStep k i m m' r) (hnext : m.next = 2 * i + 1)
    (hm : m.Accounts (moduleHolds k 0 i) (missingNodes k 0)) :
    m'.Accounts (stepHolds k i r) (missingNodes k 0) := by
  have hsystemBar : .block (2 * i + 1) ∉ moduleHolds k 0 i := by simp
  have hdmaBar : .block (2 * i + 2) ∉ insert (.block (2 * i + 1)) (moduleHolds k 0 i) := by simp
  have hbegin := (hm.acquire hsystemBar).use (Set.mem_insert _ _)
  have hbars := (hbegin.acquire hdmaBar).use (Set.mem_insert _ _)
  have hmutex := (hbars.use (Set.mem_insert_of_mem _ (Set.mem_insert _ _))).acquire
    (r := .mutex i) (by simp)
  have hregion := hmutex.use (r := .region) (by simp)
  unfold Setup.Accounts at hm ⊢
  cases h with
  | errAllocateSystemBar hsystem hlog =>
    rw [hlog]
    exact hm.refuse _
  | errAllocateDmaBar hdma hbar hlog =>
    rw [hlog, hnext]
    have hrefused := hbegin.refuse (.block NULL)
    simp only [List.append_assoc, List.cons_append, List.nil_append] at hrefused
    refine hrefused.weaken rfl ?_
    rintro r ⟨j, rfl, hj⟩
    exact ⟨⟨j, rfl, hj⟩, by simp⟩
  | errCdevInit hcdev hbar hbar' hlog =>
    rw [hlog, hnext]
    have hrefused := hregion.refuse (.cdev i)
    simp only [List.append_assoc, List.cons_append, List.nil_append] at hrefused
    simp only [deviceActs, List.append_assoc, List.cons_append, List.nil_append]
    refine hrefused.weaken rfl ?_
    rintro r ⟨j, rfl, hj⟩
    exact ⟨⟨⟨⟨j, rfl, hj⟩, by simp⟩, by simp⟩, by simp⟩
  | done _ _ _ _ _ _ _ hlog =>
    rw [hlog, hnext]
    have hadded := hregion.acquire (r := .cdev i) (by simp)
    have hcls := (hadded.use (r := .cls) (by simp)).use (r := .region) (by simp)
    simp only [deviceActs, List.append_assoc, List.cons_append, List.nil_append]
    cases hnode : k.deviceCreate i with
    | false =>
      have hrefused := hcls.refuse (.node i)
      simp only [List.append_assoc, List.cons_append, List.nil_append] at hrefused
      refine hrefused.weaken ?_ ?_
      · ext r
        simp [stepHolds, moduleHolds_succ, labelHolds, hnode]
      · rintro r ⟨j, rfl, hj⟩
        exact ⟨⟨⟨⟨⟨j, rfl, hj⟩, by simp⟩, by simp⟩, by simp⟩, by simp⟩
    | true =>
      have hcreated := hcls.acquire (r := .node i) (by simp)
      simp only [List.append_assoc, List.cons_append, List.nil_append] at hcreated
      refine hcreated.weaken ?_ ?_
      · ext r
        simp [stepHolds, moduleHolds_succ, labelHolds, hnode]
        exact or_comm
      · rintro r ⟨j, rfl, hj⟩
        refine ⟨⟨⟨⟨⟨⟨j, rfl, hj⟩, by simp⟩, by simp⟩, by simp⟩, by simp⟩, ?_⟩
        rintro ⟨⟩
        rw [hnode] at hj
        exact absurd hj.2 (by decide)

/-! ## Taking devices down -/

/-- The bars of device `j` are the blocks `2 j + 1` and `2 j + 2`. -/
def Setup.HasBars (m : Setup) (j : ℕ) : Prop :=
  (m.dummyPrivateData j).systemBar = 2 * j + 1 ∧ (m.dummyPrivateData j).dmaBar = 2 * j + 2

/-- One device less. -/
theorem moduleHolds_sdiff (k : Outcomes) (j hi : ℕ) :
    ((((moduleHolds k j hi \ {.node j}) \ {.cdev j}) \ {.mutex j}) \ {.block (2 * j + 1)}) \
      {.block (2 * j + 2)} = moduleHolds k (j + 1) hi := by
  ext r
  cases r with
  | region => simp
  | cls => simp
  | block p =>
    simp
    dsimp only [Ptr]
    omega
  | mutex i =>
    simp
    omega
  | cdev i =>
    simp
    omega
  | node i =>
    simp
    constructor
    · rintro ⟨⟨hle, hlt, hnode⟩, hne⟩
      exact ⟨by omega, hlt, hnode⟩
    · rintro ⟨hle, hlt, hnode⟩
      exact ⟨⟨by omega, hlt, hnode⟩, by omega⟩

theorem destroyDevice_accounts {k : Outcomes} {j hi : ℕ} {m : Setup} (hj : j < hi)
    (hbars : m.HasBars j) (hm : m.Accounts (moduleHolds k j hi) (missingNodes k j)) :
    ((destroyDevice j).run m).2.Accounts (moduleHolds k (j + 1) hi) (missingNodes k (j + 1)) := by
  have hrun : ((destroyDevice j).run m).2.log = m.log ++ [.use .cls] ++ [.release (.node j)] ++
      [.release (.cdev j)] ++ [.release (.mutex j)] ++
      [.release (.block (m.dummyPrivateData j).systemBar)] ++
      [.release (.block (m.dummyPrivateData j).dmaBar)] := rfl
  unfold Setup.Accounts at hm ⊢
  rw [hrun, hbars.1, hbars.2]
  have hcls := hm.use cls_mem_moduleHolds
  have hallowed : Allowed nodes (m.log ++ [.use .cls]) (.release (.node j)) := by
    cases hnode : k.deviceCreate j with
    | true => exact .inl ((hcls.held _).2 ⟨le_rfl, hj, hnode⟩)
    | false => exact .inr ⟨⟨j, rfl⟩, hcls.untouched _ ⟨j, rfl, le_rfl, hnode⟩⟩
  have hnode := hcls.released hallowed
  have hcdev := hnode.release (r := .cdev j) (by simp [hj])
  have hmutex := hcdev.release (r := .mutex j) (by simp [hj])
  have hsystem := hmutex.release (r := .block (2 * j + 1)) (by simp; omega)
  have hdma := hsystem.release (r := .block (2 * j + 2)) (by simp; omega)
  refine hdma.weaken (moduleHolds_sdiff k j hi) ?_
  rintro r ⟨i, rfl, hi, hnode⟩
  refine ⟨⟨⟨⟨⟨⟨i, rfl, by omega, hnode⟩, ?_⟩, by simp⟩, by simp⟩, by simp⟩, by simp⟩
  rintro ⟨⟩
  omega

theorem destroyDevices_accounts {k : Outcomes} (n : ℕ) {j hi : ℕ} {m : Setup} (hhi : j + n = hi)
    (hbars : ∀ i < hi, m.HasBars i)
    (hm : m.Accounts (moduleHolds k j hi) (missingNodes k j)) :
    ((destroyDevices n j).run m).2.Accounts (moduleHolds k hi hi) (missingNodes k hi) := by
  induction n generalizing j m with
  | zero =>
    obtain rfl := hhi
    exact hm
  | succ n ih =>
    have hrun : ((destroyDevices (n + 1) j).run m).2 =
        ((destroyDevices n (j + 1)).run ((destroyDevice j).run m).2).2 := rfl
    rw [hrun]
    refine ih (by omega) hbars (destroyDevice_accounts (by omega) (hbars j (by omega)) hm)

/-- The module uses and releases only what it holds, but for the nodes that
    were never there: nothing is released twice, or used after its release. -/
structure Orderly (log : List Act) : Prop where
  sound : Sound nodes log
  released_once : ∀ a b c r, log = a ++ .release r :: (b ++ .release r :: c) → .acquire r ∈ b
  not_used_after : ∀ a b c r, log = a ++ .release r :: (b ++ .use r :: c) → .acquire r ∈ b

theorem orderly_of_sound {log : List Act} (h : Sound nodes log) : Orderly log := by
  refine ⟨h, ?_, ?_⟩
  · rintro a b c r rfl
    exact h.not_released_twice
  · rintro a b c r rfl
    exact h.not_used_after

/-- The ledger is in order, and nothing is held at its end. -/
def LeavesNothing (log : List Act) : Prop := Orderly log ∧ ∀ r, ¬ Held log r

/-- The last steps of the cleanup and of the unwinding. -/
theorem leavesNothing_of_noDevices {k : Outcomes} {hi : ℕ} {m : Setup}
    (hm : m.Accounts (moduleHolds k hi hi) (missingNodes k hi)) :
    LeavesNothing (m.log ++ [.release .cls] ++ [.release .region]) := by
  have hcls := hm.release cls_mem_moduleHolds
  have hregion := hcls.release (r := .region) (by simp)
  refine ⟨orderly_of_sound hregion.sound, fun r hr => ?_⟩
  rw [hregion.held] at hr
  obtain ⟨⟨hr, hne⟩, hne'⟩ := hr
  cases r with
  | region => exact hne' rfl
  | cls => exact hne rfl
  | block p => exact absurd hr.1 (Nat.not_lt.2 hr.2)
  | mutex i => exact absurd hr.2 (Nat.not_lt.2 hr.1)
  | cdev i => exact absurd hr.2 (Nat.not_lt.2 hr.1)
  | node i => exact absurd hr.2.1 (Nat.not_lt.2 hr.1)

theorem cleanup_empty {k : Outcomes} {N : ℕ} {m : Setup} (hbars : ∀ i < N, m.HasBars i)
    (hm : m.Accounts (moduleHolds k 0 N) (missingNodes k 0)) :
    LeavesNothing ((mtcaDummyCleanupModule N).run m).2.log :=
  leavesNothing_of_noDevices (destroyDevices_accounts N (Nat.zero_add N) hbars hm)

/-! ## The code after the labels -/

/-- The bars of device `i` that are there at a label. -/
def Setup.HasLabelBars (m : Setup) (i : ℕ) : Label → Prop
  | .errAllocateSystemBar => True
  | .errAllocateDmaBar => (m.dummyPrivateData i).systemBar = 2 * i + 1
  | .errCdevInit | .errDeviceCreate => m.HasBars i

/-- The loop has jumped to a label. -/
structure Setup.Stopped (k : Outcomes) (i : ℕ) (l : Label) (m : Setup) : Prop where
  accounts : m.Accounts (labelHolds k i l) (missingNodes k 0)
  bars : ∀ j < i, m.HasBars j
  labelBars : m.HasLabelBars i l

section
variable {k : Outcomes} {i : ℕ} {m : Setup}

/-- A release of what only device `i` has. -/
theorem Setup.Accounts.release_last {H : Set Resource} {r : Resource} (hr : r ∉ H)
    (hnode : r ∉ nodes) (hm : m.Accounts (insert r H) (missingNodes k 0)) :
    Account nodes (m.log ++ [.release r]) H (missingNodes k 0) := by
  refine (Account.release hm (Set.mem_insert _ _)).weaken ?_ ?_
  · exact Set.insert_sdiff_self_of_notMem hr
  · rintro r' ⟨j, rfl, hj⟩
    refine ⟨⟨j, rfl, hj⟩, ?_⟩
    rintro rfl
    exact hnode ⟨j, rfl⟩

theorem unwind_errAllocateSystemBar (h : m.Stopped k i .errAllocateSystemBar) :
    LeavesNothing ((unwind i .errAllocateSystemBar).run m).2.log :=
  leavesNothing_of_noDevices (destroyDevices_accounts i (Nat.zero_add i) h.bars h.accounts)

theorem unwind_errAllocateDmaBar (h : m.Stopped k i .errAllocateDmaBar) :
    LeavesNothing ((unwind i .errAllocateDmaBar).run m).2.log := by
  have hrelease := h.accounts.release_last (by simp) (by simp [nodes])
  rw [← h.labelBars] at hrelease
  exact unwind_errAllocateSystemBar ⟨hrelease, h.bars, trivial⟩

theorem unwind_errCdevInit (h : m.Stopped k i .errCdevInit) :
    LeavesNothing ((unwind i .errCdevInit).run m).2.log := by
  have hmutex := h.accounts.release_last (by simp) (by simp [nodes])
  have hdma := Setup.Accounts.release_last (m := { m with log := m.log ++ [.release (.mutex i)] })
    (by simp) (by simp [nodes]) hmutex
  rw [← h.labelBars.2] at hdma
  exact unwind_errAllocateDmaBar ⟨hdma, h.bars, h.labelBars.1⟩

theorem unwind_errDeviceCreate (h : m.Stopped k i .errDeviceCreate) :
    LeavesNothing ((unwind i .errDeviceCreate).run m).2.log := by
  have hcdev := h.accounts.release_last (by simp) (by simp [nodes])
  exact unwind_errCdevInit ⟨hcdev, h.bars, h.labelBars⟩

/-- **The code after a label releases what the module holds there.** -/
theorem unwind_empty {l : Label} (h : m.Stopped k i l) :
    LeavesNothing ((unwind i l).run m).2.log := by
  cases l with
  | errDeviceCreate => exact unwind_errDeviceCreate h
  | errCdevInit => exact unwind_errCdevInit h
  | errAllocateDmaBar => exact unwind_errAllocateDmaBar h
  | errAllocateSystemBar => exact unwind_errAllocateSystemBar h

end

/-! ## The loop -/

theorem Setup.Ready.hasBars {mem : Ptr → ℕ → U32} {n : ℕ} {m : Setup} (hm : m.Ready mem n) {j : ℕ}
    (hj : j < n) : m.HasBars j := by
  unfold Setup.HasBars
  rw [hm.data, readyData, if_pos hj]
  exact ⟨rfl, rfl⟩

section
variable {k : Outcomes} {mem : Ptr → ℕ → U32}

/-- A jump leaves the loop with the account of the label. -/
theorem stopped_of_initDevice {i : ℕ} {l : Label} {m m' : Setup} (hready : m.Ready mem i)
    (hm : m.Accounts (moduleHolds k 0 i) (missingNodes k 0))
    (h : (initDevice k i).run m = (some l, m')) : m'.Stopped k i l := by
  obtain ⟨hstep, hothers⟩ := initDevice_step hready.next_ne h
  refine ⟨hstep.accounts hready.next hm, fun j hj => ?_, ?_⟩
  · unfold Setup.HasBars
    rw [hothers j (by omega)]
    exact hready.hasBars hj
  · cases hstep with
    | errAllocateSystemBar => exact trivial
    | errAllocateDmaBar _ hbar => exact hbar.trans hready.next
    | errCdevInit _ hbar hbar' =>
      rw [hready.next] at hbar hbar'
      exact ⟨hbar, hbar'⟩

/-- The account at the begin of the loop. -/
theorem accounts_begun (k : Outcomes) (mem : Ptr → ℕ → U32) :
    (Setup.begun mem).Accounts (moduleHolds k 0 0) (missingNodes k 0) := by
  have hregion := (Account.nil nodes).acquire (Set.notMem_empty Resource.region)
  have hcls := hregion.acquire (r := .cls) (by simp)
  refine hcls.weaken ?_ ?_
  · ext r
    cases r with
    | region => simp
    | cls => simp
    | block p =>
      simp
      omega
    | mutex i => simp
    | cdev i => simp
    | node i => simp
  · rintro r ⟨j, rfl, hj⟩
    simp

/-- **The account of the loop.** -/
theorem initLoop_accounts (n : ℕ) :
    (∀ m, (initLoop k n 0).run (.begun mem) = (none, m) →
      m.Ready mem n ∧ m.Accounts (moduleHolds k 0 n) (missingNodes k 0)) ∧
    ∀ l i m, (initLoop k n 0).run (.begun mem) = (some (l, i), m) → m.Stopped k i l := by
  obtain ⟨hdone, hstop⟩ := initLoop_rule
    (I := fun i m => m.Ready mem i ∧ m.Accounts (moduleHolds k 0 i) (missingNodes k 0))
    (S := fun i l m => m.Stopped k i l)
    (fun i m m' hm h => by
      have hstep := (initDevice_step hm.1.next_ne h).1
      exact ⟨hm.1.device hstep, hstep.accounts hm.1.next hm.2⟩)
    (fun i l m m' hm h => stopped_of_initDevice hm.1 hm.2 h) n
    ⟨Setup.ready_begun mem, accounts_begun k mem⟩
  constructor
  · intro m h
    rw [← Nat.zero_add n]
    exact hdone m h
  · exact fun l i m h => (hstop l i m h).2

/-- What the cleanup of a loaded module leaves. -/
def unloaded (N : ℕ) (k : Outcomes) (mem : Ptr → ℕ → U32) : Setup :=
  ((mtcaDummyCleanupModule N).run (loaded N k mem).2).2

/-- **The set-up leaks nothing and frees nothing twice.**  In every run, the
    initialisation fails and leaves nothing, or it succeeds and the cleanup
    leaves nothing; and the ledger is in order. -/
theorem setup_leaks_nothing (N : ℕ) (k : Outcomes) (mem : Ptr → ℕ → U32) :
    (loaded N k mem).1 = -1 ∧ LeavesNothing (loaded N k mem).2.log ∨
      (loaded N k mem).1 = 0 ∧ Orderly (loaded N k mem).2.log ∧
        LeavesNothing (unloaded N k mem).log := by
  have hresult := loaded_result N k mem
  unfold unloaded
  generalize loaded N k mem = r at hresult ⊢
  cases hresult with
  | errAllocChrdevRegion =>
    have h := (Account.nil nodes).refuse Resource.region
    exact .inl ⟨rfl, orderly_of_sound h.sound, fun r hr => (h.held r).1 hr⟩
  | errClassCreate =>
    have h := ((Account.nil nodes).acquire (Set.notMem_empty Resource.region)).refuse .cls
    have h' := h.release (Set.mem_insert _ _)
    refine .inl ⟨rfl, orderly_of_sound h'.sound, fun r hr => ?_⟩
    obtain ⟨hr, hne⟩ := (h'.held r).1 hr
    rcases hr with hr | hr
    · exact hne hr
    · exact hr
  | stopped hr hc hloop =>
    exact .inl ⟨rfl, unwind_empty ((initLoop_accounts N).2 _ _ _ hloop)⟩
  | done hr hc hloop =>
    obtain ⟨hready, haccounts⟩ := (initLoop_accounts N).1 _ hloop
    exact .inr ⟨rfl, orderly_of_sound haccounts.sound,
      cleanup_empty (fun i hi => hready.hasBars hi) haccounts⟩

end

end MtcaDummy

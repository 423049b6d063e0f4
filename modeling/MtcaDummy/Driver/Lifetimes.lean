/-
  A device can only be reached while all it consists of is there.

  From `cdev_add` to `cdev_del` a process can call the device, which needs its
  bars, its mutex and its number; and a node in the file system needs the
  device and the class (`needs`).  `devices_are_whole`: at every moment of
  loading and unloading, whichever calls of the kernel fail, what is there has
  what it needs.  `calls_use_what_is_held`: so a call on a device that can be
  reached uses no mutex that is not there, and no memory outside of the blocks
  that are, if it is in range.
-/
import MtcaDummy.Conc.Lifetime
import MtcaDummy.Driver.Discipline
import MtcaDummy.Driver.SetupLedger

namespace MtcaDummy

open Conc.Ledger

/-- What a resource needs as long as it is there. -/
def needs : Resource → Set Resource
  | .cdev i => {.region, .block (2 * i + 1), .block (2 * i + 2), .mutex i}
  | .node i => {.region, .cls, .cdev i}
  | _ => ∅

section
variable {r : Resource} {i : ℕ}

theorem cdev_mem_needs (h : .cdev i ∈ needs r) : r = .node i := by
  cases r with
  | node j =>
    simp [needs] at h
    rw [h]
  | cdev j => simp [needs] at h
  | _ => cases h

theorem mutex_mem_needs (h : .mutex i ∈ needs r) : r = .cdev i := by
  cases r with
  | node j => simp [needs] at h
  | cdev j =>
    simp [needs] at h
    rw [h]
  | _ => cases h

theorem block_mem_needs {p : ℕ} (h : .block p ∈ needs r) :
    ∃ j, r = .cdev j ∧ (p = 2 * j + 1 ∨ p = 2 * j + 2) := by
  cases r with
  | node j => simp [needs] at h
  | cdev j =>
    simp [needs] at h
    exact ⟨j, rfl, h⟩
  | _ => cases h

theorem cls_mem_needs (h : .cls ∈ needs r) : ∃ j, r = .node j := by
  cases r with
  | node j => exact ⟨j, rfl⟩
  | cdev j => simp [needs] at h
  | _ => cases h

theorem region_mem_needs (h : .region ∈ needs r) : ∃ j, r = .cdev j ∨ r = .node j := by
  cases r with
  | node j => exact ⟨j, .inr rfl⟩
  | cdev j => exact ⟨j, .inl rfl⟩
  | _ => cases h

theorem node_notMem_needs : .node i ∉ needs r := by
  intro h
  cases r with
  | node j => simp [needs] at h
  | cdev j => simp [needs] at h
  | _ => cases h

end

/-- The ledger of the module is nested, and leaves `H` held. -/
abbrev Setup.Lives (m : Setup) (H : Set Resource) : Prop := Conc.Ledger.Lives needs m.log H

/-! ## The loop body -/

theorem DeviceStep.lives {k : Outcomes} {i : ℕ} {m m' : Setup} {r : Option Label}
    (h : DeviceStep k i m m' r) (hnext : m.next = 2 * i + 1) (hm : m.Lives (moduleHolds k 0 i)) :
    m'.Lives (stepHolds k i r) := by
  have hbegin := (hm.acquire (r := .block (2 * i + 1)) (by simp [needs])).use (.block (2 * i + 1))
  have hbars := (hbegin.acquire (r := .block (2 * i + 2)) (by simp [needs])).use
    (.block (2 * i + 2))
  have hmutex := (hbars.use (.block (2 * i + 1))).acquire (r := .mutex i) (by simp [needs])
  have hregion := hmutex.use .region
  unfold Setup.Lives at hm ⊢
  cases h with
  | errAllocateSystemBar hsystem hlog =>
    rw [hlog]
    exact hm.refuse _
  | errAllocateDmaBar hdma hbar hlog =>
    rw [hlog, hnext]
    have hrefused := hbegin.refuse (.block NULL)
    simp only [List.append_assoc, List.cons_append, List.nil_append] at hrefused
    exact hrefused
  | errCdevInit hcdev hbar hbar' hlog =>
    rw [hlog, hnext]
    have hrefused := hregion.refuse (.cdev i)
    simp only [List.append_assoc, List.cons_append, List.nil_append] at hrefused
    simp only [deviceActs, List.append_assoc, List.cons_append, List.nil_append]
    exact hrefused
  | done _ _ _ _ _ _ _ hlog =>
    rw [hlog, hnext]
    have hneeds : needs (.cdev i) ⊆ labelHolds k i .errCdevInit := by
      rintro x (rfl | rfl | rfl | rfl) <;> simp [labelHolds]
    have hadded := hregion.acquire (r := .cdev i) hneeds
    have hcls := (hadded.use .cls).use .region
    simp only [deviceActs, List.append_assoc, List.cons_append, List.nil_append]
    cases hnode : k.deviceCreate i with
    | false =>
      have hrefused := hcls.refuse (.node i)
      simp only [List.append_assoc, List.cons_append, List.nil_append] at hrefused
      refine hrefused.congr ?_
      ext r
      simp [stepHolds, moduleHolds_succ, labelHolds, hnode]
    | true =>
      have hcreated := hcls.acquire (r := .node i) (by
        rintro x (rfl | rfl | rfl) <;> simp)
      simp only [List.append_assoc, List.cons_append, List.nil_append] at hcreated
      refine hcreated.congr ?_
      ext r
      simp [stepHolds, moduleHolds_succ, labelHolds, hnode]
      exact or_comm

/-! ## Taking devices down -/

section
variable {k : Outcomes} {m : Setup}

theorem destroyDevice_lives {j hi : ℕ} (hbars : m.HasBars j) (hm : m.Lives (moduleHolds k j hi)) :
    ((destroyDevice j).run m).2.Lives (moduleHolds k (j + 1) hi) := by
  have hrun : ((destroyDevice j).run m).2.log = m.log ++ [.use .cls] ++ [.release (.node j)] ++
      [.release (.cdev j)] ++ [.release (.mutex j)] ++
      [.release (.block (m.dummyPrivateData j).systemBar)] ++
      [.release (.block (m.dummyPrivateData j).dmaBar)] := rfl
  unfold Setup.Lives at hm ⊢
  rw [hrun, hbars.1, hbars.2]
  have hnode := (hm.use .cls).release (r := .node j) fun x hx => absurd hx node_notMem_needs
  have hcdev := hnode.release (r := .cdev j) fun x hx h => by
    rw [cdev_mem_needs hx] at h
    exact h.2 rfl
  have hmutex := hcdev.release (r := .mutex j) fun x hx h => by
    rw [mutex_mem_needs hx] at h
    exact h.2 rfl
  have hsystem := hmutex.release (r := .block (2 * j + 1)) fun x hx h => by
    obtain ⟨i, rfl, hi⟩ := block_mem_needs hx
    obtain rfl : i = j := by omega
    exact h.1.2 rfl
  have hdma := hsystem.release (r := .block (2 * j + 2)) fun x hx h => by
    obtain ⟨i, rfl, hi⟩ := block_mem_needs hx
    obtain rfl : i = j := by omega
    exact h.1.1.2 rfl
  exact hdma.congr (moduleHolds_sdiff k j hi)

theorem destroyDevices_lives (n : ℕ) {j hi : ℕ} (hhi : j + n = hi) (hbars : ∀ i < hi, m.HasBars i)
    (hm : m.Lives (moduleHolds k j hi)) :
    ((destroyDevices n j).run m).2.Lives (moduleHolds k hi hi) := by
  induction n generalizing j m with
  | zero =>
    obtain rfl := hhi
    exact hm
  | succ n ih =>
    have hrun : ((destroyDevices (n + 1) j).run m).2 =
        ((destroyDevices n (j + 1)).run ((destroyDevice j).run m).2).2 := rfl
    rw [hrun]
    exact ih (by omega) hbars (destroyDevice_lives (hbars j (by omega)) hm)

/-- The last steps of the cleanup and of the unwinding. -/
theorem nested_of_noDevices {hi : ℕ} (hm : m.Lives (moduleHolds k hi hi)) :
    Nested needs (m.log ++ [.release .cls] ++ [.release .region]) := by
  have hcls := hm.release (r := .cls) fun x hx h => by
    obtain ⟨j, rfl⟩ := cls_mem_needs hx
    exact Nat.not_lt.2 h.1 h.2.1
  have hregion := hcls.release (r := .region) fun x hx h => by
    obtain ⟨j, rfl | rfl⟩ := region_mem_needs hx
    · exact Nat.not_lt.2 h.1.1 h.1.2
    · exact Nat.not_lt.2 h.1.1 h.1.2.1
  exact hregion.nested

theorem cleanup_nested {N : ℕ} (hbars : ∀ i < N, m.HasBars i) (hm : m.Lives (moduleHolds k 0 N)) :
    Nested needs ((mtcaDummyCleanupModule N).run m).2.log :=
  nested_of_noDevices (destroyDevices_lives N (Nat.zero_add N) hbars hm)

/-! ## The code after the labels -/

/-- A release of what nothing needs yet. -/
theorem Setup.Lives.release_last {H : Set Resource} {r : Resource} (hm : m.Lives (insert r H))
    (hr : r ∉ H) (hneeds : ∀ x, r ∈ needs x → x ∉ insert r H) :
    Conc.Ledger.Lives needs (m.log ++ [.release r]) H :=
  (Conc.Ledger.Lives.release hm hneeds).congr (Set.insert_sdiff_self_of_notMem hr)

variable {i : ℕ} (hbars : ∀ j < i, m.HasBars j)
include hbars

theorem errAllocateSystemBar_nested (hm : m.Lives (labelHolds k i .errAllocateSystemBar)) :
    Nested needs ((unwind i .errAllocateSystemBar).run m).2.log :=
  nested_of_noDevices (destroyDevices_lives i (Nat.zero_add i) hbars hm)

theorem errAllocateDmaBar_nested (hlabel : m.HasLabelBars i .errAllocateDmaBar)
    (hm : m.Lives (labelHolds k i .errAllocateDmaBar)) :
    Nested needs ((unwind i .errAllocateDmaBar).run m).2.log := by
  have hsystem := hm.release_last (by simp) fun x hx => by
    obtain ⟨j, rfl, hj⟩ := block_mem_needs hx
    simp
    omega
  rw [← hlabel] at hsystem
  exact errAllocateSystemBar_nested (m := { m with log := _ }) hbars hsystem

theorem errCdevInit_nested (hlabel : m.HasLabelBars i .errCdevInit)
    (hm : m.Lives (labelHolds k i .errCdevInit)) :
    Nested needs ((unwind i .errCdevInit).run m).2.log := by
  have hmutex := hm.release_last (by simp) fun x hx => by
    rw [mutex_mem_needs hx]
    simp
  have hdma := Setup.Lives.release_last (m := { m with log := m.log ++ [.release (.mutex i)] })
    hmutex (by simp) fun x hx => by
      obtain ⟨j, rfl, hj⟩ := block_mem_needs hx
      simp
      omega
  rw [← hlabel.2] at hdma
  exact errAllocateDmaBar_nested (m := { m with log := _ }) hbars hlabel.1 hdma

theorem errDeviceCreate_nested (hlabel : m.HasLabelBars i .errDeviceCreate)
    (hm : m.Lives (labelHolds k i .errDeviceCreate)) :
    Nested needs ((unwind i .errDeviceCreate).run m).2.log := by
  have hcdev := hm.release_last (by simp) fun x hx => by
    rw [cdev_mem_needs hx]
    simp
  exact errCdevInit_nested (m := { m with log := _ }) hbars hlabel hcdev

theorem unwind_nested {l : Label} (hlabel : m.HasLabelBars i l) (hm : m.Lives (labelHolds k i l)) :
    Nested needs ((unwind i l).run m).2.log := by
  cases l with
  | errDeviceCreate => exact errDeviceCreate_nested hbars hlabel hm
  | errCdevInit => exact errCdevInit_nested hbars hlabel hm
  | errAllocateDmaBar => exact errAllocateDmaBar_nested hbars hlabel hm
  | errAllocateSystemBar => exact errAllocateSystemBar_nested hbars hm

end

/-! ## The loop -/

section
variable {k : Outcomes} {mem : Ptr → ℕ → U32}

theorem lives_begun (k : Outcomes) (mem : Ptr → ℕ → U32) :
    (Setup.begun mem).Lives (moduleHolds k 0 0) := by
  have hcls := ((Lives.nil needs).acquire (r := .region) (Set.empty_subset _)).acquire (r := .cls)
    (Set.empty_subset _)
  refine hcls.congr ?_
  ext r
  cases r with
  | region => simp
  | cls => simp
  | block p =>
    simp
    omega
  | mutex i => simp
  | cdev i => simp
  | node i => simp

/-- **The lifetimes in the loop.** -/
theorem initLoop_lives (n : ℕ) :
    (∀ m, (initLoop k n 0).run (.begun mem) = (none, m) → m.Lives (moduleHolds k 0 n)) ∧
    ∀ l i m, (initLoop k n 0).run (.begun mem) = (some (l, i), m) → m.Lives (labelHolds k i l) := by
  obtain ⟨hdone, hstop⟩ := initLoop_rule
    (I := fun i m => m.Ready mem i ∧ m.Lives (moduleHolds k 0 i))
    (S := fun i l m => m.Lives (labelHolds k i l))
    (fun i m m' hm h => by
      have hstep := (initDevice_step hm.1.next_ne h).1
      exact ⟨hm.1.device hstep, hstep.lives hm.1.next hm.2⟩)
    (fun i l m m' hm h => (initDevice_step hm.1.next_ne h).1.lives hm.1.next hm.2) n
    ⟨Setup.ready_begun mem, lives_begun k mem⟩
  rw [Nat.zero_add] at hdone hstop
  exact ⟨fun m h => (hdone m h).2, fun l i m h => (hstop l i m h).2⟩

theorem loaded_nested (N : ℕ) (k : Outcomes) (mem : Ptr → ℕ → U32) :
    Nested needs (loaded N k mem).2.log ∧
      ((loaded N k mem).1 = 0 → Nested needs (unloaded N k mem).log) := by
  have hresult := loaded_result N k mem
  unfold unloaded
  generalize loaded N k mem = r at hresult ⊢
  cases hresult with
  | errAllocChrdevRegion =>
    exact ⟨((Lives.nil needs).refuse Resource.region).nested, fun h => by cases h⟩
  | errClassCreate =>
    have hregion := (((Lives.nil needs).acquire (r := .region) (Set.empty_subset _)).refuse
      .cls).release (r := .region) fun x hx h => by
        obtain ⟨j, rfl | rfl⟩ := region_mem_needs hx
        · simp at h
        · simp at h
    exact ⟨hregion.nested, fun h => by cases h⟩
  | stopped hr hc hloop =>
    have hstopped := (initLoop_accounts N).2 _ _ _ hloop
    exact ⟨unwind_nested hstopped.bars hstopped.labelBars ((initLoop_lives N).2 _ _ _ hloop),
      fun h => by cases h⟩
  | done hr hc hloop =>
    have hlives := (initLoop_lives N).1 _ hloop
    obtain ⟨hready, -⟩ := (initLoop_accounts N).1 _ hloop
    exact ⟨hlives.nested, fun _ => cleanup_nested (fun i hi => hready.hasBars hi) hlives⟩

/-- What is held after a successful initialisation. -/
theorem loaded_lives {N : ℕ} (hl : (loaded N k mem).1 = 0) :
    (loaded N k mem).2.Lives (moduleHolds k 0 N) := by
  have hresult := loaded_result N k mem
  generalize loaded N k mem = r at hl hresult ⊢
  cases hresult with
  | errAllocChrdevRegion => cases hl
  | errClassCreate => cases hl
  | stopped => cases hl
  | done _ _ hloop => exact (initLoop_lives N).1 _ hloop

/-- A moment of the life of the module: what was done so far when it is loaded,
    or when it is unloaded after it was loaded. -/
def Moment (N : ℕ) (k : Outcomes) (mem : Ptr → ℕ → U32) (log : List Act) : Prop :=
  log <+: (loaded N k mem).2.log ∨ (loaded N k mem).1 = 0 ∧ log <+: (unloaded N k mem).log

theorem Moment.nested {N : ℕ} {log : List Act} (h : Moment N k mem log) : Nested needs log := by
  rcases h with h | ⟨h0, h⟩
  · exact (loaded_nested N k mem).1.initial h
  · exact ((loaded_nested N k mem).2 h0).initial h

/-- **Devices are whole.**  At every moment, whichever calls of the kernel fail,
    a device that a process can reach has both its bars, its mutex and its
    number, and a node in the file system has its device and its class. -/
theorem devices_are_whole {N : ℕ} {log : List Act} (h : Moment N k mem log) (i : ℕ) :
    (Held log (.cdev i) → Held log .region ∧ Held log (.block (2 * i + 1)) ∧
      Held log (.block (2 * i + 2)) ∧ Held log (.mutex i)) ∧
    (Held log (.node i) → Held log .cls ∧ Held log (.cdev i)) := by
  have hnested := h.nested
  refine ⟨fun hcdev => ⟨?_, ?_, ?_, ?_⟩, fun hnode => ⟨?_, ?_⟩⟩
  · exact hnested.held hcdev (by simp [needs])
  · exact hnested.held hcdev (by simp [needs])
  · exact hnested.held hcdev (by simp [needs])
  · exact hnested.held hcdev (by simp [needs])
  · exact hnested.held hnode (by simp [needs])
  · exact hnested.held hnode (by simp [needs])

/-- Device 3 of a module just loaded. -/
theorem devices_are_whole_loaded :
    let log := (loaded nrDevs .success fun _ _ => 0#32).2.log
    Held log (.cdev 3) ∧ Held log (.block 7) ∧ Held log (.block 8) ∧ Held log (.mutex 3) := by
  intro log
  have hcdev : Held log (.cdev 3) :=
    ((loaded_lives (loaded_success nrDevs fun _ _ => 0#32)).held _).2 ⟨Nat.zero_le 3, by decide⟩
  exact ⟨hcdev, ((devices_are_whole (.inl (List.prefix_refl _)) 3).1 hcdev).2⟩

/-- The instruction uses only mutexes that are there, and words inside of
    blocks that are, where `size` tells the sizes of the blocks. -/
def Backed (size : Ptr → ℕ) (log : List Act) : KInstr → Prop
  | .lock m _ | .unlock m => m = .controlMutex ∨ ∃ i, m = .devMutex i ∧ Held log (.mutex i)
  | .load (.word b i) | .store (.word b i) _ | .modify (.word b i) _ =>
    Held log (.block b) ∧ 4 * i + 4 ≤ size b
  | _ => True

/-- The bars have the sizes they are allocated with. -/
theorem loaded_size {N : ℕ} (hN : N ≤ 2 ^ 32) (hl : (loaded N k mem).1 = 0) {d : ℕ} (hd : d < N)
    (bar : Bar) :
    (loaded N k mem).2.size (bar.base ((Board.loaded hl hN).dummyPrivateData d)) = bar.size := by
  rw [(loaded_ready hl).size, Board.loaded_data, readyData, if_pos hd]
  cases bar with
  | system =>
    have hp : 2 * d + 1 ≠ 0 ∧ 2 * d + 1 ≤ 2 * N := by omega
    simp [readySize, readyDevice, Bar.base, Bar.size, hp, Nat.add_mod]
  | dma =>
    have hp : 2 * d + 2 ≠ 0 ∧ 2 * d + 2 ≤ 2 * N := by omega
    simp [readySize, readyDevice, Bar.base, Bar.size, hp]

/-- **No call uses what is not there.**  As long as a device can be reached,
    also while the module sets up or takes down others, every call on it that is
    in range, with any other arguments, signals and answers of the other calls,
    locks and unlocks only mutexes that were initialised and not destroyed, and
    accesses only words inside of memory that was allocated and not freed. -/
theorem calls_use_what_is_held {N : ℕ} (hN : N ≤ 2 ^ 32) (hl : (loaded N k mem).1 = 0)
    {log : List Act} (h : Moment N k mem log) {e : Entry N} {d : Fin N} (he : e.device = some d)
    (hcdev : Held log (.cdev d)) {ℓ : Local} (hin : e.InRange ℓ) :
    (e.body (Board.loaded hl hN) ℓ).All (Backed (loaded N k mem).2.size log) := by
  have hmutex : Held log (.mutex d) := h.nested.held hcdev (by simp [needs])
  have hword : ∀ b j, (Board.loaded hl hN).InBar d b j →
      Held log (.block b) ∧ 4 * j + 4 ≤ (loaded N k mem).2.size b := by
    rintro b j ⟨bar, rfl, hj⟩
    rw [loaded_size hN hl d.isLt]
    refine ⟨h.nested.held hcdev ?_, by omega⟩
    rw [Board.loaded_data, readyData, if_pos d.isLt]
    cases bar <;> simp [needs, readyDevice, Bar.base]
  refine (Entry.scope_inRange he hin).mono fun i hi => ?_
  cases i with
  | lock m intr =>
    rcases hi with rfl | rfl
    · exact .inr ⟨d, rfl, hmutex⟩
    · exact .inl rfl
  | unlock m =>
    rcases hi with rfl | rfl
    · exact .inr ⟨d, rfl, hmutex⟩
    · exact .inl rfl
  | load l =>
    cases l with
    | word b j => exact hword b j (hi trivial)
    | _ => trivial
  | store l v =>
    cases l with
    | word b j => exact hword b j hi.1
    | _ => trivial
  | modify l f =>
    cases l with
    | word b j => exact hi.elim
    | _ => trivial
  | note x => trivial

/-- A read by DMA of the whole bar of device 3. -/
theorem calls_use_what_is_held_read :
    ((Entry.read (N := nrDevs) 3 0 sizeofDeviceRw).body loadedBoard (dmaLocal 0#32 4096#32)).All
      (Backed (loaded nrDevs .success fun _ _ => 0#32).2.size
        (loaded nrDevs .success fun _ _ => 0#32).2.log) := by
  refine calls_use_what_is_held (by decide) (loaded_success nrDevs fun _ _ => 0#32)
    (.inl (List.prefix_refl _)) (d := 3) rfl
    (((loaded_lives (loaded_success nrDevs fun _ _ => 0#32)).held _).2
      ⟨Nat.zero_le 3, by decide⟩) ?_
  rintro offset size ⟨⟩ -
  decide

end

end MtcaDummy

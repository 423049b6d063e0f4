/-
  The use counters of the devices, which have 32 bits.

  An `open` that succeeds adds one to the counter of its device, a `release`
  takes one off, and nothing else changes it.  `use_counter_exact`: no count is
  lost, however the calls interleave.  `open_files_counted`: along every run of
  system calls the counter of a device is the number of its open files, modulo
  `2 ^ 32`, and every open file of a device with methods points to the device.
-/
import MtcaDummy.Conc.Counter
import MtcaDummy.Driver.Calls
import MtcaDummy.Driver.Isolation
import Mathlib.Data.BitVec
import Mathlib.Data.Set.Card

namespace MtcaDummy

open Conc

variable {N : ℕ}

/-! ## What the calls add -/

/-- What a call that returned `r` has added to the use counter of device `d`. -/
def Entry.counts (d : Fin N) (r : ℤ) : Entry N → ℤ
  | opn e => if e = d ∧ r = 0 then 1 else 0
  | release e => if e = d then -1 else 0
  | _ => 0

/-- The counter as it is. -/
def useCount (n : U32) : U32 := n

section
variable {B : Board N} {d : ℕ} {n : U32} {α : Type}

/-- A part that does not write the counter adds nothing. -/
theorem wp_counts_of_not_writes {x : KM α} (hx : Every (fun i => ¬ i.Writes (.inUse d)) x)
    {Q : α → Local → U32 → Prop} {ℓ : Local} (hQ : ∀ a ℓ, Q a ℓ n) :
    wp (addT (.inUse d) useCount) x Q ℓ n :=
  wp_add_of_not_writes (hx ℓ) fun a => hQ a.1 a.2

/-- An update of the counter of device `e`, seen from device `d`. -/
theorem addT_modify {e : ℕ} {k : U32} {g : U32 → U32} (hg : ∀ m, g m = m + k)
    {Q : U32 → U32 → Prop} (hQ : ∀ r, Q r (n + if e = d then k else 0)) :
    addT (.inUse d) useCount (.modify (.inUse e) g : KInstr) Q n := by
  refine ⟨_, fun s => ?_, hQ⟩
  by_cases he : e = d
  · subst he
    simp [Instr.eff, useCount, hg]
  · have hne : d ≠ e := Ne.symm he
    simp [Instr.eff, useCount, he, hne]

/-- A call with another effect leaves the counters alone. -/
theorem Entry.writes_no_counter {e : Entry N} (h : e.effect ≠ .counter) (ℓ : Local) :
    (e.body B ℓ).All fun i => ¬ i.Writes (.inUse d) := by
  cases hd : e.device with
  | some d' =>
    refine (Entry.scope_any hd ℓ).mono fun i hi hw => ?_
    cases hw with
    | store => exact hi
    | modify => exact h hi.2
  | none =>
    cases e with
    | procWrite ubuf count =>
      refine (every_procWrite ubuf (min count maxRwCount) ℓ).mono fun i hi hw => ?_
      obtain ⟨f, hf⟩ := hi _ hw.touches
      cases hf
    | _ => cases hd

end

theorem open_counts (e d : Fin N) (ℓ : Local) :
    wp (addT (.inUse d) useCount) (mtcaDummyOpen e)
      (fun r _ n => n = BitVec.ofInt 32 (Entry.counts d r (.opn e))) ℓ 0 := by
  have hlock : Every (fun i => ¬ i.Writes (.inUse d)) (mutexLockInterruptible .controlMutex) :=
    fun _ => ⟨Instr.not_writes_lock, fun _ => trivial⟩
  have hload : Every (fun i => ¬ i.Writes (.inUse d)) (controlData .openError) :=
    fun _ => ⟨Instr.not_writes_load, fun _ => trivial⟩
  have hunlock : Every (fun i => ¬ i.Writes (.inUse d)) (mutexUnlock .controlMutex) :=
    fun _ => ⟨Instr.not_writes_unlock, fun _ => trivial⟩
  have hfails : ∀ r : ℤ, r ≠ 0 → 0 = BitVec.ofInt 32 (Entry.counts d r (.opn e)) := by
    intro r hr
    simp [Entry.counts, hr]
  unfold mtcaDummyOpen
  rw [wp_bind]
  refine wp_counts_of_not_writes hlock fun intr ℓ => ?_
  rw [wp_ite]
  refine ⟨fun _ => hfails (-ERESTARTSYS) (by decide), fun _ => ?_⟩
  rw [wp_bind]
  refine wp_counts_of_not_writes hload fun openFail ℓ => ?_
  rw [wp_bind]
  refine wp_counts_of_not_writes hunlock fun _ ℓ => ?_
  rw [wp_ite]
  refine ⟨fun _ => hfails (-EINVAL) (by decide), fun _ => ?_⟩
  rw [wp_bind, wp_setPrivateData, wp_bind, wp_atomicInc]
  refine addT_modify (fun _ => rfl) fun r => ?_
  rw [wp_pure, Entry.counts, zero_add]
  simp only [Fin.ext_iff, and_true]
  split <;> rfl

theorem release_counts (e d : Fin N) (ℓ : Local) :
    wp (addT (.inUse d) useCount) (mtcaDummyRelease e)
      (fun r _ n => n = BitVec.ofInt 32 (Entry.counts d r (.release e))) ℓ 0 := by
  unfold mtcaDummyRelease
  rw [wp_bind, wp_atomicDec]
  refine addT_modify (fun m => sub_eq_add_neg m 1) fun r => ?_
  rw [wp_pure, Entry.counts, zero_add]
  simp only [Fin.ext_iff]
  split <;> rfl

/-- **What an entry point adds to a use counter.** -/
theorem Entry.body_counts {B : Board N} (e : Entry N) (d : Fin N) (ℓ : Local) :
    wp (addT (.inUse d) useCount) (e.body B)
      (fun r _ n => n = BitVec.ofInt 32 (e.counts d r)) ℓ 0 := by
  have hquiet : ∀ e : Entry N, e.effect ≠ .counter → (∀ r, e.counts d r = 0) →
      wp (addT (.inUse d) useCount) (e.body B)
        (fun r _ n => n = BitVec.ofInt 32 (e.counts d r)) ℓ 0 :=
    fun e heff hzero => wp_add_of_not_writes (Entry.writes_no_counter heff ℓ)
      fun a => (congrArg (BitVec.ofInt 32) (hzero a.1)).symm
  cases e with
  | opn e => exact open_counts e d ℓ
  | release e => exact release_counts e d ℓ
  | _ => exact hquiet _ (by simp [Entry.effect]) fun _ => rfl

section
variable {B : Board N} {ι : Type} [DecidableEq ι] {e : ι → Entry N} {ℓ : ι → Local} {s : Store}
  {h : List (Event ι)} {cfg : Config ι Loc.Val Mutex Note (ℤ × Local)}

/-- **The use counters are exact.**  Whatever the interleaving, when no call is
    in progress each counter has changed by the opens of its device that
    succeeded, less the releases, as a number of 32 bits. -/
theorem use_counter_exact (hr : Run (B.calls e ℓ) s h cfg)
    (hdone : ∀ t p, cfg.thread t ≠ .running p) :
    ∃ T : Finset ι, (∀ t, t ∈ T ↔ ∃ a, cfg.thread t = .done a) ∧
      ∀ d : Fin N, cfg.store (.inUse d) = useCount (s (.inUse d)) +
        BitVec.ofInt 32 (∑ t ∈ T, (cfg.thread t).added fun a => (e t).counts d a.1) := by
  obtain ⟨T, hT⟩ := hr.exists_calls
  refine ⟨T, fun t => ?_, fun d => ?_⟩
  · rw [hT]
    cases ht : cfg.thread t with
    | idle => simp
    | running p => exact absurd ht (hdone t p)
    | done a => simp
  · have hcounts : ∀ t, (B.calls e ℓ t).wp (addT (.inUse d) useCount)
        (fun a n => n = Int.castAddHom U32 ((e t).counts d a.1)) 0 :=
      fun t => (e t).body_counts d (ℓ t)
    have hsum := hr.counted hcounts hdone fun t ht => not_not.1 fun hne => ht ((hT t).2 hne)
    simp only [Thread.added_map, ← map_sum] at hsum
    exact hsum

/-- Two opens of device 4 that overlap. -/
theorem use_counter_exact_two_opens : ∃ h cfg,
    Run (sparseBoard.calls (fun _ : Bool => .opn llrfSlot)
      fun _ => ⟨noUser, [], 0, none, []⟩) (readyStore (fun _ _ => 0#32) nrDevs) h cfg ∧
    cfg.store (.inUse 4) = 2#32 ∧
    ∃ T : Finset Bool, (∀ t, t ∈ T ↔ ∃ a, cfg.thread t = .done a) ∧
      cfg.store (.inUse 4) = useCount 0#32 +
        BitVec.ofInt 32 (∑ t ∈ T, (cfg.thread t).added fun a =>
          (.opn llrfSlot : Entry nrDevs).counts llrfSlot a.1) := by
  obtain ⟨h, hr⟩ := sparseRun_run (fun _ : Bool => .opn llrfSlot)
    (fun _ => ⟨noUser, [], 0, none, []⟩)
    ([false, true, false, false, false, true, true, true, false, true, true, false, true] :
      List Bool)
  obtain ⟨T, hT, hcount⟩ := use_counter_exact hr fun t p hp => by
    cases t with
    | false => cases hp
    | true => cases hp
  exact ⟨h, _, hr, by decide +kernel, T, hT, hcount llrfSlot⟩

end

/-! ## Open files -/

section
variable {B : Board N} {d : Fin N}

/-- A table has both `open` and `release`, or neither. -/
theorem Board.opn_or_none (B : Board N) (d : Fin N) :
    ((B.ops d).opn = some .opn ∧ (B.ops d).release = some .release) ∨
      ((B.ops d).opn = none ∧ (B.ops d).release = none) := by
  unfold Board.ops
  split
  · rename_i name _
    cases name with
    | noIoctlDummyFileOps => exact .inr ⟨rfl, rfl⟩
    | _ => exact .inl ⟨rfl, rfl⟩
  · exact .inr ⟨rfl, rfl⟩

/-- The methods that transfer data leave the counters alone. -/
theorem Request.method_effect {r : Request (Handle N)} {m : Fin N → Entry N}
    (hm : r.method B = some m) (hopn : ∀ h, r.call ≠ .opn h) (hrel : ∀ h, r.call ≠ .release h)
    (p : Fin N) : (m p).effect ≠ .counter := by
  have hops : ∀ d : Fin N,
      (∀ m, (B.ops d).read = some m → ∀ p buf count, (m p buf count).effect ≠ .counter) ∧
      (∀ m, (B.ops d).write = some m → ∀ p buf count, (m p buf count).effect ≠ .counter) ∧
      ∀ m, (B.ops d).unlockedIoctl = some m → ∀ p cmd arg, (m p cmd arg).effect ≠ .counter := by
    intro d
    unfold Board.ops
    split
    · rename_i name _
      cases name <;> refine ⟨?_, ?_, ?_⟩ <;> rintro m ⟨⟩ <;> intros <;> simp [Entry.effect]
    · refine ⟨?_, ?_, ?_⟩ <;> rintro m ⟨⟩
  unfold Request.method at hm
  cases hcall : r.call with
  | opn h => exact absurd hcall (hopn h)
  | release h => exact absurd hcall (hrel h)
  | read h buf count pos =>
    rw [hcall] at hm
    obtain ⟨m', hm', rfl⟩ := Option.map_eq_some_iff.1 hm
    exact (hops h.slot).1 m' hm' p buf count
  | write h buf count pos =>
    rw [hcall] at hm
    obtain ⟨m', hm', rfl⟩ := Option.map_eq_some_iff.1 hm
    exact (hops h.slot).2.1 m' hm' p buf count
  | ioctl h cmd arg =>
    rw [hcall] at hm
    obtain ⟨m', hm', rfl⟩ := Option.map_eq_some_iff.1 hm
    exact (hops h.slot).2.2 m' hm' p cmd arg
  | procWrite ubuf count =>
    rw [hcall] at hm
    cases hm

end

/-- The open files that point to device `d`. -/
def World.opened (w : World N) (d : Fin N) : Set (Handle N) :=
  {h | h.slot = d ∧ ∃ f, w.files h = some f ∧ f.privateData = some (d : ℕ)}

/-- What a file of a device points to when it is open. -/
def Board.pointsTo (B : Board N) (d : Fin N) : Option ℕ :=
  if (B.ops d).opn = none then none else some (d : ℕ)

/-- The open files are those the counters count. -/
structure World.Counts (B : Board N) (w : World N) : Prop where
  files : ∀ h f, w.files h = some f → f.privateData = B.pointsTo h.slot
  finite : ∀ d, (w.opened d).Finite
  inUse : ∀ d : Fin N, w.store (.inUse d) = BitVec.ofNat 32 (w.opened d).ncard

section
variable {B : Board N} {w : World N} {r : Request (Handle N)} {s : Store}

theorem World.mem_opened {d : Fin N} {h : Handle N} :
    h ∈ w.opened d ↔ h.slot = d ∧ (w.files h).bind File.privateData = some (d : ℕ) := by
  rw [Option.bind_eq_some_iff]
  exact Iff.rfl

/-- A call that leaves the counters alone, and what the file points to. -/
theorem World.Counts.setFile (hw : w.Counts B)
    (hs : ∀ d : Fin N, s (.inUse d) = w.store (.inUse d)) {h : Handle N} {f : Option File}
    (hf : ∀ x, f = some x → x.privateData = B.pointsTo h.slot)
    (hp : f.bind File.privateData = (w.files h).bind File.privateData) :
    (World.setFile ⟨s, w.files⟩ h f).Counts B := by
  have hopened : ∀ d, (World.setFile ⟨s, w.files⟩ h f).opened d = w.opened d := by
    intro d
    ext h'
    simp only [World.mem_opened, World.setFile, Function.update_apply]
    split
    · rename_i he
      rw [he, hp]
    · rfl
  refine ⟨fun h' x hx => ?_, fun d => ?_, fun d => ?_⟩
  · simp only [World.setFile, Function.update_apply] at hx
    split at hx
    · rename_i he
      rw [he]
      exact hf x hx
    · exact hw.files h' x hx
  · rw [hopened]
    exact hw.finite d
  · rw [hopened]
    exact (hs d).trans (hw.inUse d)

theorem World.Counts.store (hw : w.Counts B)
    (hs : ∀ d : Fin N, s (.inUse d) = w.store (.inUse d)) : (World.mk s w.files).Counts B :=
  ⟨hw.files, hw.finite, fun d => (hs d).trans (hw.inUse d)⟩

/-- One more file is open. -/
theorem World.Counts.opn (hw : w.Counts B) {h : Handle N} (hf : w.files h = none)
    (hops : (B.ops h.slot).opn = some .opn) : (World.setFile ⟨Function.update w.store
      (.inUse h.slot) (w.store (.inUse h.slot) + 1 : U32), w.files⟩ h
      (some ⟨0, some (h.slot : ℕ)⟩)).Counts B := by
  have hpoints : B.pointsTo h.slot = some (h.slot : ℕ) := by
    rw [Board.pointsTo, hops, if_neg (by simp)]
  have hnot : h ∉ w.opened h.slot := by
    rintro ⟨-, f, hf', -⟩
    rw [hf] at hf'
    cases hf'
  have hopened : ∀ d, (World.setFile ⟨Function.update w.store (.inUse h.slot)
      (w.store (.inUse h.slot) + 1 : U32), w.files⟩ h (some ⟨0, some (h.slot : ℕ)⟩)).opened d =
      if d = h.slot then insert h (w.opened d) else w.opened d := by
    intro d
    ext h'
    by_cases he : h' = h
    · subst he
      by_cases hd : d = h'.slot
      · subst hd
        simp [World.opened, World.setFile]
      · simp [World.opened, Ne.symm hd, hd]
    · by_cases hd : d = h.slot
      · simp [World.opened, World.setFile, hd, he]
      · simp [World.opened, World.setFile, hd, he]
  refine ⟨fun h' f hf' => ?_, fun d => ?_, fun d => ?_⟩
  · simp only [World.setFile, Function.update_apply] at hf'
    split at hf'
    · rename_i he
      cases hf'
      rw [he, hpoints]
    · exact hw.files h' f hf'
  · rw [hopened]
    split
    · exact (hw.finite d).insert h
    · exact hw.finite d
  · rw [hopened]
    by_cases hd : d = h.slot
    · subst hd
      rw [if_pos rfl, Set.ncard_insert_of_notMem hnot (hw.finite _), BitVec.ofNat_add, ← hw.inUse]
      exact Function.update_self _ _ _
    · have hne : (d : ℕ) ≠ h.slot := fun he => hd (Fin.ext he)
      rw [if_neg hd]
      simp [World.setFile, hne, hw.inUse]

/-- A file is closed. -/
theorem World.Counts.release (hw : w.Counts B) {h : Handle N} {f : File}
    (hf : w.files h = some f) (hops : (B.ops h.slot).opn = some .opn) :
    (World.setFile ⟨Function.update w.store (.inUse h.slot) (w.store (.inUse h.slot) - 1 : U32),
      w.files⟩ h none).Counts B := by
  have hpoints : B.pointsTo h.slot = some (h.slot : ℕ) := by
    rw [Board.pointsTo, hops, if_neg (by simp)]
  have hmem : h ∈ w.opened h.slot := ⟨rfl, f, hf, (hw.files h f hf).trans hpoints⟩
  have hopened : ∀ d, (World.setFile ⟨Function.update w.store (.inUse h.slot)
      (w.store (.inUse h.slot) - 1 : U32), w.files⟩ h none).opened d =
      if d = h.slot then w.opened d \ {h} else w.opened d := by
    intro d
    ext h'
    by_cases he : h' = h
    · subst he
      by_cases hd : d = h'.slot
      · simp [World.opened, World.setFile, hd]
      · simp [World.opened, Ne.symm hd, hd]
    · by_cases hd : d = h.slot
      · simp [World.opened, World.setFile, hd, he]
      · simp [World.opened, World.setFile, hd, he]
  refine ⟨fun h' f' hf' => ?_, fun d => ?_, fun d => ?_⟩
  · simp only [World.setFile, Function.update_apply] at hf'
    split at hf'
    · cases hf'
    · exact hw.files h' f' hf'
  · rw [hopened]
    split
    · exact (hw.finite d).sdiff
    · exact hw.finite d
  · rw [hopened]
    by_cases hd : d = h.slot
    · subst hd
      have hcard := Set.ncard_sdiff_singleton_add_one hmem (hw.finite _)
      rw [if_pos rfl, ← ofNat_succ_sub_one, hcard, ← hw.inUse]
      exact Function.update_self _ _ _
    · have hne : (d : ℕ) ≠ h.slot := fun he => hd (Fin.ext he)
      rw [if_neg hd]
      simp [World.setFile, hne, hw.inUse]

/-! ## Calls -/

theorem chrdevOpen_counts (hw : w.Counts B) {h : Handle N} (hr : r.call = .opn h) :
    (w.chrdevOpen B r h).2.Counts B := by
  cases hf : w.files h with
  | some f =>
    unfold World.chrdevOpen
    rw [hf]
    exact hw
  | none =>
    have hmethod : r.method B = (B.ops h.slot).opn := by
      unfold Request.method
      rw [hr]
    rcases B.opn_or_none h.slot with ⟨hopn, -⟩ | ⟨hopn, -⟩
    · rw [chrdevOpen_eq (hmethod.trans hopn) hf]
      split_ifs
      · exact hw
      · exact hw
      · exact hw.opn hf hopn
    · unfold World.chrdevOpen
      rw [hf, hmethod, hopn]
      refine hw.setFile (fun _ => rfl) ?_ (by rw [hf]; rfl)
      rintro x ⟨⟩
      rw [Board.pointsTo, if_pos hopn]

theorem fput_counts (hw : w.Counts B) {h : Handle N} (hr : r.call = .release h) :
    (w.fput B r h).2.Counts B := by
  cases hf : w.files h with
  | none =>
    unfold World.fput
    rw [hf]
    exact hw
  | some f =>
    have hmethod : r.method B = (B.ops h.slot).release := by
      unfold Request.method
      rw [hr]
    have hpoints := hw.files h f hf
    rcases B.opn_or_none h.slot with ⟨hopn, hrel⟩ | ⟨hopn, hrel⟩
    · have hp : toDevice f.privateData = some h.slot := by
        rw [hpoints, Board.pointsTo, hopn, if_neg (by simp), toDevice_some]
      rw [fput_eq (hmethod.trans hrel) hf hp]
      exact hw.release hf hopn
    · unfold World.fput World.run₁
      rw [hf, hmethod, hrel]
      refine hw.setFile (fun _ => rfl) (fun x hx => by cases hx) ?_
      rw [hf, Option.bind_some, hpoints, Board.pointsTo, if_pos hopn]
      rfl

/-- A method that transfers data leaves the counters alone. -/
theorem run₁_counts {f : File} {pos : ℕ} {o : Outcome ℤ} (ho : w.run₁ B r f pos = some o)
    (hopn : ∀ h, r.call ≠ .opn h) (hrel : ∀ h, r.call ≠ .release h) (d : Fin N) :
    o.store (.inUse d) = w.store (.inUse d) := by
  unfold World.run₁ at ho
  obtain ⟨m, hm, ho⟩ := Option.bind_eq_some_iff.1 ho
  obtain ⟨p, -, rfl⟩ := Option.map_eq_some_iff.1 ho
  exact Prog.exec_frame (Entry.writes_no_counter (Request.method_effect hm hopn hrel p) _) _

theorem vfsTransfer_counts (hw : w.Counts B) {h : Handle N} {pos : Option ℕ}
    (hopn : ∀ h, r.call ≠ .opn h) (hrel : ∀ h, r.call ≠ .release h) :
    (w.vfsTransfer B r h pos).2.Counts B := by
  unfold World.vfsTransfer
  cases hf : w.files h with
  | none => exact hw
  | some f =>
    dsimp only
    cases ho : w.run₁ B r f (pos.getD f.fPos) with
    | none => exact hw
    | some o =>
      have hstore := run₁_counts ho hopn hrel
      dsimp only
      split
      · refine hw.setFile hstore ?_ (by rw [hf]; rfl)
        rintro x ⟨⟩
        exact hw.files h f hf
      · exact hw.store hstore

theorem vfsIoctl_counts (hw : w.Counts B) {h : Handle N} (hopn : ∀ h, r.call ≠ .opn h)
    (hrel : ∀ h, r.call ≠ .release h) : (w.vfsIoctl B r h).2.Counts B := by
  unfold World.vfsIoctl
  cases hf : w.files h with
  | none => exact hw
  | some f =>
    dsimp only
    cases ho : w.run₁ B r f f.fPos with
    | none => exact hw
    | some o => exact hw.store (run₁_counts ho hopn hrel)

/-- Every system call keeps the count. -/
theorem step_counts (hw : w.Counts B) : (w.step B r).2.Counts B := by
  unfold World.step
  cases hr : r.call with
  | opn h => exact chrdevOpen_counts hw hr
  | release h => exact fput_counts hw hr
  | read h buf count pos =>
    exact vfsTransfer_counts hw (fun h' hh => by simp [hr] at hh) fun h' hh => by simp [hr] at hh
  | write h buf count pos =>
    exact vfsTransfer_counts hw (fun h' hh => by simp [hr] at hh) fun h' hh => by simp [hr] at hh
  | ioctl h cmd arg =>
    exact vfsIoctl_counts hw (fun h' hh => by simp [hr] at hh) fun h' hh => by simp [hr] at hh
  | procWrite ubuf count =>
    exact hw.store fun d => Prog.exec_frame (Entry.writes_no_counter
      (e := .procWrite ubuf count) (by simp [Entry.effect]) _) _

end

/-- No file is open, and the counters are 0. -/
theorem World.start_counts {B : Board N} {s : Store} (hs : ∀ d : Fin N, s (.inUse d) = 0#32) :
    (World.start s : World N).Counts B := by
  have hopened : ∀ d, (World.start s : World N).opened d = ∅ := by
    intro d
    ext h
    simp [World.opened, World.start]
  refine ⟨fun h f hf => ?_, fun d => ?_, fun d => ?_⟩
  · cases hf
  · rw [hopened]
    exact Set.finite_empty
  · rw [hopened, Set.ncard_empty]
    exact hs d

/-- **The use counters count the open files.**  After every run of system calls
    of a module just loaded, whatever the signals, the faults and the error
    flags, the counter of a device is the number of its files that are open
    through its `open`, modulo `2 ^ 32`; and each open file of a device with methods points to
    the device. -/
theorem open_files_counted {k : Outcomes} {mem : Ptr → ℕ → U32} (hN : N ≤ 2 ^ 32)
    (hl : (loaded N k mem).1 = 0) (rs : List (Request (Handle N))) :
    let B := Board.loaded hl hN
    let w := ((World.start (loaded N k mem).2.store).run B rs).2
    (∀ d : Fin N, (w.opened d).Finite ∧ w.store (.inUse d) = BitVec.ofNat 32 (w.opened d).ncard) ∧
      ∀ h f, w.files h = some f → (B.ops h.slot).opn ≠ none →
        f.privateData = some (h.slot : ℕ) := by
  intro B w
  have hzero : ∀ d : Fin N, (loaded N k mem).2.store (.inUse d) = 0#32 := by
    intro d
    rw [(loaded_ready hl).store]
    rfl
  have hw : w.Counts B :=
    World.run_invariant (I := fun w => w.Counts B) (fun _ _ h => step_counts h)
      (World.start_counts hzero) rs
  refine ⟨fun d => ⟨hw.finite d, hw.inUse d⟩, fun h f hf hopn => ?_⟩
  rw [hw.files h f hf, Board.pointsTo, if_neg hopn]

/-- Two files of device 0 are open, and one is closed again. -/
theorem open_files_counted_two :
    let rs : List (Request (Handle nrDevs)) :=
      [⟨.opn ⟨0, 0⟩, .ofBytes fun _ => 0, []⟩, ⟨.opn ⟨0, 1⟩, .ofBytes fun _ => 0, []⟩,
        ⟨.release ⟨0, 0⟩, .ofBytes fun _ => 0, []⟩]
    let w := ((World.start (loaded nrDevs .success fun _ _ => 0#32).2.store).run loadedBoard rs).2
    (w.opened 0).Finite ∧ w.store (.inUse (0 : Fin nrDevs)) = BitVec.ofNat 32 (w.opened 0).ncard :=
  ((open_files_counted (by decide) (loaded_success nrDevs fun _ _ => 0#32) _).1 0)

end MtcaDummy

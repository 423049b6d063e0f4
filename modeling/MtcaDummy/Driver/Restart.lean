/-
  Calls that a signal interrupts, and the runs of the module.

  `Patient x ℓ s`: the call gives up at a lock and has done nothing, or the
  signals make no difference to it.  Every entry point is patient, but for the
  writes, whose firmware tries to take a mutex after a word was stored; these
  are as long as only their own attempts are interrupted (`Entry.patient`).
-/
import MtcaDummy.Driver.BulkReads
import MtcaDummy.Driver.Dump
import MtcaDummy.Driver.Refinement

namespace MtcaDummy

open Conc

variable {N : ℕ} {α : Type}

/-! ## Calls that give up -/

/-- The errors of a call that a signal interrupted. -/
def GivesUp (e : ℤ) : Prop := e = -ERESTARTSYS ∨ e = -EWOULDBLOCK

instance : DecidablePred GivesUp := fun _ => instDecidableOr

/-- The outcome with other signals left. -/
def Outcome.signalled (o : Outcome α) (σ : List Bool) : Outcome α :=
  ⟨o.val, { o.loc with signals := σ }, o.store⟩

/-- The part takes no lock. -/
def Deaf (x : KM α) : Prop :=
  ∀ ℓ s σ, exec x { ℓ with signals := σ } s = (exec x ℓ s).signalled σ

/-- A signal ends the call before it did anything, or the signals make no
    difference. -/
def Patient (x : KM ℤ) (ℓ : Local) (s : Store) : Prop :=
  (∃ e σ, GivesUp e ∧ exec x ℓ s = ⟨e, { ℓ with signals := σ }, s⟩) ∨
    ∃ σ, exec x ℓ s = (exec x { ℓ with signals := [] } s).signalled σ

theorem deaf_pure (a : α) : Deaf (pure a) := fun _ _ _ => rfl

theorem Deaf.bind {β : Type} {x : KM α} {f : α → KM β} (hx : Deaf x) (hf : ∀ a, Deaf (f a)) :
    Deaf (x >>= f) := by
  intro ℓ s σ
  rw [exec_bind, exec_bind, hx]
  exact hf _ _ _ _

theorem Deaf.ite {c : Prop} [Decidable c] {x y : KM α} (hx : Deaf x) (hy : Deaf y) :
    Deaf (if c then x else y) := by
  split
  · exact hx
  · exact hy

theorem deaf_unlock (m : Mutex) : Deaf (mutexUnlock m) := fun _ _ _ => rfl

theorem deaf_exit (m : Mutex) (a : α) : Deaf (do
    mutexUnlock m
    return a) := (deaf_unlock m).bind fun _ => deaf_pure a

theorem deaf_copyToUserFrom (B : Board N) (dst : ℕ) (b : Ptr) (size w n : ℕ) :
    Deaf (copyToUserFrom B dst b size w n) := by
  intro ℓ s σ
  rw [exec_copyToUserFrom, exec_copyToUserFrom]
  rfl

theorem deaf_setOrRead (f : Flag) (v : ℤ) : Deaf (setOrRead f v) := by
  intro ℓ s σ
  rw [exec_setOrRead, exec_setOrRead]
  rfl

section
variable {B : Board N} {d : ℕ}

theorem deaf_readLocked (buf count : ℕ) : Deaf (mtcaDummyReadLocked B d buf count) := by
  intro ℓ s σ
  rw [exec_readLocked, exec_readLocked]
  rfl

theorem deaf_ioctlLocked (c : IoctlConstants) (cmd : U32) (arg : ℕ) :
    Deaf (dummyIoctlLocked B c d cmd arg) := by
  intro ℓ s σ
  rw [exec_ioctlLocked, exec_ioctlLocked]
  rfl

theorem deaf_readNoStructLoop (t : TransferInformation) (buf k i : ℕ) :
    Deaf (readNoStructLoop B d t buf k i) := by
  induction k generalizing i with
  | zero => exact deaf_exit _ _
  | succ k ih =>
    refine .ite (deaf_exit _ _) ((deaf_copyToUserFrom _ _ _ _ _ _).bind fun left => .ite
      (deaf_exit _ _) ?_)
    exact Deaf.bind (fun _ _ _ => rfl) fun p => Deaf.bind (fun _ _ _ => rfl) fun _ => ih _

end

section
variable {x y : KM ℤ} {ℓ : Local} {s : Store}

/-- A lock attempt, where the call gives up if it is interrupted. -/
theorem Patient.lock {m : Mutex} {e : ℤ} (he : GivesUp e)
    (hx : Patient x { ℓ with signals := ℓ.signals.tail } s) : Patient (do
      if ← mutexLockInterruptible m then
        return e
      else
        x) ℓ s := by
  have hcalm : exec (do
      if ← mutexLockInterruptible m then
        return e
      else
        x) { ℓ with signals := [] } s = exec x { ℓ with signals := [] } s := rfl
  have hrun : exec (do
      if ← mutexLockInterruptible m then
        return e
      else
        x) ℓ s = if ℓ.signals.headD false then ⟨e, { ℓ with signals := ℓ.signals.tail }, s⟩
      else exec x { ℓ with signals := ℓ.signals.tail } s := by
    rw [exec_bind, exec_lock, next_mk, exec_ite]
    rfl
  unfold Patient
  rw [hrun, hcalm]
  split
  · exact .inl ⟨e, _, he, rfl⟩
  · exact hx

/-- A part that neither takes a lock nor changes anything. -/
theorem Patient.after {y : KM α} {f : α → KM ℤ} {v : α}
    (hy : ∀ σ, exec y { ℓ with signals := σ } s = ⟨v, { ℓ with signals := σ }, s⟩)
    (hf : Patient (f v) ℓ s) : Patient (y >>= f) ℓ s := by
  have hrun : ∀ σ, exec (y >>= f) { ℓ with signals := σ } s =
      exec (f v) { ℓ with signals := σ } s := fun σ => by rw [exec_bind, hy, next_mk]
  unfold Patient
  rw [hrun [], show exec (y >>= f) ℓ s = exec (f v) ℓ s from hrun ℓ.signals]
  exact hf

theorem Patient.ite {c : Prop} [Decidable c] (hx : Patient x ℓ s) (hy : Patient y ℓ s) :
    Patient (if c then x else y) ℓ s := by
  split
  · exact hx
  · exact hy

theorem Deaf.patient (hx : Deaf x) : Patient x ℓ s :=
  .inr ⟨ℓ.signals, hx { ℓ with signals := [] } s ℓ.signals⟩

theorem patient_pure (v : ℤ) : Patient (pure v) ℓ s := (deaf_pure v).patient

/-- No signal is left. -/
theorem patient_of_no_signals (hℓ : ℓ.signals = []) : Patient x ℓ s := by
  obtain ⟨user, signals, fPos, privateData, seq⟩ := ℓ
  cases hℓ
  exact .inr ⟨_, rfl⟩

theorem givesUp_restart : GivesUp (-ERESTARTSYS) := .inl rfl

/-- The gates of a transfer: a flag under the control mutex, then the mutex of
    the device. -/
theorem patient_gates {d : ℕ} (f : Flag)
    (hx : Patient x { ℓ with signals := ℓ.signals.tail.tail } s) : Patient (do
      if ← mutexLockInterruptible .controlMutex then
        return -ERESTARTSYS
      else
        let fail ← controlData f
        mutexUnlock .controlMutex
        if fail then
          return -EFAULT
        else if ← mutexLockInterruptible (.devMutex d) then
          return -ERESTARTSYS
        else
          x) ℓ s := by
  refine .lock givesUp_restart (.after (fun _ => rfl) (.after (fun _ => rfl) (.ite ?_ ?_)))
  · exact patient_pure _
  · exact .lock givesUp_restart hx

/-- The same, where the position is checked in between. -/
theorem patient_transfer {B : Board N} {d count : ℕ} (f : Flag) {k : TransferInformation → KM ℤ}
    (hx : ∀ t, Patient (k t) { ℓ with signals := ℓ.signals.tail.tail } s) : Patient (do
      if ← mutexLockInterruptible .controlMutex then
        return -ERESTARTSYS
      else
        let fail ← controlData f
        mutexUnlock .controlMutex
        if fail then
          return -EFAULT
        else
          match checkAndCalculateTransferInformation (B.dummyPrivateData d) count (← getPos) with
          | .error e => return e
          | .ok t =>
            if ← mutexLockInterruptible (.devMutex d) then
              return -ERESTARTSYS
            else
              k t) ℓ s := by
  refine .lock givesUp_restart (.after (fun _ => rfl) (.after (fun _ => rfl) (.ite ?_
    (.after (fun _ => rfl) ?_))))
  · exact patient_pure _
  · cases checkAndCalculateTransferInformation (B.dummyPrivateData d) count ℓ.fPos with
    | error e => exact patient_pure e
    | ok t => exact .lock givesUp_restart (hx t)

theorem patient_ioctl {B : Board N} {d : ℕ} (c : IoctlConstants) (cmd : U32) (arg : ℕ) :
    Patient (dummyIoctl B c d cmd arg) ℓ s := by
  refine .ite (patient_pure _) (.ite (patient_pure _) (.after
    (v := ℓ.user.accessOk arg (iocSize cmd).toNat) (fun _ => rfl) (.ite ?_ ?_)))
  · exact patient_pure _
  · exact .lock givesUp_restart (deaf_ioctlLocked _ _ _).patient

/-- What is shown depends on no signal. -/
theorem patient_seqShow {B : Board N} {d : ℕ} : Patient (mtcadummySeqShow B d) ℓ s := by
  unfold Patient
  rw [exec_seqShow, exec_seqShow]
  by_cases hgives : s (.inUse d) ≠ 0#32 ∧ ℓ.signals.headD false = true
  · rw [if_pos hgives]
    exact .inl ⟨_, _, givesUp_restart, rfl⟩
  · have hcalm : ¬ (s (.inUse d) ≠ 0#32 ∧
        ({ ℓ with signals := [] } : Local).signals.headD false = true) :=
      fun h => Bool.false_ne_true h.2
    rw [if_neg hgives, if_neg hcalm]
    exact .inr ⟨_, rfl⟩

theorem patient_procWrite (ubuf count : ℕ) : Patient (mtcadummyProcWrite ubuf count) ℓ s := by
  have hcopy : ∀ σ, exec (copyFromUser ubuf (min count (sizeofCmd - 1)))
      { ℓ with signals := σ } s =
      ⟨(min count (sizeofCmd - 1) - ℓ.user.readLen ubuf (min count (sizeofCmd - 1)),
        ℓ.user.fetch ubuf (min count (sizeofCmd - 1))), { ℓ with signals := σ }, s⟩ :=
    fun σ => exec_copyFromUser _ _ _ s
  refine .after hcopy (.ite ?_ ?_)
  · exact patient_pure _
  · exact .lock (.inr rfl) ((deaf_setOrRead _ _).bind fun _ => (deaf_setOrRead _ _).bind fun _ =>
      (deaf_setOrRead _ _).bind fun _ => (deaf_setOrRead _ _).bind fun _ =>
      deaf_exit _ _).patient

/-! ## The entry points -/

/-- The call writes words. -/
def Entry.IsWrite : Entry N → Prop
  | write _ _ _ | writeNoStruct _ _ _ => True
  | _ => False

/-- **A call that gives up has done nothing.**  No entry point can be
    interrupted in the middle, but for the writes, if a signal reaches their
    firmware. -/
theorem Entry.patient (B : Board N) (e : Entry N) (ℓ : Local) (s : Store)
    (hw : e.IsWrite → ℓ.signals.tail.tail = []) : Patient (e.body B) ℓ s := by
  cases e with
  | opn d =>
    refine .lock givesUp_restart (.after (fun _ => rfl) (.after (fun _ => rfl) (.ite ?_ ?_)))
    · exact patient_pure _
    · exact Deaf.patient fun _ _ _ => rfl
  | release d => exact Deaf.patient fun _ _ _ => rfl
  | read d buf count => exact patient_gates .readError (deaf_readLocked _ _).patient
  | write d buf count => exact patient_gates .writeError (patient_of_no_signals (hw trivial))
  | readNoStruct d buf count =>
    exact patient_transfer .readError fun t => (deaf_readNoStructLoop _ _ _ _).patient
  | writeNoStruct d buf count =>
    exact patient_transfer .writeError fun t => patient_of_no_signals (hw trivial)
  | ioctl d cmd arg => exact patient_ioctl _ _ _
  | llrfIoctl d cmd arg =>
    rw [Entry.body, llrfDummyIoctl_eq]
    exact patient_ioctl _ _ _
  | pcieuniIoctl d cmd arg => exact patient_ioctl _ _ _
  | seqShow d => exact patient_seqShow
  | procWrite ubuf count => exact patient_procWrite _ _

end

/-! ## System calls -/

/-- Signals reach only the lock attempts that a write makes itself. -/
def Request.Bearable (r : Request (Handle N)) : Prop :=
  match r.call with
  | .write _ _ _ _ => r.signals.tail.tail = []
  | _ => True

/-- The request without signals. -/
def Request.calm (r : Request (Handle N)) : Request (Handle N) := { r with signals := [] }

section
variable {B : Board N} {w : World N} {r : Request (Handle N)} {h : Handle N}

theorem GivesUp.lt {e : ℤ} (he : GivesUp e) : e < 0 := by
  rcases he with rfl | rfl <;> decide

/-- Only a write reaches an entry point that writes words. -/
theorem Request.method_isWrite {m : Fin N → Entry N} (hm : r.method B = some m) {p : Fin N}
    (hw : (m p).IsWrite) : ∃ h buf count pos, r.call = .write h buf count pos := by
  have hops : ∀ d : Fin N, (∀ m, (B.ops d).opn = some m → ∀ p, ¬ (m p).IsWrite) ∧
      (∀ m, (B.ops d).release = some m → ∀ p, ¬ (m p).IsWrite) ∧
      (∀ m, (B.ops d).read = some m → ∀ p buf count, ¬ (m p buf count).IsWrite) ∧
      ∀ m, (B.ops d).unlockedIoctl = some m → ∀ p cmd arg, ¬ (m p cmd arg).IsWrite := by
    intro d
    unfold Board.ops
    split
    · rename_i name _
      cases name <;> refine ⟨?_, ?_, ?_, ?_⟩ <;> rintro m ⟨⟩ <;> intros <;> exact not_false
    · refine ⟨?_, ?_, ?_, ?_⟩ <;> rintro m ⟨⟩
  unfold Request.method at hm
  cases hcall : r.call with
  | write h buf count pos => exact ⟨h, buf, count, pos, rfl⟩
  | opn h =>
    rw [hcall] at hm
    exact absurd hw ((hops h.slot).1 m hm p)
  | release h =>
    rw [hcall] at hm
    exact absurd hw ((hops h.slot).2.1 m hm p)
  | read h buf count pos =>
    rw [hcall] at hm
    obtain ⟨m', hm', rfl⟩ := Option.map_eq_some_iff.1 hm
    exact absurd hw ((hops h.slot).2.2.1 m' hm' p buf count)
  | ioctl h cmd arg =>
    rw [hcall] at hm
    obtain ⟨m', hm', rfl⟩ := Option.map_eq_some_iff.1 hm
    exact absurd hw ((hops h.slot).2.2.2 m' hm' p cmd arg)
  | procWrite ubuf count =>
    rw [hcall] at hm
    cases hm

theorem method_patient (hr : r.Bearable) {m : Fin N → Entry N} (hm : r.method B = some m)
    (p : Fin N) (pos : ℕ) (pd : Option ℕ) :
    Patient ((m p).body B) (World.enter r pos pd) w.store := by
  refine Entry.patient B (m p) _ _ fun hw => ?_
  obtain ⟨h, buf, count, pos, hcall⟩ := Request.method_isWrite hm hw
  rw [Request.Bearable, hcall] at hr
  exact hr

theorem run₁_patient (hr : r.Bearable) (f : File) (p : ℕ) :
    (∃ e σ, GivesUp e ∧ w.run₁ B r f p =
      some ⟨e, { World.enter r p f.privateData with signals := σ }, w.store⟩) ∨
    ∃ σ, w.run₁ B r f p = (w.run₁ B r.calm f p).map fun o => o.signalled σ := by
  have hmethod : r.calm.method B = r.method B := rfl
  unfold World.run₁
  rw [hmethod]
  cases hm : r.method B with
  | none => exact .inr ⟨[], rfl⟩
  | some m =>
    rw [Option.bind_some, Option.bind_some]
    cases toDevice (N := N) f.privateData with
    | none => exact .inr ⟨[], rfl⟩
    | some d =>
      rw [Option.map_some, Option.map_some]
      rcases method_patient (w := w) hr hm d p f.privateData with ⟨e, σ, he, hrun⟩ | ⟨σ, hrun⟩
      · exact .inl ⟨e, σ, he, congrArg some hrun⟩
      · exact .inr ⟨σ, congrArg some hrun⟩

theorem open_patient (hr : r.Bearable) : (∃ e, GivesUp e ∧ w.chrdevOpen B r h = (⟨e, r.user⟩, w)) ∨
    w.chrdevOpen B r h = w.chrdevOpen B r.calm h := by
  have hmethod : r.calm.method B = r.method B := rfl
  unfold World.chrdevOpen
  rw [hmethod]
  cases w.files h with
  | some f => exact .inr rfl
  | none =>
    cases hm : r.method B with
    | none => exact .inr rfl
    | some m =>
      dsimp only
      rcases method_patient (w := w) hr hm h.slot 0 none with ⟨e, σ, he, hrun⟩ | ⟨σ, hrun⟩
      · rw [hrun]
        dsimp only
        rw [if_pos he.lt]
        exact .inl ⟨e, he, rfl⟩
      · rw [hrun]
        exact .inr rfl

/-- A release takes no lock. -/
theorem release_calm (hcall : r.call = .release h) : w.fput B r h = w.fput B r.calm h := by
  have hmethod : r.method B = if (B.interface h.slot).HasMethods then some .release else none := by
    rw [Request.method, hcall]
    exact B.release_eq h.slot
  have hcalm : r.calm.method B = r.method B := rfl
  unfold World.fput World.run₁
  rw [hcalm, hmethod]
  cases w.files h with
  | none => rfl
  | some f =>
    dsimp only
    by_cases hI : (B.interface h.slot).HasMethods
    · rw [if_pos hI]
      cases toDevice (N := N) f.privateData with
      | none => rfl
      | some d => rfl
    · rw [if_neg hI]
      rfl

theorem transfer_patient (hr : r.Bearable) (pos : Option ℕ) :
    (∃ e, GivesUp e ∧ w.vfsTransfer B r h pos = (⟨e, r.user⟩, w)) ∨
      w.vfsTransfer B r h pos = w.vfsTransfer B r.calm h pos := by
  unfold World.vfsTransfer
  cases w.files h with
  | none => exact .inr rfl
  | some f =>
    dsimp only
    rcases run₁_patient (B := B) (w := w) hr f (pos.getD f.fPos) with ⟨e, σ, he, hrun⟩ | ⟨σ, hrun⟩
    · rw [hrun]
      dsimp only
      rw [if_neg fun hh => Int.not_lt.2 hh.2 he.lt]
      exact .inl ⟨e, he, rfl⟩
    · rw [hrun]
      refine .inr ?_
      cases w.run₁ B r.calm f (pos.getD f.fPos) with
      | none => rfl
      | some o => rfl

theorem ioctl_patient (hr : r.Bearable) :
    (∃ e, GivesUp e ∧ w.vfsIoctl B r h = (⟨e, r.user⟩, w)) ∨
      w.vfsIoctl B r h = w.vfsIoctl B r.calm h := by
  unfold World.vfsIoctl
  cases w.files h with
  | none => exact .inr rfl
  | some f =>
    dsimp only
    rcases run₁_patient (B := B) (w := w) hr f f.fPos with ⟨e, σ, he, hrun⟩ | ⟨σ, hrun⟩
    · rw [hrun]
      exact .inl ⟨e, he, rfl⟩
    · rw [hrun]
      refine .inr ?_
      cases w.run₁ B r.calm f f.fPos with
      | none => rfl
      | some o => rfl

/-- **A system call gives up and changes nothing**, or the signals make no
    difference. -/
theorem step_patient (hr : r.Bearable) :
    (∃ e, GivesUp e ∧ w.step B r = (⟨e, r.user⟩, w)) ∨ w.step B r = w.step B r.calm := by
  have hcalm : r.calm.call = r.call := rfl
  unfold World.step
  rw [hcalm]
  cases hcall : r.call with
  | opn h => exact open_patient hr
  | release h => exact .inr (release_calm hcall)
  | read h buf count pos => exact transfer_patient hr pos
  | write h buf count pos => exact transfer_patient hr pos
  | ioctl h cmd arg => exact ioctl_patient hr
  | procWrite ubuf count =>
    unfold World.procWrite
    dsimp only
    rcases Entry.patient B (.procWrite ubuf count) (World.enter r 0 none) w.store
      (fun hw => hw.elim) with ⟨e, σ, he, hrun⟩ | ⟨σ, hrun⟩
    · rw [hrun]
      exact .inl ⟨e, he, rfl⟩
    · rw [hrun]
      exact .inr rfl

end

end MtcaDummy

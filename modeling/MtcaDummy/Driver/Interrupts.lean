/-
  Writes whose lock attempts may be interrupted.

  A write tries to take three mutexes: the control mutex, the mutex of the
  device, and, after a word of bar 0 has been stored, the control mutex again.
  `interrupted_write`: a call that is interrupted can be restarted, and `- EIO`
  means a broken register, unless it is the third attempt that is interrupted.
-/
import MtcaDummy.Driver.BulkReads
import MtcaDummy.Driver.Effects
import MtcaDummy.Driver.Transfers

namespace MtcaDummy

open Conc

variable {α β : Type}

/-! ## Interrupted attempts -/

/-- A signal interrupts one of the attempts of the call to lock a mutex. -/
def Interrupted (x : KM α) (ℓ : Local) (s : Store) : Prop := ∃ m, .lock m true ∈ trace x ℓ s

section
variable {ℓ : Local} {s : Store}

@[simp] theorem interrupted_bind (x : KM α) (f : α → KM β) : Interrupted (x >>= f) ℓ s ↔
    Interrupted x ℓ s ∨ Interrupted (f (exec x ℓ s).val) (exec x ℓ s).loc (exec x ℓ s).store := by
  simp only [Interrupted, trace_bind, List.mem_append, exists_or]

@[simp] theorem interrupted_ite (c : Prop) [Decidable c] (x y : KM α) :
    Interrupted (if c then x else y) ℓ s ↔ if c then Interrupted x ℓ s else Interrupted y ℓ s := by
  split <;> rfl

@[simp] theorem interrupted_lock (m : Mutex) :
    Interrupted (mutexLockInterruptible m) ℓ s ↔ ℓ.signals.headD false = true := by
  simp only [Interrupted, trace_lock, List.mem_singleton, Instr.lock.injEq]
  exact ⟨fun ⟨_, _, h⟩ => h.symm, fun h => ⟨m, rfl, h.symm⟩⟩

/-- The instruction is no interrupted attempt. -/
def NoInterrupt (i : KInstr) : Prop := ∀ m, i ≠ .lock m true

/-- A part that locks no mutex. -/
theorem not_interrupted {x : KM α} (hx : Every NoInterrupt x) : ¬ Interrupted x ℓ s :=
  fun ⟨m, hm⟩ => (hx ℓ).mem_trace hm m rfl

theorem interrupted_bind_left {x : KM α} (hx : Every NoInterrupt x) (f : α → KM β) :
    Interrupted (x >>= f) ℓ s ↔
      Interrupted (f (exec x ℓ s).val) (exec x ℓ s).loc (exec x ℓ s).store := by
  rw [interrupted_bind, or_iff_right (not_interrupted hx)]

theorem interrupted_bind_right (x : KM α) {f : α → KM β} (hf : ∀ a, Every NoInterrupt (f a)) :
    Interrupted (x >>= f) ℓ s ↔ Interrupted x ℓ s := by
  rw [interrupted_bind, or_iff_left (not_interrupted (hf _))]

@[simp] theorem interrupted_pure (a : α) : ¬ Interrupted (pure a : KM α) ℓ s :=
  not_interrupted (every_pure a)

theorem noInterrupt_unlock (m : Mutex) : Every NoInterrupt (mutexUnlock m) :=
  fun _ => ⟨fun _ h => (nomatch h), fun _ => trivial⟩

theorem noInterrupt_controlData (f : Flag) : Every NoInterrupt (controlData f) :=
  fun _ => ⟨fun _ h => (nomatch h), fun _ => trivial⟩

theorem noInterrupt_loadWord (b : Ptr) (i : ℕ) : Every NoInterrupt (loadWord b i) :=
  fun _ => ⟨fun _ h => (nomatch h), fun _ => trivial⟩

theorem noInterrupt_storeWord (b : Ptr) (i : ℕ) (v : U32) : Every NoInterrupt (storeWord b i v) :=
  fun _ => ⟨fun _ h => (nomatch h), fun _ => trivial⟩

theorem noInterrupt_copyFromUser (src n : ℕ) : Every NoInterrupt (copyFromUser src n) :=
  fun _ => trivial

theorem noInterrupt_sampleLoop (dmaBar : Ptr) (k sample : ℕ) :
    Every NoInterrupt (sampleLoop dmaBar k sample) := by
  induction k generalizing sample with
  | zero => exact every_pure _
  | succ k ih => exact (noInterrupt_storeWord _ _ _).bind fun _ => ih _

theorem noInterrupt_exit (d : ℕ) (v : ℤ) : Every NoInterrupt (do
    mutexUnlock (.devMutex d)
    return v) :=
  (noInterrupt_unlock _).bind fun _ => every_pure _

theorem noInterrupt_actionOnWriteSwitch {N : ℕ} (B : Board N) (spiFail : Bool)
    (offset slotNumber : U32) :
    Every NoInterrupt (actionOnWriteSwitch B spiFail offset slotNumber) := by
  unfold actionOnWriteSwitch getReg setReg
  dsimp only
  repeat' first
    | exact every_pure _
    | exact noInterrupt_loadWord _ _
    | exact noInterrupt_storeWord _ _ _
    | exact noInterrupt_sampleLoop _ _ _
    | refine Every.ite ?_ ?_
    | refine Every.bind ?_ fun _ => ?_

/-- The attempt that a part begins with. -/
theorem interrupted_gate (m : Mutex) (y x : KM α) : Interrupted (do
    if ← mutexLockInterruptible m then
      y
    else
      x) ℓ s ↔
      ℓ.signals.headD false = true ∨ Interrupted x { ℓ with signals := ℓ.signals.tail } s := by
  rw [interrupted_bind, interrupted_lock]
  refine or_congr_right' fun h => ?_
  rw [exec_lock, eq_false_of_ne_true h]
  exact Iff.rfl

/-- The action on a write of bar 0 makes one attempt. -/
theorem interrupted_performActionOnWrite {N : ℕ} (B : Board N) (bar : Bar)
    (offset slotNumber : U32) :
    Interrupted (mtcadummyPerformActionOnWrite B offset bar.number slotNumber) ℓ s ↔
      bar = .system ∧ ℓ.signals.headD false = true := by
  unfold mtcadummyPerformActionOnWrite
  cases bar with
  | dma => exact iff_of_false (interrupted_pure _) (by simp)
  | system =>
    have hrest : ∀ ℓ, ¬ Interrupted (do
        let spiFail ← controlData .spiError
        mutexUnlock .controlMutex
        actionOnWriteSwitch B spiFail offset slotNumber) ℓ s := fun _ =>
      not_interrupted ((noInterrupt_controlData _).bind fun _ => (noInterrupt_unlock _).bind
        fun _ => noInterrupt_actionOnWriteSwitch _ _ _ _)
    rw [if_neg (by decide), interrupted_gate, or_iff_left (hrest _), eq_self, true_and]

/-! ## Gates -/

/-- The call gives up at one of its gates. -/
structure Quits (x : KM ℤ) (ℓ : Local) (s : Store) : Prop where
  val : (exec x ℓ s).val = -ERESTARTSYS ∨ (exec x ℓ s).val = -EFAULT ∧ ¬ Interrupted x ℓ s
  /-- Only signals are used up. -/
  loc : { (exec x ℓ s).loc with signals := [] } = { ℓ with signals := [] }
  store : (exec x ℓ s).store = s

/-- The call comes to another one, after some signals. -/
structure Continues (x : KM ℤ) (ℓ : Local) (y : KM ℤ) (ℓ' : Local) (s : Store) : Prop where
  exec : exec x ℓ s = exec y ℓ' s
  interrupted : Interrupted x ℓ s ↔ Interrupted y ℓ' s

theorem Continues.of_eq {x y : KM ℤ} (h : x ℓ = y ℓ) : Continues x ℓ y ℓ s :=
  ⟨by simp only [MtcaDummy.exec, h], by simp only [Interrupted, trace, h]⟩

theorem Continues.trans {x y z : KM ℤ} {ℓ₁ ℓ₂ : Local} (h : Continues x ℓ y ℓ₁ s)
    (h' : Continues y ℓ₁ z ℓ₂ s) : Continues x ℓ z ℓ₂ s :=
  ⟨h.exec.trans h'.exec, h.interrupted.trans h'.interrupted⟩

section
variable {m : Mutex} {f : Flag} {y : KM ℤ}

theorem quits_error {e : ℤ} (h : e = -EFAULT) : Quits (return e) ℓ s :=
  ⟨.inr ⟨h, interrupted_pure _⟩, rfl, rfl⟩

/-- A lock attempt that is not interrupted. -/
theorem continues_lock (h : ℓ.signals.headD false = false) : Continues (do
    if ← mutexLockInterruptible m then
      return -ERESTARTSYS
    else
      y) ℓ y { ℓ with signals := ℓ.signals.tail } s := by
  refine ⟨?_, ?_⟩
  · rw [exec_bind, exec_lock, next_mk, h]
    rfl
  · rw [interrupted_gate, h]
    simp

theorem quits_lock (h : ℓ.signals.headD false = true ∨
    Quits y { ℓ with signals := ℓ.signals.tail } s) : Quits (do
      if ← mutexLockInterruptible m then
        return -ERESTARTSYS
      else
        y) ℓ s := by
  cases hsignal : ℓ.signals.headD false with
  | true =>
    have hrun : exec (do
        if ← mutexLockInterruptible m then
          return -ERESTARTSYS
        else
          y) ℓ s = ⟨-ERESTARTSYS, { ℓ with signals := ℓ.signals.tail }, s⟩ := by
      rw [exec_bind, exec_lock, next_mk, hsignal]
      rfl
    exact ⟨.inl (by rw [hrun]), by rw [hrun], by rw [hrun]⟩
  | false =>
    obtain ⟨hval, hloc, hstore⟩ := h.resolve_left (by rw [hsignal]; exact Bool.false_ne_true)
    obtain ⟨hexec, hinterrupted⟩ := continues_lock (m := m) (y := y) (s := s) hsignal
    exact ⟨by rwa [hexec, hinterrupted], by rwa [hexec], by rwa [hexec]⟩

/-- The flag is read before the control mutex is released. -/
theorem continues_flag (h : s (.flag f) = false) : Continues (do
    let fail ← controlData f
    mutexUnlock .controlMutex
    if fail then
      return -EFAULT
    else
      y) ℓ y ℓ s := by
  refine ⟨?_, ?_⟩
  · rw [exec_bind, exec_controlData, next_mk, exec_bind, exec_unlock, next_mk, h]
    rfl
  · simp only [interrupted_bind, not_interrupted (noInterrupt_controlData _),
      not_interrupted (noInterrupt_unlock _), false_or, exec_controlData, exec_unlock, h]
    exact Iff.rfl

theorem quits_flag (h : s (.flag f) = true ∨ Quits y ℓ s) : Quits (do
    let fail ← controlData f
    mutexUnlock .controlMutex
    if fail then
      return -EFAULT
    else
      y) ℓ s := by
  cases hflag : s (.flag f) with
  | true =>
    have hrun : exec (do
        let fail ← controlData f
        mutexUnlock .controlMutex
        if fail then
          return -EFAULT
        else
          y) ℓ s = ⟨-EFAULT, ℓ, s⟩ := by
      rw [exec_bind, exec_controlData, next_mk, exec_bind, exec_unlock, next_mk, hflag]
      rfl
    refine ⟨.inr ⟨by rw [hrun], ?_⟩, by rw [hrun], by rw [hrun]⟩
    simp only [interrupted_bind, not_interrupted (noInterrupt_controlData _),
      not_interrupted (noInterrupt_unlock _), false_or, exec_controlData, exec_unlock, hflag]
    exact interrupted_pure _
  | false =>
    obtain ⟨hval, hloc, hstore⟩ := h.resolve_left (by rw [hflag]; exact Bool.false_ne_true)
    obtain ⟨hexec, hinterrupted⟩ := continues_flag (y := y) (ℓ := ℓ) hflag
    exact ⟨by rwa [hexec, hinterrupted], by rwa [hexec], by rwa [hexec]⟩

end

end

/-- What a call checks before it takes the mutex of the device, and that it
    gets both mutexes. -/
structure Passes (f : Flag) (ℓ : Local) (s : Store) : Prop where
  control : ℓ.signals.getD 0 false = false
  clear : s (.flag f) = false
  device : ℓ.signals.getD 1 false = false

/-- The signals left behind the gates. -/
def Local.inside (ℓ : Local) : Local := { ℓ with signals := ℓ.signals.tail.tail }

section
variable {N : ℕ} {B : Board N} {d : ℕ} {ℓ : Local} {s : Store} {f : Flag} {buf count : ℕ}

theorem continues_gates {y : KM ℤ} (h : Passes f ℓ s) : Continues (do
    if ← mutexLockInterruptible .controlMutex then
      return -ERESTARTSYS
    else
      let fail ← controlData f
      mutexUnlock .controlMutex
      if fail then
        return -EFAULT
      else if ← mutexLockInterruptible (.devMutex d) then
        return -ERESTARTSYS
      else
        y) ℓ y ℓ.inside s := by
  obtain ⟨h₀, hclear, h₁⟩ := h
  rw [← headD_eq_getD] at h₀
  rw [← getD_tail, ← headD_eq_getD] at h₁
  exact (continues_lock h₀).trans ((continues_flag hclear).trans (continues_lock h₁))

theorem quits_gates {y : KM ℤ} (h : ¬ Passes f ℓ s) : Quits (do
    if ← mutexLockInterruptible .controlMutex then
      return -ERESTARTSYS
    else
      let fail ← controlData f
      mutexUnlock .controlMutex
      if fail then
        return -EFAULT
      else if ← mutexLockInterruptible (.devMutex d) then
        return -ERESTARTSYS
      else
        y) ℓ s := by
  refine quits_lock (or_iff_not_imp_left.2 fun h₀ => quits_flag (or_iff_not_imp_left.2 fun hclear =>
    quits_lock (or_iff_not_imp_left.2 fun h₁ => absurd ⟨?_, ?_, ?_⟩ h)))
  · rw [← headD_eq_getD]
    exact eq_false_of_ne_true h₀
  · exact eq_false_of_ne_true hclear
  · rw [← getD_tail, ← headD_eq_getD]
    exact eq_false_of_ne_true h₁

/-- The same with the check of a transfer before the mutex of the device. -/
theorem continues_transfer (hd : d < N) (hcount : count < 2 ^ 32) {x : TransferInformation → KM ℤ}
    (h : Passes f ℓ s) {t : Span} (ht : span count ℓ.fPos = .ok t) : Continues (do
      if ← mutexLockInterruptible .controlMutex then
        return -ERESTARTSYS
      else
        let fail ← controlData f
        mutexUnlock .controlMutex
        if fail then
          return -EFAULT
        else
          match checkAndCalculateTransferInformation (B.dummyPrivateData d) count (← getPos) with
          | .error transferInfoError => return transferInfoError
          | .ok t =>
            if ← mutexLockInterruptible (.devMutex d) then
              return -ERESTARTSYS
            x t) ℓ (x (t.information (B.dummyPrivateData d))) ℓ.inside s := by
  obtain ⟨h₀, hclear, h₁⟩ := h
  rw [← headD_eq_getD] at h₀
  rw [← getD_tail, ← headD_eq_getD] at h₁
  refine (continues_lock h₀).trans ((continues_flag hclear).trans ?_)
  refine Continues.trans (.of_eq ?_) (continues_lock (m := .devMutex d) h₁)
  have hcheck := check_eq_span (B := B) hd hcount ℓ.fPos
  rw [ht] at hcheck
  exact congrArg (fun r : Except ℤ TransferInformation => (match r with
    | .error e => return e
    | .ok t => do
      if ← mutexLockInterruptible (.devMutex d) then
        return -ERESTARTSYS
      x t : KM ℤ) { ℓ with signals := ℓ.signals.tail }) hcheck

theorem quits_transfer (hd : d < N) (hcount : count < 2 ^ 32) {x : TransferInformation → KM ℤ}
    (h : ¬ (Passes f ℓ s ∧ ∃ t, span count ℓ.fPos = .ok t)) : Quits (do
      if ← mutexLockInterruptible .controlMutex then
        return -ERESTARTSYS
      else
        let fail ← controlData f
        mutexUnlock .controlMutex
        if fail then
          return -EFAULT
        else
          match checkAndCalculateTransferInformation (B.dummyPrivateData d) count (← getPos) with
          | .error transferInfoError => return transferInfoError
          | .ok t =>
            if ← mutexLockInterruptible (.devMutex d) then
              return -ERESTARTSYS
            x t) ℓ s := by
  refine quits_lock (or_iff_not_imp_left.2 fun h₀ => quits_flag (or_iff_not_imp_left.2 fun hclear =>
    ?_))
  have hpos : ∀ k : ℕ → KM ℤ, Quits (k ℓ.fPos) { ℓ with signals := ℓ.signals.tail } s →
      Quits (getPos >>= k) { ℓ with signals := ℓ.signals.tail } s := fun k hk =>
    ⟨hk.val, hk.loc, hk.store⟩
  refine hpos _ ?_
  rw [check_eq_span hd hcount]
  cases ht : span count ℓ.fPos with
  | error e => exact quits_error (span_error ht)
  | ok t =>
    refine quits_lock (or_iff_not_imp_left.2 fun h₁ => absurd ⟨⟨?_, ?_, ?_⟩, t, ht⟩ h)
    · rw [← headD_eq_getD]
      exact eq_false_of_ne_true h₀
    · exact eq_false_of_ne_true hclear
    · rw [← getD_tail, ← headD_eq_getD]
      exact eq_false_of_ne_true h₁

end

/-! ## The words of a write -/

/-- The signal `j` interrupts the action on a word of the bar. -/
def Local.cuts (ℓ : Local) (bar : Bar) (j : ℕ) : Bool := bar = .system && ℓ.signals.getD j false

/-- The state after the action on a word of the bar: only that of bar 0 makes a
    lock attempt. -/
def Local.act (ℓ : Local) : Bar → Local
  | .system => { ℓ with signals := ℓ.signals.tail }
  | .dma => ℓ

section
variable (ℓ : Local) (bar : Bar)

@[simp] theorem act_user : (ℓ.act bar).user = ℓ.user := by
  cases bar <;> rfl

@[simp] theorem act_fPos : (ℓ.act bar).fPos = ℓ.fPos := by
  cases bar <;> rfl

theorem act_cuts (j : ℕ) : (ℓ.act bar).cuts bar j = ℓ.cuts bar (j + 1) := by
  cases bar with
  | system => simp only [Local.cuts, Local.act, getD_tail]
  | dma => rfl

end

section
variable {N : ℕ} {B : Board N} {d : ℕ} (hd : d < N) {ℓ : Local} {s : Store} {b : Bars}
include hd

/-- The action after a word was written. -/
theorem exec_action {bar : Bar} {i : ℕ} {offset : U32} (hi : offset = BitVec.ofNat 32 (4 * i))
    (v : U32) :
    exec (mtcadummyPerformActionOnWrite B offset bar.number (B.dummyPrivateData d).slotNr) ℓ
        (B.put d (b.setWord bar i v) s) =
      ⟨if ℓ.cuts bar 0 then -ERESTARTSYS else if bar.rejects i then -1 else 0,
        ℓ.act bar,
        B.put d (if ℓ.cuts bar 0 then b.setWord bar i v
          else b.write (s (.flag .spiError)) bar i v) s⟩ := by
  subst hi
  rw [exec_performActionOnWrite hd]
  cases bar with
  | dma => rfl
  | system =>
    simp only [Local.cuts, decide_true, Bool.true_and, ← headD_eq_getD]
    cases ℓ.signals.headD false <;> rfl

/-- **The loop of the write**, whose actions may be interrupted. -/
theorem exec_writeLoop {t : Span} (buf : ℕ) {k i : ℕ} (copy : ℕ → U32 × Bool)
    (hk : t.first + i + k ≤ dmaSize / 4)
    (hcopy : ∀ j, copy (i + j) = ((ℓ.user.copyWord buf (i + j)).1,
      (ℓ.user.copyWord buf (i + j)).2 && !ℓ.cuts t.bar j)) :
    let r := Bars.block (fun _ => s (.flag .spiError)) t.bar t.first copy k i b
    let out := exec (writeNoStructLoop B d (t.information (B.dummyPrivateData d)) buf k i) ℓ
      (B.put d b s)
    out.val = (if r.err = none then (4 * t.words : ℤ)
      else if (ℓ.user.copyWord buf (i + r.words)).2 then - EIO else -EFAULT) ∧
    out.loc.fPos = ℓ.fPos + 4 * r.words ∧ out.store = B.put d r.bars s := by
  induction k generalizing i b ℓ with
  | zero => exact ⟨rfl, rfl, rfl⟩
  | succ k ih =>
    have hdma : dmaSize = 4096 := rfl
    have hloop : i * 4 % 2 ^ 32 = 4 * i := by omega
    have hfirst : 4 * t.first / 4 = t.first := by omega
    have hword : BitVec.ofNat 32 (4 * t.first + 4 * i) = BitVec.ofNat 32 (4 * (t.first + i)) := by
      rw [Nat.mul_add]
    have hcopy₀ := hcopy 0
    have hexit : ∀ (v : ℤ) (ℓ : Local) (s : Store), exec (do
        mutexUnlock (.devMutex d)
        return v) ℓ s = ⟨v, ℓ, s⟩ := fun _ _ _ => rfl
    rw [Nat.add_zero] at hcopy₀
    rw [writeNoStructLoop, Bars.block, hcopy₀]
    dsimp only [Span.information]
    rw [hloop, hfirst, exec_bind, exec_copyFromUser, next_mk]
    dsimp only
    rw [exec_bind, exec_storeBar hd, next_mk, exec_ite]
    have hval : wordAt (ℓ.user.fetch (buf + 4 * i) 4) 0 = (ℓ.user.copyWord buf i).1 := rfl
    rw [hval]
    by_cases hread : ℓ.user.readLen (buf + 4 * i) 4 = 4
    swap
    · have hpart : (ℓ.user.copyWord buf i).2 = false := decide_eq_false hread
      rw [if_pos (UserMem.readLeft_ne_zero hread), hexit, hpart]
      simp [hpart]
    have hwhole : (ℓ.user.copyWord buf i).2 = true := decide_eq_true hread
    rw [hread, if_neg (fun h => h rfl), hwhole, exec_bind, exec_action hd hword, next_mk]
    cases hcut : ℓ.cuts t.bar 0 with
    | true =>
      rw [exec_ite, if_pos (by simp [ERESTARTSYS]), hexit]
      simp [hwhole]
    | false =>
      simp only [Bool.false_eq_true, if_false]
      cases hrej : t.bar.rejects (t.first + i) with
      | true =>
        rw [exec_ite, if_pos (by decide), hexit]
        simp [hwhole]
      | false =>
        have hcuts : ∀ j,
            ({ ℓ.act t.bar with fPos := (ℓ.act t.bar).fPos + 4 } : Local).cuts t.bar j =
              ℓ.cuts t.bar (j + 1) := act_cuts ℓ t.bar
        rw [exec_ite, if_neg (by decide), exec_bind, exec_getPos, next_mk, exec_bind, exec_setPos,
          next_mk]
        generalize hℓ' : ({ ℓ.act t.bar with fPos := (ℓ.act t.bar).fPos + 4 } : Local) = ℓ'
          at hcuts ⊢
        have huser : ℓ'.user = ℓ.user := by rw [← hℓ', act_user]
        have hpos : ℓ'.fPos = ℓ.fPos + 4 := by rw [← hℓ', act_fPos]
        have hrest := ih (ℓ := ℓ') (i := i + 1) (by omega) (fun j => by
          rw [hcuts, huser, show i + 1 + j = i + (j + 1) by omega]
          exact hcopy (j + 1))
          (b := b.write (s (.flag .spiError)) t.bar (t.first + i) (ℓ.user.copyWord buf i).1)
        rw [huser, hpos] at hrest
        simp only [Bool.false_eq_true, if_false, Bool.not_false, Bool.and_self, Bool.not_true]
        refine ⟨hrest.1.trans ?_, hrest.2.1.trans ?_, hrest.2.2⟩
        · rw [Nat.add_assoc i, Nat.add_comm 1]
        · rw [Nat.mul_add, Nat.add_assoc, Nat.add_comm 4]

omit hd in
/-- The loop for one word. -/
theorem interrupted_writeLoop {t : Span} {buf : ℕ} :
    Interrupted (writeNoStructLoop B d (t.information (B.dummyPrivateData d)) buf 1 0) ℓ s ↔
      (ℓ.user.copyWord buf 0).2 = true ∧ ℓ.cuts t.bar 0 = true := by
  have hcuts : ℓ.cuts t.bar 0 = true ↔ t.bar = .system ∧ ℓ.signals.headD false = true := by
    rw [Local.cuts, Bool.and_eq_true, decide_eq_true_eq, headD_eq_getD]
  have hloop : 0 * 4 % 2 ^ 32 = 4 * 0 := rfl
  rw [writeNoStructLoop]
  dsimp only
  rw [hloop, interrupted_bind_left (noInterrupt_copyFromUser _ _), exec_copyFromUser,
    interrupted_bind_left (noInterrupt_storeWord _ _ _), exec_storeWord, interrupted_ite, hcuts]
  by_cases hread : ℓ.user.readLen (buf + 4 * 0) 4 = 4
  swap
  · rw [if_pos (UserMem.readLeft_ne_zero hread)]
    exact iff_of_false (not_interrupted (noInterrupt_exit _ _)) fun h =>
      hread (of_decide_eq_true h.1)
  have hwhole : (ℓ.user.copyWord buf 0).2 = true := decide_eq_true hread
  rw [if_neg (not_not.2 (Nat.sub_eq_zero_of_le hread.ge)), hwhole, eq_self, true_and]
  refine (interrupted_bind_right _ fun r => (noInterrupt_exit _ _).ite ?_).trans
    (interrupted_performActionOnWrite B t.bar _ _)
  exact Every.bind (fun _ => trivial) fun _ => Every.bind (fun _ => trivial) fun _ =>
    noInterrupt_exit _ _

/-! ## The word of a request -/

/-- The word stored, and the action. -/
def storeAndAct (B : Board N) (d : ℕ) (bar : Bar) (i : ℕ) (v : U32) : KM ℤ := do
  storeWord (bar.base (B.dummyPrivateData d)) i v
  if (← mtcadummyPerformActionOnWrite B (BitVec.ofNat 32 (4 * i)) bar.number
      (B.dummyPrivateData d).slotNr) ≠ 0 then
    mutexUnlock (.devMutex d)
    return - EIO
  mutexUnlock (.devMutex d)
  return sizeofDeviceRw

omit hd in
/-- A write through the struct interface stores the word it names. -/
theorem writeLocked_eq (buf count : ℕ) : mtcaDummyWriteLocked B d buf count ℓ =
    (match structWord ℓ.user buf count with
      | none => do
        mutexUnlock (.devMutex d)
        return -EFAULT
      | some (bar, i, v) => storeAndAct B d bar i v : KM ℤ) ℓ := by
  unfold mtcaDummyWriteLocked structWord
  by_cases hcount : count < sizeofDeviceRw
  · rw [if_pos hcount, if_neg fun h => Nat.not_le.2 hcount h.1]
  dsimp only
  rw [if_neg hcount]
  have hbind : ∀ k : ℕ × (ℕ → Byte) → KM ℤ, (copyFromUser buf sizeofDeviceRw >>= k) ℓ =
      k (sizeofDeviceRw - ℓ.user.readLen buf sizeofDeviceRw,
        ℓ.user.fetch buf sizeofDeviceRw) ℓ := fun _ => rfl
  rw [hbind]
  dsimp only
  by_cases hcopy : ℓ.user.readLen buf sizeofDeviceRw = sizeofDeviceRw
  swap
  · rw [if_pos (UserMem.readLeft_ne_zero hcopy), if_neg fun h => hcopy h.2.1]
  rw [if_neg (not_not.2 (Nat.sub_eq_zero_of_le hcopy.ge))]
  generalize DeviceRw.ofBytes (ℓ.user.fetch buf sizeofDeviceRw) = r
  by_cases hmode : r.modeRw = rwD32
  swap
  · rw [if_neg hmode, if_neg fun h => hmode h.2.2]
  rw [if_pos hmode, if_pos ⟨Nat.le_of_not_lt hcount, hcopy, hmode⟩, structBar_eq, DeviceRw.word]
  cases hbar : Bar.ofNumber r.barxRw with
  | none => rfl
  | some bar =>
    simp only [Option.map_some]
    by_cases hoff : r.offsetRw.toNat % 4 ≠ 0 ∨ r.offsetRw.toNat ≥ bar.size
    · rw [if_pos hoff, if_pos hoff]
      rfl
    · rw [if_neg hoff, if_neg hoff, Bar.ofNumber_eq_some hbar, Option.map_some]
      dsimp only
      rw [storeAndAct, ofNat_word _ (by omega)]

theorem exec_storeAndAct (bar : Bar) (i : ℕ) (v : U32) :
    exec (storeAndAct B d bar i v) ℓ (B.put d b s) =
      ⟨if ℓ.cuts bar 0 = true ∨ bar.rejects i = true then - EIO else sizeofDeviceRw, ℓ.act bar,
        B.put d (if ℓ.cuts bar 0 then b.setWord bar i v
          else b.write (s (.flag .spiError)) bar i v) s⟩ := by
  unfold storeAndAct
  have hval : (if ℓ.cuts bar 0 then -ERESTARTSYS else if bar.rejects i then -1 else (0 : ℤ)) ≠ 0 ↔
      ℓ.cuts bar 0 = true ∨ bar.rejects i = true := by
    cases ℓ.cuts bar 0 <;> cases bar.rejects i <;> decide
  rw [exec_bind, exec_storeBar hd, next_mk, exec_bind, exec_action hd rfl, next_mk, exec_ite]
  by_cases hfails : ℓ.cuts bar 0 = true ∨ bar.rejects i = true
  · rw [if_pos (hval.2 hfails), if_pos hfails]
    rfl
  · rw [if_neg fun h => hfails (hval.1 h), if_neg hfails]
    rfl

omit hd in
theorem interrupted_storeAndAct (bar : Bar) (i : ℕ) (v : U32) :
    Interrupted (storeAndAct B d bar i v) ℓ s ↔ ℓ.cuts bar 0 = true := by
  rw [Local.cuts, Bool.and_eq_true, decide_eq_true_eq, ← headD_eq_getD]
  unfold storeAndAct
  rw [interrupted_bind_left (noInterrupt_storeWord _ _ _), exec_storeWord]
  refine (interrupted_bind_right _ fun r => ?_).trans (interrupted_performActionOnWrite B bar _ _)
  exact (noInterrupt_exit _ _).ite (noInterrupt_exit _ _)

end

/-! ## Restarts -/

/-- If a lock attempt of the write is interrupted, the call is to be restarted
    and has done nothing; and `- EIO` means that the word it names is a broken
    register. -/
structure Restartable (x : KM ℤ) (named : Option (Bar × ℕ × U32)) (ℓ : Local) (s : Store) :
    Prop where
  restart : Interrupted x ℓ s → (exec x ℓ s).val = -ERESTARTSYS
  unchanged : Interrupted x ℓ s → (exec x ℓ s).store = s ∧ (exec x ℓ s).loc.fPos = ℓ.fPos
  /-- Restarted, it does what it would have done without interruption. -/
  again : Interrupted x ℓ s →
    exec x { (exec x ℓ s).loc with signals := [] } (exec x ℓ s).store =
      exec x { ℓ with signals := [] } s
  eio : (exec x ℓ s).val = - EIO →
    ∃ i v, named = some (.system, i, v) ∧ (4 * i = 0x48 ∨ 4 * i = 0x4C)

/-- The write names a word of bar 0, gets both mutexes, and the attempt to
    take the control mutex for the action is interrupted. -/
structure CutShort (named : Option (Bar × ℕ × U32)) (ℓ : Local) (s : Store) : Prop where
  passes : Passes .writeError ℓ s
  system : ∃ i v, named = some (.system, i, v)
  signal : ℓ.signals.getD 2 false = true

/-- The word that a write of four bytes through the other interface names. -/
def noStructWord (u : UserMem) (buf pos : ℕ) : Option (Bar × ℕ × U32) :=
  match span 4 pos with
  | .error _ => none
  | .ok t =>
    if t.words = 1 ∧ (u.copyWord buf 0).2 then some (t.bar, t.first, (u.copyWord buf 0).1)
    else none

section
variable {x : KM ℤ} {named : Option (Bar × ℕ × U32)} {ℓ : Local} {s : Store}

/-- A call that gives up can be restarted. -/
theorem Quits.restartable (h : Quits x ℓ s) : Restartable x named ℓ s := by
  obtain ⟨hval, hloc, hstore⟩ := h
  have hpos : (exec x ℓ s).loc.fPos = ℓ.fPos := by
    have := congrArg Local.fPos hloc
    exact this
  refine ⟨fun hi => hval.resolve_right fun h => h.2 hi, fun _ => ⟨hstore, hpos⟩,
    fun _ => by rw [hloc, hstore], fun h => ?_⟩
  have hrestart : -ERESTARTSYS ≠ - EIO := by decide
  have hfault : -EFAULT ≠ - EIO := by decide
  rcases hval with hval | ⟨hval, -⟩
  · exact absurd (hval.symm.trans h) hrestart
  · exact absurd (hval.symm.trans h) hfault

/-- A call that is interrupted only in its action. -/
theorem restartable_iff {c : Prop} (hinterrupted : Interrupted x ℓ s ↔ c)
    (hcut : c → (exec x ℓ s).val = - EIO)
    (heio : ¬ c → (exec x ℓ s).val = - EIO →
      ∃ i v, named = some (.system, i, v) ∧ (4 * i = 0x48 ∨ 4 * i = 0x4C)) :
    Restartable x named ℓ s ↔ ¬ c := by
  have hne : - EIO ≠ -ERESTARTSYS := by decide
  constructor
  · intro h hc
    exact hne ((hcut hc).symm.trans (h.restart (hinterrupted.2 hc)))
  · intro hc
    have hno := fun h => hc (hinterrupted.1 h)
    exact ⟨fun h => absurd h hno, fun h => absurd h hno, fun h => absurd h hno, heio hc⟩

/-- The action is interrupted by the third signal. -/
theorem cuts_iff {bar : Bar} {i : ℕ} {v : U32} (hp : Passes .writeError ℓ s) :
    ℓ.inside.cuts bar 0 = true ↔ CutShort (some (bar, i, v)) ℓ s := by
  have hsignal : ℓ.inside.signals.getD 0 false = ℓ.signals.getD 2 false := by
    rw [← headD_eq_getD]
    exact headD_tail_tail ℓ.signals
  rw [Local.cuts, Bool.and_eq_true, decide_eq_true_eq, hsignal]
  constructor
  · rintro ⟨rfl, h⟩
    exact ⟨hp, ⟨i, v, rfl⟩, h⟩
  · rintro ⟨-, ⟨j, w, h⟩, hsignal⟩
    cases h
    exact ⟨rfl, hsignal⟩

/-- A word whose write is rejected. -/
theorem broken_of_rejects {bar : Bar} {i : ℕ} {v : U32} (hi : i < bar.size / 4)
    (h : bar.rejects i = true) :
    ∃ j w, some (bar, i, v) = some (Bar.system, j, w) ∧ (4 * j = 0x48 ∨ 4 * j = 0x4C) := by
  cases bar with
  | dma => exact absurd h Bool.false_ne_true
  | system =>
    have := (brokenOffset_iff (i := i) hi).1 h
    exact ⟨i, v, rfl, by omega⟩

end

section
variable {N : ℕ} {B : Board N} {d : Fin N} {ℓ : Local} {s : Store} {buf count : ℕ}

theorem restartable_write :
    Restartable (mtcaDummyWrite B d buf count) (structWord ℓ.user buf count) ℓ s ↔
      ¬ CutShort (structWord ℓ.user buf count) ℓ s := by
  by_cases hp : Passes .writeError ℓ s
  swap
  · exact iff_of_true (quits_gates hp).restartable fun h => hp h.passes
  have hrun : Continues (mtcaDummyWrite B d buf count) ℓ _ _ s :=
    (continues_gates hp).trans (.of_eq (writeLocked_eq buf count))
  obtain ⟨hexec, hinterrupted⟩ := hrun
  have huser : ℓ.inside.user = ℓ.user := rfl
  rw [huser] at hexec hinterrupted
  cases hw : structWord ℓ.user buf count with
  | none =>
    rw [hw] at hexec hinterrupted
    refine (restartable_iff (c := False) ?_ False.elim fun _ h => ?_).trans ?_
    · exact hinterrupted.trans (iff_of_false (not_interrupted (noInterrupt_exit _ _)) id)
    · rw [hexec] at h
      exact absurd h (by decide : -EFAULT ≠ - EIO)
    · exact not_congr (iff_of_false id fun h => by obtain ⟨i, v, h⟩ := h.system; cases h)
  | some word =>
    obtain ⟨bar, i, v⟩ := word
    rw [hw] at hexec hinterrupted
    dsimp only at hexec hinterrupted
    have hi := structWord_inBar hw
    have hs : s = B.put d (B.bars d s) s := put_bars.symm
    have hval := congrArg Outcome.val hexec
    rw [hs, exec_storeAndAct d.isLt, ← hs] at hval
    dsimp only at hval
    refine (restartable_iff (hinterrupted.trans (interrupted_storeAndAct bar i v)) (fun h => ?_)
      fun hcut h => ?_).trans (not_congr ?_)
    · rw [hval, if_pos (.inl h)]
    · rw [hval] at h
      refine broken_of_rejects hi ?_
      by_contra hno
      rw [if_neg (not_or.2 ⟨hcut, hno⟩)] at h
      exact absurd h (by decide : ((sizeofDeviceRw : ℕ) : ℤ) ≠ - EIO)
    · exact cuts_iff hp

theorem noStructWord_ok {t : Span} {u : UserMem} {buf pos : ℕ} (ht : span 4 pos = .ok t) :
    noStructWord u buf pos = if t.words = 1 ∧ (u.copyWord buf 0).2 then
      some (t.bar, t.first, (u.copyWord buf 0).1) else none := by
  rw [noStructWord, ht]

/-- Four bytes are at most one word. -/
theorem span_four {pos : ℕ} {t : Span} (h : span 4 pos = .ok t) : t.words = 0 ∨ t.words = 1 := by
  unfold span at h
  split_ifs at h
  split at h
  · cases h
  · split_ifs at h
    cases h
    dsimp only
    omega

theorem restartable_writeNoStruct {buf : ℕ} :
    Restartable (mtcaDummyWriteNoStruct B d buf 4) (noStructWord ℓ.user buf ℓ.fPos) ℓ s ↔
      ¬ CutShort (noStructWord ℓ.user buf ℓ.fPos) ℓ s := by
  by_cases hp : Passes .writeError ℓ s ∧ ∃ t, span 4 ℓ.fPos = .ok t
  swap
  · refine iff_of_true (quits_transfer d.isLt (by decide) hp).restartable fun h => ?_
    cases ht : span 4 ℓ.fPos with
    | error e =>
      obtain ⟨i, v, hnamed⟩ := h.system
      rw [noStructWord, ht] at hnamed
      cases hnamed
    | ok t => exact hp ⟨h.passes, t, ht⟩
  obtain ⟨hp, t, ht⟩ := hp
  have hle := span_le ht
  have hsize := t.bar.size_le
  obtain ⟨hexec, hinterrupted⟩ : Continues (mtcaDummyWriteNoStruct B d buf 4) ℓ _ _ s :=
    continues_transfer d.isLt (by decide) hp ht
  have hwords : (t.information (B.dummyPrivateData d)).nBytesToTransfer / 4 = t.words := by
    simp only [Span.information]
    omega
  rw [hwords] at hexec hinterrupted
  rw [noStructWord_ok ht]
  have huser : ℓ.inside.user = ℓ.user := rfl
  rcases span_four ht with hzero | hone
  · -- the end of the bar
    rw [hzero] at hexec hinterrupted
    rw [if_neg fun h => by omega]
    refine (restartable_iff (c := False) ?_ False.elim fun _ h => ?_).trans ?_
    · exact hinterrupted.trans (iff_of_false (not_interrupted (noInterrupt_exit _ _)) id)
    · have hval : (exec (mtcaDummyWriteNoStruct B d buf 4) ℓ s).val = ((4 * t.words : ℕ) : ℤ) :=
        congrArg Outcome.val hexec
      rw [hval, hzero] at h
      exact absurd h (by decide)
    · exact not_congr (iff_of_false id fun h => by obtain ⟨i, v, h⟩ := h.system; cases h)
  rw [hone] at hexec hinterrupted
  have hs : s = B.put d (B.bars d s) s := put_bars.symm
  have hval := (exec_writeLoop (B := B) d.isLt (ℓ := ℓ.inside) (s := s) (b := B.bars d s) (t := t)
    (k := 1) (i := 0) buf (fun j => ((ℓ.user.copyWord buf j).1,
      (ℓ.user.copyWord buf j).2 && !ℓ.inside.cuts t.bar j))
    (by omega) fun j => by rw [Nat.zero_add, huser]).1
  rw [← hs, ← hexec, huser] at hval
  have hcut := hinterrupted.trans interrupted_writeLoop
  rw [huser] at hcut
  cases hcopy : (ℓ.user.copyWord buf 0).2 with
  | false =>
    rw [if_neg fun h => Bool.false_ne_true h.2]
    refine (restartable_iff (c := False) ?_ False.elim fun _ h => ?_).trans ?_
    · rw [hcut, hcopy]
      simp
    · simp only [Bars.block, hcopy, Bool.false_and, Bool.not_false, if_true, reduceCtorEq,
        if_false, Nat.add_zero, Bool.false_eq_true] at hval
      rw [hval] at h
      exact absurd h (by decide : -EFAULT ≠ - EIO)
    · exact not_congr (iff_of_false id fun h => by obtain ⟨i, v, h⟩ := h.system; cases h)
  | true =>
    rw [if_pos ⟨hone, rfl⟩]
    rw [hcopy, eq_self, true_and] at hcut
    refine (restartable_iff hcut (fun h => ?_) fun hno h => ?_).trans (not_congr (cuts_iff hp))
    · simpa only [Bars.block, hcopy, h, Bool.true_and, Bool.not_true, Bool.not_false, if_true,
        reduceCtorEq, if_false, Nat.add_zero] using hval
    · refine broken_of_rejects (by omega) ?_
      by_contra hrej
      simp only [Bars.block, hcopy, eq_false_of_ne_true hno, Bool.not_false, Bool.and_self,
        Bool.not_true, Bool.false_eq_true, if_false, Nat.add_zero, hrej, hone, if_true] at hval
      rw [hval] at h
      exact absurd h (by decide)

/-- **An interrupted write can be restarted, and `- EIO` means a broken
    register**, unless the attempt for the action is interrupted. -/
theorem interrupted_write {buf' : ℕ} :
    (Restartable (mtcaDummyWrite B d buf count) (structWord ℓ.user buf count) ℓ s ↔
      ¬ CutShort (structWord ℓ.user buf count) ℓ s) ∧
    (Restartable (mtcaDummyWriteNoStruct B d buf' 4) (noStructWord ℓ.user buf' ℓ.fPos) ℓ s ↔
      ¬ CutShort (noStructWord ℓ.user buf' ℓ.fPos) ℓ s) :=
  ⟨restartable_write, restartable_writeNoStruct⟩

end

/-- A process that asks for a write of 1 to `WORD_USER`, and is interrupted at
    its third attempt to lock a mutex. -/
def interruptedLocal : Local :=
  { user := UserMem.ofBytes (DeviceRw.bytes ⟨wordUser, 1#32, rwD32, 0#32, 0#32, 0#32⟩)
    signals := [false, false, true] }

/-- The word is stored, and the call returns `- EIO`. -/
theorem interrupted_write_stored :
    ¬ Restartable (mtcaDummyWrite loadedBoard (0 : Fin nrDevs) 0 24)
      (structWord interruptedLocal.user 0 24) interruptedLocal clearFlags := by
  rw [restartable_write, not_not]
  have hword : structWord interruptedLocal.user 0 24 = some (.system, 3, 1#32) :=
    (structWord_of_request (UserMem.ofBytes_request _) (by decide) rfl).trans (by decide)
  rw [hword]
  exact ⟨⟨rfl, rfl, rfl⟩, ⟨3, 1#32, rfl⟩, rfl⟩

end MtcaDummy

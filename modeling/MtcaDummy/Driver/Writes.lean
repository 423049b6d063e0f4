/-
  What a write does to the bars, as functions of the request and of the flags
  it sees.

  `structWord` is the word that a write through the struct interface names.
  `Bars.block` writes consecutive words until one cannot be copied from the
  user or is rejected.  `Bars.structWrite` and `Bars.noStructWrite` are the
  reply and the bars after a whole call.  `execWith_write` and
  `execWith_writeNoStruct` say that the two entry points, when no lock attempt
  is interrupted, compute these functions, also while others change the flags.
-/
import MtcaDummy.Conc.Update
import MtcaDummy.Driver.Bars
import MtcaDummy.Driver.Copies
import MtcaDummy.Driver.Discipline

namespace MtcaDummy

open Conc

variable {α β : Type}

/-! ## Running while the flags change -/

/-- The cell is a flag. -/
def Loc.IsFlag : Loc → Prop
  | .flag _ => True
  | _ => False

instance : DecidablePred Loc.IsFlag := fun l => by
  cases l with
  | flag f => exact inferInstanceAs (Decidable True)
  | _ => exact inferInstanceAs (Decidable False)

/-- Run the program while the flags change: its `n`-th look at a flag sees the
    store `o n`.  The second component counts the looks. -/
def execWith (o : ℕ → Store) (x : KM α) (n : ℕ) (ℓ : Local) (s : Store) : Outcome α × ℕ :=
  (⟨((x ℓ).execWith Loc.IsFlag o n s).1.1, ((x ℓ).execWith Loc.IsFlag o n s).1.2,
    ((x ℓ).execWith Loc.IsFlag o n s).2.2⟩, ((x ℓ).execWith Loc.IsFlag o n s).2.1)

/-- The program does not look at a flag. -/
def Quiet (x : KM α) : Prop := Every (fun i => ¬ i.Looks Loc.IsFlag) x

section
variable {o : ℕ → Store} {n : ℕ} {ℓ : Local} {s : Store}

theorem execWith_bind (x : KM α) (f : α → KM β) : execWith o (x >>= f) n ℓ s =
    execWith o (f (execWith o x n ℓ s).1.val) (execWith o x n ℓ s).2 (execWith o x n ℓ s).1.loc
      (execWith o x n ℓ s).1.store := by
  have h : (x >>= f) ℓ = (x ℓ) >>= fun r => f r.1 r.2 := rfl
  simp only [execWith, h, Prog.execWith_bind]

@[simp] theorem execWith_ite (c : Prop) [Decidable c] (x y : KM α) :
    execWith o (if c then x else y) n ℓ s =
      if c then execWith o x n ℓ s else execWith o y n ℓ s := by
  split <;> rfl

/-- A quiet part does what it does alone. -/
theorem Quiet.execWith {x : KM α} (hx : Quiet x) :
    execWith o x n ℓ s = (exec x ℓ s, n) := by
  simp only [MtcaDummy.execWith, Prog.execWith_eq_exec (hx ℓ), exec]

theorem Quiet.execWith_bind {x : KM α} (hx : Quiet x) (f : α → KM β) :
    MtcaDummy.execWith o (x >>= f) n ℓ s = MtcaDummy.execWith o (f (exec x ℓ s).val) n
      (exec x ℓ s).loc (exec x ℓ s).store := by
  rw [MtcaDummy.execWith_bind, hx.execWith]

/-- Alone, a call that does not set the flags sees those it started with. -/
theorem exec_eq_execWith {x : KM α} (hx : (x ℓ).All fun i => ∀ l, i.Writes l → ¬ l.IsFlag) :
    exec x ℓ s = (execWith (fun _ => s) x 0 ℓ s).1 := by
  simp only [exec, execWith, Prog.exec_eq_execWith hx 0 (fun _ _ => rfl : ∀ l, l.IsFlag → s l = s l)]

theorem quiet_pure (a : α) : Quiet (pure a : KM α) := every_pure a

theorem quiet_unlock (m : Mutex) : Quiet (mutexUnlock m) := fun _ => ⟨id, fun _ => trivial⟩

theorem quiet_lock (m : Mutex) : Quiet (mutexLockInterruptible m) :=
  fun _ => ⟨id, fun _ => trivial⟩

theorem quiet_loadWord (b : Ptr) (i : ℕ) : Quiet (loadWord b i) := fun _ => ⟨id, fun _ => trivial⟩

theorem quiet_storeWord (b : Ptr) (i : ℕ) (v : U32) : Quiet (storeWord b i v) :=
  fun _ => ⟨id, fun _ => trivial⟩

theorem quiet_copyFromUser (src n : ℕ) : Quiet (copyFromUser src n) := fun _ => trivial

theorem quiet_getPos : Quiet getPos := fun _ => trivial

theorem quiet_setPos (p : ℕ) : Quiet (setPos p) := fun _ => trivial

theorem quiet_sampleLoop (dmaBar : Ptr) (k sample : ℕ) : Quiet (sampleLoop dmaBar k sample) := by
  induction k generalizing sample with
  | zero => exact quiet_pure _
  | succ k ih => exact (quiet_storeWord _ _ _).bind fun _ => ih _

/-- The flag is read before the switch. -/
theorem quiet_actionOnWriteSwitch {N : ℕ} (B : Board N) (spiFail : Bool)
    (offset slotNumber : U32) : Quiet (actionOnWriteSwitch B spiFail offset slotNumber) := by
  unfold actionOnWriteSwitch getReg setReg
  dsimp only
  repeat' first
    | exact every_pure _
    | exact quiet_loadWord _ _
    | exact quiet_storeWord _ _ _
    | exact quiet_sampleLoop _ _ _
    | refine Every.ite ?_ ?_
    | refine Every.bind ?_ fun _ => ?_

end

/-! ## The struct interface -/

/-- The byte address of the word at an aligned offset. -/
theorem ofNat_word (offset : U32) (h : offset.toNat % 4 = 0) :
    BitVec.ofNat 32 (4 * (offset.toNat / 4)) = offset := by
  rw [Nat.mul_div_cancel' (Nat.dvd_of_mod_eq_zero h), BitVec.ofNat_toNat, BitVec.setWidth_eq]

/-- The bar with this number. -/
def Bar.ofNumber (n : U32) : Option Bar :=
  if n = 0#32 then some .system else if n = 2#32 then some .dma else none

theorem structBar_eq (data : MtcaDummyData) (barx : U32) :
    structBar data barx = (Bar.ofNumber barx).map fun bar => (bar.base data, bar.size) := by
  unfold structBar Bar.ofNumber
  split_ifs <;> rfl

theorem Bar.ofNumber_eq_some {n : U32} {bar : Bar} (h : Bar.ofNumber n = some bar) :
    n = bar.number := by
  unfold Bar.ofNumber at h
  split_ifs at h with h₁ h₂
  · cases h
    exact h₁
  · cases h
    exact h₂

@[simp] theorem Bar.ofNumber_number (bar : Bar) : Bar.ofNumber bar.number = some bar := by
  cases bar <;> rfl

/-- The request for one word of a bar. -/
def DeviceRw.word (r : DeviceRw) : Option (Bar × ℕ) :=
  match Bar.ofNumber r.barxRw with
  | none => none
  | some bar =>
    if r.offsetRw.toNat % 4 ≠ 0 ∨ r.offsetRw.toNat ≥ bar.size then none
    else some (bar, r.offsetRw.toNat / 4)

/-- The word that a write through the struct interface names. -/
def structWord (u : UserMem) (buf count : ℕ) : Option (Bar × ℕ × U32) :=
  let r := DeviceRw.ofBytes (u.fetch buf sizeofDeviceRw)
  if sizeofDeviceRw ≤ count ∧ u.readLen buf sizeofDeviceRw = sizeofDeviceRw ∧
      r.modeRw = rwD32 then
    r.word.map fun x => (x.1, x.2, r.dataRw)
  else none

/-- The memory holds the request at `buf`. -/
def UserMem.Request (u : UserMem) (buf : ℕ) (r : DeviceRw) : Prop :=
  u.Readable buf sizeofDeviceRw ∧ ∀ j < sizeofDeviceRw, u.byte (buf + j) = r.bytes j

/-- The request is what a copy from the user brings. -/
theorem UserMem.Request.ofBytes {u : UserMem} {buf : ℕ} {r : DeviceRw} (h : u.Request buf r) :
    DeviceRw.ofBytes (u.fetch buf sizeofDeviceRw) = r := by
  rw [DeviceRw.ofBytes_congr fun j hj => (fetch_of_readable h.1 hj).trans (h.2 j hj),
    DeviceRw.ofBytes_bytes]

theorem structWord_of_request {u : UserMem} {buf count : ℕ} {r : DeviceRw} (h : u.Request buf r)
    (hcount : sizeofDeviceRw ≤ count) (hmode : r.modeRw = rwD32) :
    structWord u buf count = r.word.map fun x => (x.1, x.2, r.dataRw) := by
  unfold structWord
  rw [h.ofBytes]
  exact if_pos ⟨hcount, UserMem.readLen_eq_iff.2 h.1, hmode⟩

theorem UserMem.ofBytes_request (r : DeviceRw) : (UserMem.ofBytes r.bytes).Request 0 r :=
  ⟨fun _ _ => rfl, fun j _ => congrArg r.bytes (Nat.zero_add j)⟩

/-- A call through the struct interface whose looks at the flags see `o`: the
    reply, and the bars. -/
def Bars.structWrite (b : Bars) (o : ℕ → Store) (u : UserMem) (buf count : ℕ) : ℤ × Bars :=
  if o 0 (.flag .writeError) then (-EFAULT, b)
  else match structWord u buf count with
  | none => (-EFAULT, b)
  | some (bar, i, v) =>
    (if bar.rejects i then - EIO else sizeofDeviceRw, b.write (o 1 (.flag .spiError)) bar i v)

namespace Bars
variable {b : Bars} {o : ℕ → Store} {u : UserMem} {buf count : ℕ}

theorem structWrite_of_flag (h : o 0 (.flag .writeError) = true) :
    b.structWrite o u buf count = (-EFAULT, b) := if_pos h

theorem structWrite_none (h : structWord u buf count = none) :
    b.structWrite o u buf count = (-EFAULT, b) := by
  simp only [structWrite, h, ite_self]

theorem structWrite_some {bar : Bar} {i : ℕ} {v : U32} (hclear : o 0 (.flag .writeError) = false)
    (h : structWord u buf count = some (bar, i, v)) : b.structWrite o u buf count =
      (if bar.rejects i then - EIO else sizeofDeviceRw, b.write (o 1 (.flag .spiError)) bar i v) := by
  simp only [structWrite, hclear, h, Bool.false_eq_true, if_false]

end Bars

section
variable {N : ℕ} {B : Board N} {d : ℕ} (hd : d < N) {b : Bars} {ℓ : Local} (hℓ : ℓ.signals = [])
  {o : ℕ → Store}

/-- The local state after a lock attempt that no signal interrupts. -/
theorem signals_tail {ℓ : Local} (h : ℓ.signals = []) :
    ({ ℓ with signals := ℓ.signals.tail } : Local) = ℓ := by
  cases ℓ
  cases h
  rfl

include hℓ

theorem exec_lock_free (m : Mutex) (s : Store) :
    exec (mutexLockInterruptible m) ℓ s = ⟨false, ℓ, s⟩ := by
  rw [exec_lock, signals_tail hℓ, hℓ]
  rfl

/-- A flag is read under the control mutex. -/
theorem execWith_flag (f : Flag) (y : KM α) (k : Bool → KM α) (n : ℕ) (s : Store) :
    execWith o (do
      if ← mutexLockInterruptible .controlMutex then
        y
      else
        let v ← controlData f
        mutexUnlock .controlMutex
        k v) n ℓ s = execWith o (k (o n (.flag f))) (n + 1) ℓ s := by
  have hlook : execWith o (controlData f) n ℓ s = (⟨o n (.flag f), ℓ, s⟩, n + 1) := rfl
  rw [(quiet_lock _).execWith_bind, exec_lock_free hℓ]
  simp only [Bool.false_eq_true, if_false]
  rw [execWith_bind, hlook, (quiet_unlock _).execWith_bind]
  rfl

/-- The mutex of a device is taken. -/
theorem execWith_device (y x : KM α) (n : ℕ) (s : Store) :
    execWith o (do
      if ← mutexLockInterruptible (.devMutex d) then
        y
      else
        x) n ℓ s = execWith o x n ℓ s := by
  rw [(quiet_lock _).execWith_bind, exec_lock_free hℓ]
  rfl

include hd

/-- The action after a word was written. -/
theorem execWith_action (bar : Bar) (i : ℕ) {offset : U32} (hi : offset = BitVec.ofNat 32 (4 * i))
    (v : U32) (n : ℕ) (s : Store) :
    execWith o (mtcadummyPerformActionOnWrite B offset bar.number (B.dummyPrivateData d).slotNr) n
        ℓ (B.put d (b.setWord bar i v) s) =
      (⟨if bar.rejects i then -1 else 0, ℓ,
        B.put d (b.write (o n (.flag .spiError)) bar i v) s⟩,
        match bar with
        | .system => n + 1
        | .dma => n) := by
  subst hi
  cases bar with
  | system =>
    unfold mtcadummyPerformActionOnWrite
    simp only [Bar.number, ne_eq, not_true_eq_false, if_false]
    rw [execWith_flag hℓ, (quiet_actionOnWriteSwitch _ _ _ _).execWith,
      exec_actionOnWriteSwitch hd]
    rfl
  | dma => rfl

/-- **A write through the struct interface.** -/
theorem execWith_write (buf count : ℕ) (s : Store) :
    (execWith o (mtcaDummyWrite B d buf count) 0 ℓ (B.put d b s)).1 =
      ⟨(b.structWrite o ℓ.user buf count).1, ℓ, B.put d (b.structWrite o ℓ.user buf count).2 s⟩ := by
  unfold mtcaDummyWrite Bars.structWrite
  rw [execWith_flag hℓ, execWith_ite]
  cases o 0 (.flag .writeError) with
  | true => rfl
  | false =>
    simp only [Bool.false_eq_true, if_false]
    rw [execWith_device hℓ]
    unfold mtcaDummyWriteLocked structWord
    have hexit : ∀ (v : ℤ) (b' : Bars) (m : ℕ), (execWith o (do
        mutexUnlock (.devMutex d)
        return v) m ℓ (B.put d b' s)).1 = ⟨v, ℓ, B.put d b' s⟩ := fun v b' m => by
      rw [(quiet_unlock _).execWith_bind]
      rfl
    by_cases hcount : count < sizeofDeviceRw
    · rw [execWith_ite, if_pos hcount, hexit]
      simp [Nat.not_le.2 hcount]
    have hle := Nat.le_of_not_lt hcount
    dsimp only
    rw [execWith_ite, if_neg hcount, (quiet_copyFromUser _ _).execWith_bind, exec_copyFromUser]
    dsimp only
    rw [execWith_ite]
    by_cases hcopy : ℓ.user.readLen buf sizeofDeviceRw = sizeofDeviceRw
    · rw [if_neg (by omega)]
      generalize DeviceRw.ofBytes (ℓ.user.fetch buf sizeofDeviceRw) = r
      rw [execWith_ite]
      by_cases hmode : r.modeRw = rwD32
      · rw [if_pos hmode, if_pos ⟨hle, hcopy, hmode⟩, structBar_eq]
        cases hbar : Bar.ofNumber r.barxRw with
        | none => simp only [Option.map_none, hexit, DeviceRw.word, hbar]
        | some bar =>
          simp only [Option.map_some, DeviceRw.word, hbar]
          rw [execWith_ite]
          by_cases hoff : r.offsetRw.toNat % 4 ≠ 0 ∨ r.offsetRw.toNat ≥ bar.size
          · rw [if_pos hoff, if_pos hoff, hexit]
            rfl
          · have hword := (ofNat_word r.offsetRw (by omega)).symm
            rw [if_neg hoff, if_neg hoff, (quiet_storeWord _ _ _).execWith_bind,
              exec_storeBar hd, Bar.ofNumber_eq_some hbar, execWith_bind,
              execWith_action hd hℓ bar _ hword, execWith_ite]
            simp only [Option.map_some]
            cases bar.rejects (r.offsetRw.toNat / 4) with
            | true =>
              simp only [if_true]
              rw [if_pos (by decide), hexit]
            | false =>
              simp only [Bool.false_eq_true, if_false]
              rw [if_neg (by decide), hexit]
      · rw [if_neg hmode, if_neg (fun h => hmode h.2.2), hexit]
    · rw [if_pos (UserMem.readLeft_ne_zero hcopy), if_neg (fun h => hcopy h.2.1), hexit]

theorem exec_write (buf count : ℕ) (s : Store) :
    exec (mtcaDummyWrite B d buf count) ℓ (B.put d b s) =
      ⟨(b.structWrite (fun _ => s) ℓ.user buf count).1, ℓ,
        B.put d (b.structWrite (fun _ => s) ℓ.user buf count).2 s⟩ := by
  have hends : Ends B False d .bars Held.none (mtcaDummyWrite B d buf count) ℓ.user :=
    ends_write hd buf count
  have hscope := Prog.all_of_wp (fun i Q st hT => ⟨hT.1, lockT_resp hT.2⟩) (hends ℓ rfl)
  rw [exec_eq_execWith (hscope.mono fun i hi l hl hf => ?_), execWith_write hd hℓ]
  · rfl
  · cases l with
    | flag f => exact hi.writes_flag hl
    | _ => exact hf

/-! ## The other interface -/

omit hd hℓ

/-- What writing consecutive words comes to: the error that ended it, the
    number of words done, and the bars. -/
structure Block where
  err : Option ℤ
  words : ℕ
  bars : Bars

/-- The `k` words from word `w + i` of a bar on.  `spiFail j` is what the
    action on word `j` sees; `copy j` is word `j` as it was copied from the
    user, and whether the copy was whole. -/
def Bars.block (spiFail : ℕ → Bool) (bar : Bar) (w : ℕ) (copy : ℕ → U32 × Bool) :
    ℕ → ℕ → Bars → Block
  | 0, _, b => ⟨none, 0, b⟩
  | k + 1, i, b =>
    if !(copy i).2 then ⟨some (-EFAULT), 0, b.setWord bar (w + i) (copy i).1⟩
    else if bar.rejects (w + i) then
      ⟨some (- EIO), 0, b.write (spiFail i) bar (w + i) (copy i).1⟩
    else
      let r := block spiFail bar w copy k (i + 1) (b.write (spiFail i) bar (w + i) (copy i).1)
      { r with words := r.words + 1 }

/-- Word `i` of the buffer. -/
def UserMem.copyWord (u : UserMem) (buf i : ℕ) : U32 × Bool :=
  (wordAt (u.fetch (buf + 4 * i) 4) 0, u.readLen (buf + 4 * i) 4 = 4)

/-- The words of a transfer. -/
structure Span where
  bar : Bar
  first : ℕ
  words : ℕ

/-- The words that a transfer of `count` bytes at a file position names, or
    the error.  Words behind the end of the bar are left out. -/
def span (count pos : ℕ) : Except ℤ Span :=
  if pos % 4 ≠ 0 ∨ count % 4 ≠ 0 then .error (-EFAULT)
  else match Bar.ofNumber (BitVec.ofNat 32 (pos / 2 ^ 60 % 8)) with
  | none => .error (-EFAULT)
  | some bar =>
    if pos % 2 ^ 60 > bar.size then .error (-EFAULT)
    else .ok ⟨bar, pos % 2 ^ 60 / 4, min (count / 4) ((bar.size - pos % 2 ^ 60) / 4)⟩

/-- A call through the other interface whose looks at the flags see `o`. -/
def Bars.noStructWrite (b : Bars) (o : ℕ → Store) (u : UserMem) (buf count pos : ℕ) :
    ℤ × ℕ × Bars :=
  if o 0 (.flag .writeError) then (-EFAULT, 0, b)
  else match span count pos with
  | .error e => (e, 0, b)
  | .ok t =>
    let r := Bars.block (fun i => o (i + 1) (.flag .spiError)) t.bar t.first (u.copyWord buf)
      t.words 0 b
    (r.err.getD (4 * t.words), r.words, r.bars)

namespace Bars
variable {b : Bars} {o : ℕ → Store} {u : UserMem} {buf count pos : ℕ}

theorem noStructWrite_of_flag (h : o 0 (.flag .writeError) = true) :
    b.noStructWrite o u buf count pos = (-EFAULT, 0, b) := if_pos h

theorem noStructWrite_error {e : ℤ} (hclear : o 0 (.flag .writeError) = false)
    (h : span count pos = .error e) : b.noStructWrite o u buf count pos = (e, 0, b) := by
  simp only [noStructWrite, hclear, h, Bool.false_eq_true, if_false]

theorem noStructWrite_ok {t : Span} (hclear : o 0 (.flag .writeError) = false)
    (h : span count pos = .ok t) : b.noStructWrite o u buf count pos =
      let r := Bars.block (fun i => o (i + 1) (.flag .spiError)) t.bar t.first (u.copyWord buf)
        t.words 0 b
      (r.err.getD (4 * t.words), r.words, r.bars) := by
  simp only [noStructWrite, hclear, h, Bool.false_eq_true, if_false]

end Bars

/-- What the span stands for in the code. -/
def Span.information (t : Span) (data : MtcaDummyData) : TransferInformation where
  bar := t.bar.number
  offset := 4 * t.first
  barSizeInBytes := t.bar.size
  barStart := t.bar.base data
  nBytesToTransfer := 4 * t.words

/-- The transfer ends in the bar. -/
theorem span_le {count pos : ℕ} {t : Span} (h : span count pos = .ok t) :
    t.first + t.words ≤ t.bar.size / 4 := by
  unfold span at h
  split_ifs at h with hmod
  split at h
  · cases h
  · split_ifs at h with hoff
    cases h
    rename_i bar _
    dsimp only
    cases bar <;> simp only [Bar.size, dmaSize, nRegisters] at hoff ⊢ <;> omega

include hd in
/-- The check computes the span. -/
theorem check_eq_span {count : ℕ} (hcount : count < 2 ^ 32) (pos : ℕ) :
    checkAndCalculateTransferInformation (B.dummyPrivateData d) count pos =
      (span count pos).map fun t => t.information (B.dummyPrivateData d) := by
  have hoff : pos &&& 0x0FFFFFFFFFFFFFFF = pos % 2 ^ 60 := Nat.and_two_pow_sub_one_eq_mod pos 60
  have hbar : (pos >>> 60) &&& 0x7 = pos / 2 ^ 60 % 8 := by
    rw [Nat.shiftRight_eq_div_pow]
    exact Nat.and_two_pow_sub_one_eq_mod _ 3
  unfold checkAndCalculateTransferInformation span
  by_cases hpos : pos % 4 = 0
  swap
  · rw [if_pos hpos, if_pos (.inl hpos)]
    rfl
  by_cases hmod : count % 4 = 0
  swap
  · rw [if_neg (not_not.2 hpos), if_pos hmod, if_pos (.inr hmod)]
    rfl
  rw [if_neg (not_not.2 hpos), if_neg (not_not.2 hmod), if_neg (by omega), hoff, hbar]
  dsimp only
  generalize BitVec.ofNat 32 (pos / 2 ^ 60 % 8) = n
  -- the bars that have no memory are refused for their null pointer
  have hsome : ∀ bar : Bar, noStructBar (B.dummyPrivateData d) bar.number =
      some (bar.base (B.dummyPrivateData d), bar.size) := fun bar => by cases bar <;> rfl
  cases hof : Bar.ofNumber n with
  | none =>
    unfold Bar.ofNumber at hof
    unfold noStructBar
    split_ifs at hof ⊢ with h₀ h₂
    · simp only [if_true]
      rfl
    · rfl
  | some bar =>
    have hn := Bar.ofNumber_eq_some hof
    subst hn
    have hne : bar.base (B.dummyPrivateData d) ≠ NULL := by
      cases bar
      · exact B.systemBar_ne d hd
      · exact B.dmaBar_ne d hd
    rw [hsome]
    dsimp only
    rw [if_neg hne]
    by_cases hle : pos % 2 ^ 60 > bar.size
    · rw [if_pos hle, if_pos hle]
      rfl
    · have hsize := bar.size_le
      have hdma : dmaSize = 4096 := rfl
      have h4 : bar.size % 4 = 0 := by cases bar <;> rfl
      rw [if_neg hle, if_neg hle]
      simp only [Except.map, Span.information, Except.ok.injEq, TransferInformation.mk.injEq,
        true_and]
      refine ⟨by omega, ?_⟩
      split <;> omega

include hd

/-- **The loop of the write writes the words of the block.** -/
theorem execWith_writeLoop {t : Span} {buf : ℕ} {spiFail : ℕ → Bool} {k i n : ℕ}
    (hk : t.first + i + k ≤ dmaSize / 4)
    (hspi : t.bar = .system → ∀ j, spiFail (i + j) = o (n + j) (.flag .spiError)) {b : Bars}
    {ℓ : Local} (hℓ : ℓ.signals = []) (s : Store) :
    (execWith o (writeNoStructLoop B d (t.information (B.dummyPrivateData d)) buf k i) n ℓ
        (B.put d b s)).1 =
      let r := Bars.block spiFail t.bar t.first (ℓ.user.copyWord buf) k i b
      ⟨r.err.getD (4 * t.words), { ℓ with fPos := ℓ.fPos + 4 * r.words }, B.put d r.bars s⟩ := by
  induction k generalizing i n b ℓ with
  | zero =>
    rw [writeNoStructLoop, (quiet_unlock _).execWith_bind]
    rfl
  | succ k ih =>
    have hdma : dmaSize = 4096 := rfl
    have hloop : i * 4 % 2 ^ 32 = 4 * i := by omega
    have hfirst : 4 * t.first / 4 = t.first := by omega
    have hword : BitVec.ofNat 32 (4 * t.first + 4 * i) = BitVec.ofNat 32 (4 * (t.first + i)) := by
      rw [Nat.mul_add]
    have hexit : ∀ (v : ℤ) (b' : Bars) (m : ℕ), (execWith o (do
        mutexUnlock (.devMutex d)
        return v) m ℓ (B.put d b' s)).1 = ⟨v, ℓ, B.put d b' s⟩ := fun v b' m => by
      rw [(quiet_unlock _).execWith_bind]
      rfl
    rw [writeNoStructLoop, Bars.block]
    dsimp only [Span.information]
    rw [hloop, hfirst, (quiet_copyFromUser _ _).execWith_bind, exec_copyFromUser]
    dsimp only
    rw [(quiet_storeWord _ _ _).execWith_bind, exec_storeBar hd, execWith_ite]
    dsimp only
    by_cases hcopy : ℓ.user.readLen (buf + 4 * i) 4 = 4
    · have hwhole : (ℓ.user.copyWord buf i).2 = true := decide_eq_true hcopy
      rw [hcopy, Nat.sub_self, if_neg (fun h => h rfl), hwhole, execWith_bind,
        execWith_action hd hℓ t.bar _ hword]
      dsimp only
      rw [execWith_ite]
      have hval : wordAt (ℓ.user.fetch (buf + 4 * i) 4) 0 = (ℓ.user.copyWord buf i).1 := rfl
      -- the action of the other bar does not look, and its value does not matter
      have hwrite : b.write (o n (.flag .spiError)) t.bar (t.first + i)
          (ℓ.user.copyWord buf i).1 =
          b.write (spiFail i) t.bar (t.first + i) (ℓ.user.copyWord buf i).1 := by
        cases hbar : t.bar with
        | system =>
          have := hspi hbar 0
          rw [Nat.add_zero, Nat.add_zero] at this
          rw [this]
        | dma => rfl
      rw [hval, hwrite]
      cases t.bar.rejects (t.first + i) with
      | true =>
        simp only [if_true]
        rw [if_pos (by decide), hexit]
        rfl
      | false =>
        simp only [Bool.false_eq_true, if_false, Bool.not_true]
        rw [if_neg (by decide), quiet_getPos.execWith_bind, exec_getPos,
          (quiet_setPos _).execWith_bind, exec_setPos]
        dsimp only
        have := ih (i := i + 1) (n := match t.bar with | .system => n + 1 | .dma => n) (by omega)
          (fun hbar j => by
            have := hspi hbar (j + 1)
            rw [hbar]
            rw [show i + 1 + j = i + (j + 1) by omega, show n + 1 + j = n + (j + 1) by omega, this])
          (b := b.write (spiFail i) t.bar (t.first + i) (ℓ.user.copyWord buf i).1)
          (ℓ := { ℓ with fPos := ℓ.fPos + 4 }) hℓ
        refine Eq.trans this ?_
        simp only [Nat.mul_add, Nat.mul_one, Nat.add_assoc, Nat.add_comm 4]
    · have hpart : (ℓ.user.copyWord buf i).2 = false := decide_eq_false hcopy
      rw [if_pos (UserMem.readLeft_ne_zero hcopy), hpart, hexit]
      rfl

/-- **A write through the other interface.** -/
theorem execWith_writeNoStruct (buf : ℕ) {count : ℕ} (hcount : count < 2 ^ 32) {b : Bars}
    {ℓ : Local}
    (hℓ : ℓ.signals = []) (s : Store) :
    (execWith o (mtcaDummyWriteNoStruct B d buf count) 0 ℓ (B.put d b s)).1 =
      let r := b.noStructWrite o ℓ.user buf count ℓ.fPos
      ⟨r.1, { ℓ with fPos := ℓ.fPos + 4 * r.2.1 }, B.put d r.2.2 s⟩ := by
  unfold mtcaDummyWriteNoStruct Bars.noStructWrite
  rw [execWith_flag hℓ, execWith_ite]
  cases o 0 (.flag .writeError) with
  | true => rfl
  | false =>
    simp only [Bool.false_eq_true, if_false]
    rw [quiet_getPos.execWith_bind, exec_getPos]
    dsimp only
    rw [check_eq_span hd hcount]
    cases ht : span count ℓ.fPos with
    | error e => rfl
    | ok t =>
      have hle := span_le ht
      have hsize := t.bar.size_le
      simp only [Except.map]
      rw [execWith_device hℓ]
      have hwords : (t.information (B.dummyPrivateData d)).nBytesToTransfer / 4 = t.words := by
        simp only [Span.information]
        omega
      rw [hwords]
      exact execWith_writeLoop hd (by omega) (fun _ j => by rw [Nat.zero_add, Nat.add_comm]) hℓ s

theorem exec_writeNoStruct {buf count : ℕ} (hcount : count < 2 ^ 32) {b : Bars} {ℓ : Local}
    (hℓ : ℓ.signals = []) (s : Store) :
    exec (mtcaDummyWriteNoStruct B d buf count) ℓ (B.put d b s) =
      let r := b.noStructWrite (fun _ => s) ℓ.user buf count ℓ.fPos
      ⟨r.1, { ℓ with fPos := ℓ.fPos + 4 * r.2.1 }, B.put d r.2.2 s⟩ := by
  have hends : Ends B False d .bars Held.none (mtcaDummyWriteNoStruct B d buf count) ℓ.user :=
    ends_writeNoStruct hd hcount
  have hscope := Prog.all_of_wp (fun i Q st hT => ⟨hT.1, lockT_resp hT.2⟩) (hends ℓ rfl)
  rw [exec_eq_execWith (hscope.mono fun i hi l hl hf => ?_),
    execWith_writeNoStruct hd buf hcount hℓ]
  · rfl
  · cases l with
    | flag f => exact hi.writes_flag hl
    | _ => exact hf

end

end MtcaDummy

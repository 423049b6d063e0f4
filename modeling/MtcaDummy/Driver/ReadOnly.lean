/-
  The read only registers.

  The firmware keeps a register read only by letting a write overwrite it and
  setting it back afterwards (`Bars.action`).  A call that stops in between,
  because its copy from the user fails or its lock attempt is interrupted,
  leaves what it has written (`Entry.Spoils`).  `readOnly_words_hold`: in a
  run in which no such call enters the section of its device, the read only
  registers of a device hold their contents whenever its mutex is free.
-/
import MtcaDummy.Conc.Resource
import MtcaDummy.Driver.Calls
import MtcaDummy.Driver.Bars

namespace MtcaDummy

open Conc

/-! ## The registers under the firmware -/

namespace Bars

/-- Every read only register holds its content. -/
def ReadOnly (b : Bars) : Prop := ∀ o v, readOnlyWord o = some v → b.reg o = v

/-- ... with the possible exception of the one at `offset`. -/
def ReadOnlyBut (b : Bars) (offset : U32) : Prop :=
  ∀ o v, o ≠ offset → readOnlyWord o = some v → b.reg o = v

variable {b : Bars}

/-- The offsets of the read only registers. -/
theorem readOnlyWord_cases {o v : U32} (h : readOnlyWord o = some v) :
    o = wordFirmware ∨ o = wordCompilation ∨ o = wordDummy := by
  unfold readOnlyWord at h
  split_ifs at h with h₁ h₂ h₃
  · exact .inl h₁
  · exact .inr (.inl h₂)
  · exact .inr (.inr h₃)

/-- A write of another register keeps a read only one. -/
theorem ReadOnlyBut.setReg {offset o : U32} (h : b.ReadOnlyBut offset)
    (ho : ∀ o' v, readOnlyWord o' = some v → o'.toNat / 4 ≠ o.toNat / 4) (v : U32) :
    (b.setReg o v).ReadOnlyBut offset := by
  intro o' v' hne hv'
  rw [reg_setReg, if_neg (ho o' v' hv')]
  exact h o' v' hne hv'

/-- Nothing is excepted if the register is not read only. -/
theorem ReadOnlyBut.all {offset : U32} (h : b.ReadOnlyBut offset)
    (hn : readOnlyWord offset = none) : b.ReadOnly := by
  intro o v hv
  refine h o v ?_ hv
  rintro rfl
  rw [hn] at hv
  cases hv

/-- The registers the firmware changes on its own are not read only. -/
theorem readOnlyWord_ne {o : U32} (ho : o ∈ [wordClkCnt0, wordClkCnt1, wordClkMux0, wordClkMux1,
      wordClkMux2, wordClkMux3, wordClkRst, wordSpiRead, wordSpiSync]) (o' v : U32)
    (h : readOnlyWord o' = some v) : o'.toNat / 4 ≠ o.toNat / 4 := by
  simp only [List.mem_cons, List.not_mem_nil, or_false] at ho
  rcases ho with rfl | rfl | rfl | rfl | rfl | rfl | rfl | rfl | rfl <;>
    rcases readOnlyWord_cases h with rfl | rfl | rfl <;> decide

theorem ReadOnlyBut.resetClocks {offset : U32} (h : b.ReadOnlyBut offset) :
    b.resetClocks.ReadOnlyBut offset := by
  unfold Bars.resetClocks
  iterate 6 refine ReadOnlyBut.setReg ?_ (readOnlyWord_ne (by decide)) _
  exact h

theorem ReadOnlyBut.spiTransfer {offset : U32} (h : b.ReadOnlyBut offset) (spiFail : Bool) :
    (b.spiTransfer spiFail).ReadOnlyBut offset := by
  unfold Bars.spiTransfer
  split
  · exact (h.setReg (readOnlyWord_ne (by decide)) _).setReg (readOnlyWord_ne (by decide)) _
  · exact h.setReg (readOnlyWord_ne (by decide)) _

theorem ReadOnlyBut.sampled {offset : U32} (h : b.ReadOnlyBut offset) :
    (((b.sample 25).setReg wordClkCnt0 25#32).setReg wordClkRst 0#32).ReadOnlyBut offset := by
  have hs : (b.sample 25).ReadOnlyBut offset := h
  exact (hs.setReg (readOnlyWord_ne (by decide)) _).setReg (readOnlyWord_ne (by decide)) _

/-- A read only register is set back to its content. -/
theorem ReadOnlyBut.setBack {offset v : U32} (h : b.ReadOnlyBut offset)
    (hv : readOnlyWord offset = some v) : (b.setReg offset v).ReadOnly := by
  intro o' v' hv'
  rw [reg_setReg]
  split
  · rename_i he
    have ho : o' = offset := by
      rcases readOnlyWord_cases hv with rfl | rfl | rfl <;>
        rcases readOnlyWord_cases hv' with rfl | rfl | rfl <;>
        first | rfl | exact absurd he (by decide)
    rw [ho, hv] at hv'
    exact Option.some.inj hv'
  · rename_i hne
    exact h o' v' (fun ho => hne (by rw [ho])) hv'

/-- **The reaction of the firmware sets a read only register back.** -/
theorem ReadOnlyBut.action {offset : U32} (h : b.ReadOnlyBut offset) (spiFail : Bool) :
    (b.action spiFail offset).ReadOnly := by
  cases hv : readOnlyWord offset with
  | none =>
    refine ReadOnlyBut.all ?_ hv
    unfold Bars.action
    split_ifs
    · exact h.resetClocks
    · exact h
    · exact h.sampled
    · exact h
    · exact h.spiTransfer spiFail
    · rw [hv]
      exact h
  | some v =>
    have hact : b.action spiFail offset = b.setReg offset v := by
      have hne : offset ≠ wordClkRst ∧ offset ≠ wordAdcEna ∧ offset ≠ wordSpiWrite := by
        rcases readOnlyWord_cases hv with rfl | rfl | rfl <;> decide
      simp only [Bars.action, hne.1, hne.2.1, hne.2.2, if_false, hv]
    rw [hact]
    exact h.setBack hv

/-- A write of the word at `offset` keeps all other read only registers. -/
theorem ReadOnly.setWord (h : b.ReadOnly) {offset : U32} {i : ℕ} (hi : offset.toNat = 4 * i)
    (v : U32) : (b.setWord .system i v).ReadOnlyBut offset := by
  intro o' v' hne hv'
  have hmod : o'.toNat % 4 = 0 := by
    rcases readOnlyWord_cases hv' with rfl | rfl | rfl <;> decide
  have hidx : o'.toNat / 4 ≠ i := fun he => hne (BitVec.eq_of_toNat_eq (by omega))
  simp only [reg, Bars.setWord, Function.update_of_ne hidx]
  exact h o' v' hv'

/-- A write of the content itself keeps it. -/
theorem ReadOnlyBut.same {offset : U32} (h : b.ReadOnlyBut offset)
    (hv : ∀ v, readOnlyWord offset = some v → b.reg offset = v) : b.ReadOnly := by
  intro o v ho
  by_cases he : o = offset
  · subst he
    exact hv v ho
  · exact h o v he ho

/-- After a word of a bar was written, before the action on it: for bar 0 the
    register at `offset` may be overwritten. -/
def Pending (b : Bars) (offset : U32) : Bar → Prop
  | .system => b.ReadOnlyBut offset
  | .dma => b.ReadOnly

theorem ReadOnly.pending (h : b.ReadOnly) {offset : U32} {i : ℕ} (hi : offset.toNat = 4 * i)
    (bar : Bar) (v : U32) : (b.setWord bar i v).Pending offset bar := by
  cases bar with
  | system => exact h.setWord hi v
  | dma => exact h

theorem Pending.same {offset : U32} {bar : Bar} (h : b.Pending offset bar)
    (hv : bar = .system → ∀ v, readOnlyWord offset = some v → b.reg offset = v) : b.ReadOnly := by
  cases bar with
  | system => exact ReadOnlyBut.same h (hv rfl)
  | dma => exact h

end Bars

/-! ## Calls that leave a register overwritten -/

variable {N : ℕ} (B : Board N)

/-- The write stores something else than the content of a read only register,
    and the lock attempt of its action, the third of the call, is interrupted. -/
def SpoilsWrite (buf count : ℕ) (ℓ : Local) : Prop :=
  sizeofDeviceRw ≤ count ∧ ℓ.user.readLen buf sizeofDeviceRw = sizeofDeviceRw ∧
    ∃ r, r = DeviceRw.ofBytes (ℓ.user.fetch buf sizeofDeviceRw) ∧ r.modeRw = rwD32 ∧
      r.barxRw = 0#32 ∧ (∃ v, readOnlyWord r.offsetRw = some v ∧ r.dataRw ≠ v) ∧
      ℓ.signals.getD 2 false = true

/-- Word `i` of a block write: it can be read, and the lock attempt of its
    action is not interrupted. -/
def WordDone (buf : ℕ) (ℓ : Local) (i : ℕ) : Prop :=
  ℓ.user.readLen (buf + 4 * i) 4 = 4 ∧ ℓ.signals.getD (2 + i) false = false

/-- The first word that is not done is one of a read only register, and what
    was copied of it is not the content of the register. -/
def SpoilsWriteNoStruct (d buf count : ℕ) (ℓ : Local) : Prop :=
  ∃ t, checkAndCalculateTransferInformation (B.dummyPrivateData d) count ℓ.fPos = .ok t ∧
    t.bar = 0#32 ∧ ∃ i < t.nBytesToTransfer / 4, (∀ j < i, WordDone buf ℓ j) ∧
      ¬ WordDone buf ℓ i ∧ ∃ v, readOnlyWord (BitVec.ofNat 32 (t.offset + 4 * i)) = some v ∧
        wordAt (ℓ.user.fetch (buf + 4 * i) 4) 0 ≠ v

/-- The call, once it has entered the section of its device, leaves a read only
    register overwritten. -/
def Entry.Spoils (ℓ : Local) : Entry N → Prop
  | .write _ buf count => SpoilsWrite buf (min count maxRwCount) ℓ
  | .writeNoStruct d buf count => SpoilsWriteNoStruct B d buf (min count maxRwCount) ℓ
  | _ => False

/-! ## The section of a write -/

section
variable {B : Board N} {d : ℕ} {ok : Prop} {α β : Type}

/-- The read only registers of device `d` in a store. -/
def Board.ReadOnly (B : Board N) (d : ℕ) (s : Store) : Prop := (B.bars d s).ReadOnly

/-- `wp` with the judgement of the section of device `d`. -/
abbrev sectionWp (B : Board N) (d : ℕ) (ok : Prop) (x : KM α)
    (Q : α → Local → Option Store → Prop) (ℓ : Local) (own : Option Store) : Prop :=
  wp (ownT (B.protection True) (.devMutex d) (B.ReadOnly d) ok) x Q ℓ own

/-- What is left to show at the end of a call. -/
abbrev Outside {α : Type} : α → Local → Option Store → Prop := fun _ _ own => own = none

/-- The control mutex and the flags are none of the section's business. -/
theorem sectionWp_flag {f : Flag} {y : KM β} {k : Bool → KM β}
    {Q : β → Local → Option Store → Prop} {ℓ : Local} {own : Option Store}
    (hy : ℓ.signals.headD false = true →
      sectionWp B d ok y Q { ℓ with signals := ℓ.signals.tail } own)
    (hk : ℓ.signals.headD false = false → ∀ v,
      sectionWp B d ok (k v) Q { ℓ with signals := ℓ.signals.tail } own) :
    sectionWp B d ok (do
      if ← mutexLockInterruptible .controlMutex then
        y
      else
        let v ← controlData f
        mutexUnlock .controlMutex
        k v) Q ℓ own := by
  have hne : ¬ (Mutex.controlMutex = .devMutex d ∧ ℓ.signals.headD false = false) :=
    fun h => nomatch h.1
  rw [sectionWp, wp_bind, wp_lock]
  simp only [ownT, hne, if_false]
  cases hs : ℓ.signals.headD false with
  | true => exact hy hs
  | false =>
    exact .inr fun v => hk hs v

/-- The section is entered with the registers in order. -/
theorem sectionWp_device {y x : KM β} {Q : β → Local → Option Store → Prop} {ℓ : Local}
    (hy : sectionWp B d ok y Q { ℓ with signals := ℓ.signals.tail } none)
    (hx : ok → ∀ s, B.ReadOnly d s →
      sectionWp B d ok x Q { ℓ with signals := ℓ.signals.tail } (some s)) :
    sectionWp B d ok (do
      if ← mutexLockInterruptible (.devMutex d) then
        y
      else
        x) Q ℓ none := by
  rw [sectionWp, wp_bind, wp_lock]
  cases hs : ℓ.signals.headD false with
  | true =>
    simp only [ownT, Bool.true_eq_false, and_false, if_false]
    exact hy
  | false =>
    simp only [ownT, and_self, if_true]
    exact ⟨trivial, hx⟩

/-- The way out needs the registers in order. -/
theorem sectionWp_exit (a : β) {ℓ : Local} {s : Store} (h : B.ReadOnly d s) :
    sectionWp B d ok (do
      mutexUnlock (.devMutex d)
      return a) Outside ℓ (some s) := by
  rw [sectionWp, wp_bind, wp_unlock]
  simp only [ownT, if_true]
  exact ⟨s, rfl, h, rfl⟩

variable (hd : d < N)
include hd

/-- The switch of the firmware only accesses the bars of the device. -/
theorem every_actionOnWriteSwitch (spiFail : Bool) (offset : U32) :
    Every (Instr.Local (B.protection True) (.devMutex d))
      (actionOnWriteSwitch B spiFail offset (B.dummyPrivateData d).slotNr) := by
  have hget : ∀ addr : U32, addr.toNat < nRegisters * 4 →
      Every (Instr.Local (B.protection True) (.devMutex d))
        (getReg (B.dummyPrivateData d).systemBar addr) := by
    intro addr h ℓ
    refine ⟨fun l hl => ?_, fun _ => trivial⟩
    cases hl
    exact ⟨trivial, hd, inBar_reg h⟩
  have hset : ∀ addr v : U32, addr.toNat < nRegisters * 4 →
      Every (Instr.Local (B.protection True) (.devMutex d))
        (setReg (B.dummyPrivateData d).systemBar addr v) := by
    intro addr v h ℓ
    refine ⟨fun l hl => ?_, fun _ => trivial⟩
    cases hl
    exact ⟨trivial, hd, inBar_reg h⟩
  have hsample : ∀ k n, n + k ≤ dmaSize / 4 →
      Every (Instr.Local (B.protection True) (.devMutex d))
        (sampleLoop (B.dummyPrivateData d).dmaBar k n) := by
    intro k
    induction k with
    | zero => exact fun _ _ => every_pure _
    | succ k ih =>
      intro n hn
      have hlt : n < Bar.dma.size / 4 := Nat.lt_of_lt_of_le (by omega) hn
      refine Every.bind (fun ℓ => ⟨fun l hl => ?_, fun _ => trivial⟩) fun _ => ih _ (by omega)
      cases hl
      exact ⟨trivial, hd, .dma, rfl, hlt⟩
  simp only [actionOnWriteSwitch, B.slotNr_eq d hd]
  repeat' first
    | exact every_pure _
    | exact hget _ (by decide)
    | exact hset _ _ (by decide)
    | exact hsample _ _ (by decide)
    | refine Every.ite ?_ ?_
    | refine Every.bind ?_ fun _ => ?_

theorem sectionWp_store {bar : Bar} {i : ℕ} {v : U32} {Q : Unit → Local → Option Store → Prop}
    {ℓ : Local} {s : Store} (hi : i < bar.size / 4)
    (hQ : Q () ℓ (some (B.put d ((B.bars d s).setWord bar i v) s))) :
    sectionWp B d ok (storeWord (bar.base (B.dummyPrivateData d)) i v) Q ℓ (some s) := by
  have hg : B.Guards True (.devMutex d) (.word (bar.base (B.dummyPrivateData d)) i) :=
    ⟨trivial, hd, bar, rfl, hi⟩
  have hstore : Function.update s (.word (bar.base (B.dummyPrivateData d)) i) v =
      B.put d ((B.bars d s).setWord bar i v) s := by
    rw [← update_put_word hd, put_bars]
  rw [sectionWp, wp_storeWord]
  refine ⟨fun _ => ⟨s, rfl, ?_⟩, fun hn => absurd hg hn⟩
  rwa [hstore]

/-- **The action on a write sets the register back**, unless its lock attempt
    is interrupted. -/
theorem sectionWp_action {bar : Bar} {offset : U32} {Q : ℤ → Local → Option Store → Prop}
    {ℓ : Local} {b : Bars} {s : Store} (hb : b.Pending offset bar)
    (hleft : bar = .system → ℓ.signals.headD false = true →
      ∀ v, readOnlyWord offset = some v → b.reg offset = v)
    (hQ : ∀ r s', B.ReadOnly d s' →
      (bar = .system → r = 0 → ℓ.signals.headD false = false) →
      Q r { ℓ with signals := if bar = .system then ℓ.signals.tail else ℓ.signals } (some s')) :
    sectionWp B d ok
      (mtcadummyPerformActionOnWrite B offset bar.number (B.dummyPrivateData d).slotNr) Q ℓ
      (some (B.put d b s)) := by
  have hput : ∀ b' : Bars, b'.ReadOnly → B.ReadOnly d (B.put d b' s) := fun b' h => by
    rwa [Board.ReadOnly, bars_put hd]
  unfold mtcadummyPerformActionOnWrite
  cases bar with
  | dma => exact hQ 0 _ (hput _ hb) nofun
  | system =>
    refine sectionWp_flag (fun hintr => hQ _ _ (hput _ (hb.same fun _ => hleft rfl hintr))
      fun _ hr => absurd hr (show -ERESTARTSYS ≠ 0 by decide)) fun hintr spiFail => ?_
    refine wp_own_exec (every_actionOnWriteSwitch hd spiFail offset _) ?_
    change Q (exec _ _ _).val (exec _ _ _).loc (some (exec _ _ _).store)
    rw [exec_actionOnWriteSwitch hd]
    exact hQ _ _ (hput _ (Bars.ReadOnlyBut.action hb spiFail)) fun _ _ => hintr

/-! ## The calls -/

/-- `mtcaDummy_write` restores the registers of its device. -/
theorem sectionWp_writeStruct {buf count : ℕ} {ℓ : Local} (hok : ok → ¬ SpoilsWrite buf count ℓ) :
    sectionWp B d ok (mtcaDummyWrite B d buf count) Outside ℓ none := by
  refine sectionWp_flag (fun _ => rfl) fun _ writeFail => ?_
  rw [sectionWp, wp_ite]
  refine ⟨fun _ => rfl, fun _ => ?_⟩
  refine sectionWp_device rfl fun hadm s hs => ?_
  unfold mtcaDummyWriteLocked
  rw [sectionWp, wp_ite]
  refine ⟨fun _ => sectionWp_exit _ hs, fun hcount => ?_⟩
  rw [wp_bind, wp_copyFromUser, wp_ite]
  refine ⟨fun _ => sectionWp_exit _ hs, fun hleft => ?_⟩
  rw [wp_ite]
  refine ⟨fun hmode => ?_, fun _ => sectionWp_exit _ hs⟩
  split
  · exact sectionWp_exit _ hs
  · rename_i barBaseAddress barSize hbar
    rw [wp_ite]
    refine ⟨fun _ => sectionWp_exit _ hs, fun hoff => ?_⟩
    obtain ⟨bar, hnum, rfl, rfl⟩ := structBar_eq_some hbar
    rw [wp_bind]
    refine sectionWp_store hd (word_lt hoff) ?_
    rw [wp_bind, hnum]
    have hoff' : (DeviceRw.ofBytes (ℓ.user.fetch buf sizeofDeviceRw)).offsetRw.toNat =
        4 * ((DeviceRw.ofBytes (ℓ.user.fetch buf sizeofDeviceRw)).offsetRw.toNat / 4) := by
      dsimp only at hoff
      omega
    refine sectionWp_action hd (Bars.ReadOnly.pending hs hoff' bar _)
      (fun hbar hintr w hw => ?_) fun r s' hs' _ => ?_
    · by_contra hne
      refine hok hadm ⟨by omega, ?_, _, rfl, hmode, by rw [hnum, hbar]; rfl, ⟨w, hw, ?_⟩, ?_⟩
      · have := ℓ.user.readLen_le buf sizeofDeviceRw
        dsimp only at hleft
        omega
      · rintro rfl
        subst hbar
        simp [Bars.reg, Bars.setWord] at hne
      · rwa [headD_tail_tail] at hintr
    · rw [wp_ite]
      exact ⟨fun _ => sectionWp_exit _ hs', fun _ => sectionWp_exit _ hs'⟩

/-- The loop of the block write, for the `k` words from word `i` on. -/
theorem sectionWp_writeLoop {t : TransferInformation} {bar : Bar} {buf : ℕ}
    (hbar : t.bar = bar.number) (hbase : t.barStart = bar.base (B.dummyPrivateData d))
    (hmod : t.offset % 4 = 0) {k i : ℕ} {ℓ : Local} {s : Store} (hs : B.ReadOnly d s)
    (hsize : t.offset + 4 * (i + k) ≤ bar.size)
    (hleft : bar = .system → ∀ j < k,
      (∀ j' < j, ℓ.user.readLen (buf + 4 * (i + j')) 4 = 4 ∧
        ℓ.signals.getD j' false = false) →
      ¬ (ℓ.user.readLen (buf + 4 * (i + j)) 4 = 4 ∧ ℓ.signals.getD j false = false) →
      ∀ v, readOnlyWord (BitVec.ofNat 32 (t.offset + 4 * (i + j))) = some v →
        wordAt (ℓ.user.fetch (buf + 4 * (i + j)) 4) 0 = v) :
    sectionWp B d ok (writeNoStructLoop B d t buf k i) Outside ℓ (some s) := by
  induction k generalizing i ℓ s with
  | zero => exact sectionWp_exit _ hs
  | succ k ih =>
    have hle := bar.size_le
    have hdma : dmaSize = 4096 := rfl
    have hloop : i * 4 % 2 ^ 32 = 4 * i := by omega
    have hoff : (BitVec.ofNat 32 (t.offset + 4 * i)).toNat = 4 * (t.offset / 4 + i) := by
      rw [BitVec.toNat_ofNat]
      omega
    rw [writeNoStructLoop, sectionWp]
    dsimp only
    rw [hloop, hbase, hbar, wp_bind, wp_copyFromUser, wp_bind]
    refine sectionWp_store hd (by omega) ?_
    -- what is stored is what `left` says was copied
    have hlen := ℓ.user.readLen_le (buf + 4 * i) 4
    have hpend := Bars.ReadOnly.pending hs hoff bar (wordAt (ℓ.user.fetch (buf + 4 * i) 4) 0)
    have hword : bar = .system →
        ¬ (ℓ.user.readLen (buf + 4 * i) 4 = 4 ∧ ℓ.signals.getD 0 false = false) →
        ∀ v, readOnlyWord (BitVec.ofNat 32 (t.offset + 4 * i)) = some v →
          ((B.bars d s).setWord bar (t.offset / 4 + i)
            (wordAt (ℓ.user.fetch (buf + 4 * i) 4) 0)).reg
              (BitVec.ofNat 32 (t.offset + 4 * i)) = v := by
      rintro rfl hnot v hv
      have := hleft rfl 0 (Nat.succ_pos k) (fun j' hj' => absurd hj' (Nat.not_lt_zero _)) hnot v hv
      rw [← this, Bars.reg, hoff]
      simp [Bars.setWord]
    rw [wp_ite]
    refine ⟨fun hne => sectionWp_exit _ ?_, fun hne => ?_⟩
    · rw [Board.ReadOnly, bars_put hd]
      exact hpend.same fun hsys => hword hsys fun h => hne (by omega)
    rw [wp_bind]
    refine sectionWp_action hd hpend (fun hsys hintr => hword hsys fun h => ?_)
      fun r s' hs' hr => ?_
    · rw [headD_eq_getD, h.2] at hintr
      cases hintr
    rw [wp_ite]
    refine ⟨fun _ => sectionWp_exit _ hs', fun hr₀ => ?_⟩
    rw [wp_bind, wp_getPos, wp_bind, wp_setPos]
    refine ih hs' (by omega) fun hsys j hj hdone hnot v hv => ?_
    subst hsys
    simp only [if_true, getD_tail, Nat.add_assoc, Nat.add_comm 1] at hdone hnot hv ⊢
    refine hleft rfl (j + 1) (by omega) (fun j' hj' => ?_) hnot v hv
    -- the word just written is done, too
    cases j' with
    | zero =>
      dsimp only at hne
      rw [Nat.add_zero, ← headD_eq_getD]
      exact ⟨by omega, hr rfl (not_not.1 hr₀)⟩
    | succ j' => exact hdone j' (by omega)

/-- `mtcaDummy_write_no_struct` restores the registers of its device. -/
theorem sectionWp_writeNoStruct {buf count : ℕ} {ℓ : Local} (hcount : count ≤ maxRwCount)
    (hok : ok → ¬ SpoilsWriteNoStruct B d buf count ℓ) :
    sectionWp B d ok (mtcaDummyWriteNoStruct B d buf count) Outside ℓ none := by
  refine sectionWp_flag (fun _ => rfl) fun _ writeFail => ?_
  rw [sectionWp, wp_ite]
  refine ⟨fun _ => rfl, fun _ => ?_⟩
  rw [wp_bind, wp_getPos]
  dsimp only
  cases hcheck : checkAndCalculateTransferInformation (B.dummyPrivateData d) count ℓ.fPos with
  | error transferInfoError => rfl
  | ok t =>
    have ht := check_ok hcheck
    obtain ⟨bar, hnum, hbase, hsize⟩ := ht.exists_bar
    refine sectionWp_device rfl fun hadm s hs => ?_
    refine sectionWp_writeLoop hd hnum hbase ht.offset_mod hs ?_ fun hsys j hj hdone hnot v hv => ?_
    · have := ht.nBytes_le (hcount.trans_lt (by decide))
      have := ht.offset_le
      have := bar.size_le
      omega
    · by_contra hne
      simp only [getD_tail, Nat.zero_add] at hdone hnot hv hne
      refine hok hadm ⟨t, hcheck, by rw [hnum, hsys]; rfl, j, hj, fun j' hj' => ?_, fun h => ?_,
        v, hv, hne⟩
      · have := hdone j' hj'
        rwa [show j' + 1 + 1 = 2 + j' by omega] at this
      · rw [WordDone, show 2 + j = j + 1 + 1 by omega] at h
        exact hnot h

omit hd in
theorem readOnly_dependsOn (hd : d < N) :
    Conc.DependsOn (B.ReadOnly d) ((B.protection True).Guards (.devMutex d)) := by
  intro s s' h hs o v hv
  have hlt : o.toNat < nRegisters * 4 := by
    rcases Bars.readOnlyWord_cases hv with rfl | rfl | rfl <;> decide
  rw [← hs o v hv]
  exact (h (.word (B.dummyPrivateData d).systemBar (o.toNat / 4))
    (And.intro trivial ⟨hd, inBar_reg hlt⟩)).symm

omit hd in
/-- A call that is no write to the device leaves its bars alone. -/
theorem restores_of_writes {e : Entry N} {ℓ : Local} (he : (e.body B ℓ).All fun i =>
      ∀ l, i.Writes l → ¬ ∃ b j, l = .word b j ∧ B.IsBar d b) :
    Restores (B.protection True) (.devMutex d) (B.ReadOnly d) ok (e.body B ℓ) := by
  refine (Entry.disciplined False.elim).restores (he.mono fun i hi l hl hg => hi l hl ?_)
  cases l with
  | word b j => exact ⟨b, j, rfl, hg.2.2.isBar⟩
  | _ => exact hg.elim

end

/-! ## All calls -/

/-- **Every call restores the read only registers of every device**, if it does
    not spoil them. -/
theorem Entry.restores {B : Board N} (e : Entry N) (ℓ : Local) (d : Fin N) :
    Restores (B.protection True) (.devMutex d) (B.ReadOnly d) (¬ e.Spoils B ℓ) (e.body B ℓ) := by
  cases hd : e.device with
  | none =>
    cases e with
    | procWrite ubuf count =>
      refine restores_of_writes ((every_procWrite ubuf _ ℓ).mono fun i hi l hl => ?_)
      rintro ⟨b, j, rfl, -⟩
      obtain ⟨f, hf⟩ := hi _ hl.touches
      cases hf
    | _ => cases hd
  | some d' =>
    by_cases hw : d = d' ∧ e.effect = .bars
    · obtain ⟨rfl, heff⟩ := hw
      cases e with
      | write d' buf count =>
        cases hd
        exact sectionWp_writeStruct d.isLt id
      | writeNoStruct d' buf count =>
        cases hd
        exact sectionWp_writeNoStruct d.isLt (Nat.min_le_right _ _) id
      | _ => cases heff
    · refine restores_of_writes (Entry.writes_no_bar d.isLt hd ?_ ℓ)
      by_cases hne : d = d'
      · exact .inr fun h => hw ⟨hne, h⟩
      · exact .inl fun h => hne (Fin.ext h)

/-- No call that would leave a read only register overwritten enters the
    section of its device. -/
def Admitted {ι : Type} (B : Board N) (e : ι → Entry N) (ℓ : ι → Local)
    (cfg : Config ι Loc.Val Mutex Note (ℤ × Local)) (ev : Event ι) : Prop :=
  ∀ t d k, ev = .step t → cfg.thread t = .running (.op (.lock (.devMutex d) false) k) →
    ¬ (e t).Spoils B (ℓ t)

/-- The read only registers of a module just loaded. -/
theorem readOnly_ready {B : Board N} {mem : Ptr → ℕ → U32} {d : ℕ} (hd : d < N)
    (hB : B.dummyPrivateData = readyData N) : B.ReadOnly d (readyStore mem N) := by
  intro o v hv
  have hbar : (B.dummyPrivateData d).systemBar = 2 * d + 1 := by
    rw [hB, readyData, if_pos hd]
    rfl
  have hb : 2 * d + 1 ≠ 0 ∧ 2 * d + 1 ≤ 2 * N := by omega
  simp only [Bars.reg, Board.bars, hbar, readyStore, hb]
  rcases Bars.readOnlyWord_cases hv with rfl | rfl | rfl <;> cases hv <;>
    simp [Nat.add_mod, nRegisters, initialSystemBar, wordFirmware, wordCompilation, wordDummy]

/-- **The read only registers.**  In a run of a module just loaded in which
    no call that spoils a register enters the section of its device, the read
    only registers of a device hold their contents whenever its mutex is
    free. -/
theorem readOnly_words_hold {ι : Type} [DecidableEq ι] {k : Outcomes} {mem : Ptr → ℕ → U32}
    (hN : N ≤ 2 ^ 32) (hl : (loaded N k mem).1 = 0) {e : ι → Entry N} {ℓ : ι → Local}
    {h : List (Event ι)} {cfg : Config ι Loc.Val Mutex Note (ℤ × Local)}
    (hr : RunIf (Admitted (Board.loaded hl hN) e ℓ) ((Board.loaded hl hN).calls e ℓ)
      (loaded N k mem).2.store h cfg)
    (d : Fin N) (hfree : cfg.owner (.devMutex d) = none) :
    ((Board.loaded hl hN).bars d cfg.store).reg wordFirmware = drvVersionMaj ∧
    ((Board.loaded hl hN).bars d cfg.store).reg wordCompilation = drvVersionMin ∧
    ((Board.loaded hl hN).bars d cfg.store).reg wordDummy = dmmyAsAscii := by
  have hro : (Board.loaded hl hN).ReadOnly d cfg.store := by
    refine RunIf.invariant (P := (Board.loaded hl hN).protection True) (readOnly_dependsOn d.isLt)
      (fun t => (e t).restores (ℓ t) d) (fun cfg t k hA ht => hA t d k rfl ht) ?_ hr hfree
    rw [(loaded_ready hl).store]
    exact readOnly_ready d.isLt (loaded_ready hl).data
  exact ⟨hro _ _ rfl, hro _ _ rfl, hro _ _ rfl⟩

/-- A write of zero to `WORD_DUMMY` of device 6. -/
theorem readOnly_words_hold_write_dummy : ∃ h cfg,
    Run (loadedBoard.calls (fun _ : Unit => .writeNoStruct 6 0 4) fun _ =>
      ⟨.ofBytes fun _ => 0, [], 0x3C, none, []⟩)
      (loaded nrDevs .success fun _ _ => 0#32).2.store h cfg ∧
    (∃ a, cfg.thread () = .done a) ∧
    (loadedBoard.bars 6 cfg.store).reg wordDummy = dmmyAsAscii := by
  obtain ⟨h, hr⟩ := (Run.nil (c := loadedBoard.calls (fun _ : Unit => .writeNoStruct 6 0 4) fun _ =>
      ⟨.ofBytes fun _ => 0, [], 0x3C, none, []⟩)
      (s := (loaded nrDevs .success fun _ _ => 0#32).2.store)).call
    (t := ()) rfl (fun _ => rfl) (Entry.disciplined_any _ _)
  have hA : ∀ cfg ev, Admitted loadedBoard (fun _ : Unit => .writeNoStruct 6 0 4)
      (fun _ => ⟨.ofBytes fun _ => 0, [], 0x3C, none, []⟩) cfg ev := by
    rintro cfg ev t d k - - ⟨t, -, -, i, -, -, hnot, -⟩
    exact hnot ⟨rfl, by simp⟩
  exact ⟨_, _, hr, ⟨_, rfl⟩, (readOnly_words_hold (by decide) (loaded_success _ _)
    (hr.runIf hA) 6 rfl).2.2⟩

/-- A write of `WORD_DUMMY` of device 6 whose copy from the user fails leaves
    the register overwritten. -/
theorem dummy_overwritten_on_fault : ∃ h cfg,
    Run (loadedBoard.calls (fun _ : Unit => .writeNoStruct 6 0 4) fun _ =>
      ⟨noUser, [], 0x3C, none, []⟩) (loaded nrDevs .success fun _ _ => 0#32).2.store h cfg ∧
    (∀ m, cfg.owner m = none) ∧ (loadedBoard.bars 6 cfg.store).reg wordDummy ≠ dmmyAsAscii := by
  rw [loaded_success_store]
  obtain ⟨h, hr⟩ := (Run.nil (c := loadedBoard.calls (fun _ : Unit => .writeNoStruct 6 0 4) fun _ =>
      ⟨noUser, [], 0x3C, none, []⟩) (s := readyStore (fun _ _ => 0#32) nrDevs)).call
    (t := ()) rfl (fun _ => rfl) (Entry.disciplined_any _ _)
  refine ⟨_, _, hr, fun _ => rfl, ?_⟩
  have hdata : loadedBoard.dummyPrivateData 6 = ⟨6#32, 13, 14, some (slotOps 6)⟩ := by
    rw [loadedBoard_data]
    rfl
  have hdev : loadedBoard.dummyPrivateData (6 : Fin nrDevs) =
      ⟨6#32, 13, 14, some (slotOps 6)⟩ := by
    rw [loadedBoard_data]
    rfl
  have hcheck : checkAndCalculateTransferInformation ⟨6#32, 13, 14, some (slotOps 6)⟩ 4 0x3C =
      .ok ⟨0#32, 0x3C, 128, 13, 4⟩ := rfl
  have hflag : (readyStore (fun _ _ => 0#32) nrDevs) (.flag .writeError) = false := rfl
  have hfault : noUser.readLen 0 4 = 0 := rfl
  have hzero : wordAt (noUser.fetch 0 4) 0 = 0#32 := rfl
  rw [finish_calls_store]
  simp [Entry.body, maxRwCount, mtcaDummyWriteNoStruct, hdata, hdev, hcheck, hflag,
    writeNoStructLoop, hfault, hzero, Config.start, Board.bars, Bars.reg, wordDummy, dmmyAsAscii]

end MtcaDummy

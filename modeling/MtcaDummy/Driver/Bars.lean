/-
  What a device is for: two bars of words, where the firmware reacts to a write
  of bar 0.

  `Bars` is the contents of the two bars.  `Bars.action` is the reaction,
  `Bars.write` a word write with its reaction; they are stated on the contents
  alone.  `Board.put` embeds the contents in a store.  The `exec` lemmas say
  that the code of the firmware computes these functions.
-/
import MtcaDummy.Driver.Init
import MtcaDummy.Driver.RwNoStruct

namespace MtcaDummy

/-- The contents of the bars of a device. -/
structure Bars where
  system : ℕ → U32
  dma : ℕ → U32

/-- The two bars. -/
inductive Bar where
  | system
  | dma
  deriving DecidableEq

namespace Bar

/-- The number a request gives the bar. -/
def number : Bar → U32
  | system => 0#32
  | dma => 2#32

/-- Its size in bytes. -/
def size : Bar → ℕ
  | system => nRegisters * 4
  | dma => dmaSize

/-- The block it is stored in. -/
def base (data : MtcaDummyData) : Bar → Ptr
  | system => data.systemBar
  | dma => data.dmaBar

end Bar

/-- The bar of a request through the struct interface. -/
theorem structBar_eq_some {data : MtcaDummyData} {barx : U32} {p : Ptr} {size : ℕ}
    (h : structBar data barx = some (p, size)) :
    ∃ bar : Bar, barx = bar.number ∧ p = bar.base data ∧ size = bar.size := by
  unfold structBar at h
  split at h
  · rename_i hbar
    cases h
    exact ⟨.system, hbar, rfl, rfl⟩
  · split at h
    · rename_i hbar
      cases h
      exact ⟨.dma, hbar, rfl, rfl⟩
    · cases h

/-- The bar of a transfer through the other interface. -/
theorem TransferInformation.Checked.exists_bar {data : MtcaDummyData} {count pos : ℕ}
    {t : TransferInformation} (h : t.Checked data count pos) :
    ∃ bar : Bar, t.bar = bar.number ∧ t.barStart = bar.base data ∧
      t.barSizeInBytes = bar.size := by
  have hbar := h.bar
  unfold noStructBar at hbar
  split at hbar
  · rename_i hn
    injection hbar with hbar
    injection hbar with hp hsize
    exact ⟨.system, hn, hp.symm, hsize.symm⟩
  split at hbar
  · rename_i hn
    injection hbar with hbar
    injection hbar with hp hsize
    exact ⟨.dma, hn, hp.symm, hsize.symm⟩
  split at hbar
  · injection hbar with hbar
    injection hbar with hp hsize
    exact absurd hp.symm h.barStart_ne
  · cases hbar

theorem Bar.size_le (bar : Bar) : bar.size ≤ dmaSize := by
  cases bar <;> decide

theorem TransferInformation.Checked.offset_mod {data : MtcaDummyData} {count pos : ℕ}
    {t : TransferInformation} (h : t.Checked data count pos) : t.offset % 4 = 0 := by
  have hoff : t.offset = pos % 2 ^ 60 := by
    rw [h.offset_eq, ← Nat.and_two_pow_sub_one_eq_mod]
  have := h.pos_mod
  omega

/-- The transfer ends in the bar. -/
theorem TransferInformation.Checked.nBytes_le {data : MtcaDummyData} {count pos : ℕ}
    {t : TransferInformation} (h : t.Checked data count pos) (hcount : count < 2 ^ 32) :
    t.offset + t.nBytesToTransfer ≤ t.barSizeInBytes := by
  obtain ⟨bar, -, -, hsize⟩ := h.exists_bar
  have hle := h.offset_le
  have hbar := bar.size_le
  have hdma : dmaSize = 4096 := rfl
  rw [h.nBytes_eq]
  split <;> omega

/-! ## The reaction of the firmware -/

/-- Writes to these registers are answered with an error. -/
def brokenOffset (offset : U32) : Bool := offset = brokenRegister ∨ offset = brokenWrite

/-- The content of a read only register. -/
def readOnlyWord (offset : U32) : Option U32 :=
  if offset = wordFirmware then some drvVersionMaj
  else if offset = wordCompilation then some drvVersionMin
  else if offset = wordDummy then some dmmyAsAscii
  else none

namespace Bars

variable (b : Bars)

/-- A word of a bar. -/
def word : Bar → ℕ → U32
  | .system => b.system
  | .dma => b.dma

/-- A word replaced. -/
def setWord : Bar → ℕ → U32 → Bars
  | .system, i, v => { b with system := Function.update b.system i v }
  | .dma, i, v => { b with dma := Function.update b.dma i v }

/-- A register, by its byte address. -/
def reg (addr : U32) : U32 := b.system (addr.toNat / 4)

def setReg (addr v : U32) : Bars :=
  { b with system := Function.update b.system (addr.toNat / 4) v }

/-- A register is read back as written, the others are unchanged. -/
theorem reg_setReg (o o' v : U32) :
    (b.setReg o v).reg o' = if o'.toNat / 4 = o.toNat / 4 then v else b.reg o' := by
  simp [reg, setReg, Function.update_apply]

/-- `n` samples of the parabola. -/
def sample (n : ℕ) : Bars :=
  { b with dma := fun i => if i < n then BitVec.ofNat 32 (i * i) else b.dma i }

/-- The clock counters and multiplexers reset. -/
def resetClocks : Bars :=
  (((((b.setReg wordClkCnt0 0#32).setReg wordClkCnt1 0#32).setReg wordClkMux0 0#32).setReg
    wordClkMux1 0#32).setReg wordClkMux2 0#32).setReg wordClkMux3 0#32

/-- A transfer of the SPI: it succeeds if it was requested and the SPI works. -/
def spiTransfer (spiFail : Bool) : Bars :=
  if b.reg wordSpiSync = spiSyncRequested ∧ spiFail = false then
    (b.setReg wordSpiRead (b.reg wordSpiWrite)).setReg wordSpiSync spiSyncOk
  else b.setReg wordSpiSync spiSyncError

/-- The reaction to a write of a register. -/
def action (spiFail : Bool) (offset : U32) : Bars :=
  if offset = wordClkRst then if b.reg wordClkRst ≠ 0#32 then b.resetClocks else b
  else if offset = wordAdcEna then
    if b.reg wordAdcEna ≠ 0#32 then
      ((b.sample 25).setReg wordClkCnt0 25#32).setReg wordClkRst 0#32
    else b
  else if offset = wordSpiWrite then b.spiTransfer spiFail
  else match readOnlyWord offset with
    | some v => b.setReg offset v
    | none => b

/-- Word `i` of a bar written, with the reaction to it. -/
def write (spiFail : Bool) : Bar → ℕ → U32 → Bars
  | .system, i, v => (b.setWord .system i v).action spiFail (BitVec.ofNat 32 (4 * i))
  | .dma, i, v => b.setWord .dma i v

end Bars

/-- The write of word `i` of a bar is answered with an error. -/
def Bar.rejects : Bar → ℕ → Bool
  | .system, i => brokenOffset (BitVec.ofNat 32 (4 * i))
  | .dma, _ => false

/-! ## The contents in a store -/

variable {N : ℕ} (B : Board N) (d : ℕ)

/-- The contents of the bars of device `d`. -/
def Board.bars (s : Store) : Bars where
  system i := s (.word (B.dummyPrivateData d).systemBar i)
  dma i := s (.word (B.dummyPrivateData d).dmaBar i)

/-- The contents of the bars of device `d` replaced. -/
def Board.put (b : Bars) (s : Store) : Store
  | .word p i =>
    if p = (B.dummyPrivateData d).systemBar then b.system i
    else if p = (B.dummyPrivateData d).dmaBar then b.dma i
    else s (.word p i)
  | .flag f => s (.flag f)
  | .inUse n => s (.inUse n)

section
variable {B : Board N} {d : ℕ} {b : Bars} {s : Store}

theorem put_bars : B.put d (B.bars d s) s = s := by
  funext l
  cases l with
  | word p i =>
    simp only [Board.put, Board.bars]
    split
    · rename_i h
      rw [h]
    · split
      · rename_i h
        rw [h]
      · rfl
  | _ => rfl

@[simp] theorem put_put (b' : Bars) : B.put d b' (B.put d b s) = B.put d b' s := by
  funext l
  cases l with
  | word p i =>
    simp only [Board.put]
    split_ifs <;> rfl
  | _ => rfl

@[simp] theorem put_flag (f : Flag) : B.put d b s (.flag f) = s (.flag f) := rfl

@[simp] theorem put_inUse (n : ℕ) : B.put d b s (.inUse n) = s (.inUse n) := rfl

section
variable (hd : d < N)
include hd

theorem dmaBar_ne_systemBar :
    (B.dummyPrivateData d).dmaBar ≠ (B.dummyPrivateData d).systemBar :=
  (B.systemBar_ne_dmaBar d hd d hd).symm

theorem bars_put : B.bars d (B.put d b s) = b := by
  simp [Board.bars, Board.put, dmaBar_ne_systemBar hd]

/-- A word of a bar is read from its contents ... -/
theorem put_word (bar : Bar) (i : ℕ) :
    B.put d b s (.word (bar.base (B.dummyPrivateData d)) i) = b.word bar i := by
  cases bar <;> simp [Board.put, Bar.base, Bars.word, dmaBar_ne_systemBar hd]

/-- ... and written to them. -/
theorem update_put_word (bar : Bar) (i : ℕ) (v : U32) :
    Function.update (B.put d b s) (.word (bar.base (B.dummyPrivateData d)) i) v =
      B.put d (b.setWord bar i v) s := by
  funext l
  have hne := dmaBar_ne_systemBar (B := B) hd
  cases l with
  | word p j =>
    cases bar with
    | system =>
      by_cases hp : p = (B.dummyPrivateData d).systemBar
      · simp [Board.put, Bar.base, Bars.setWord, hp, Function.update_apply]
      · simp [Board.put, Bar.base, Bars.setWord, hp]
    | dma =>
      by_cases hp : p = (B.dummyPrivateData d).dmaBar
      · simp [Board.put, Bar.base, Bars.setWord, hp, hne, Function.update_apply]
      · simp [Board.put, Bar.base, Bars.setWord, hp]
  | flag f => simp
  | inUse n => simp

/-! ## The code computes these functions -/

variable (ℓ : Local)

theorem exec_loadBar (bar : Bar) (i : ℕ) :
    exec (loadWord (bar.base (B.dummyPrivateData d)) i) ℓ (B.put d b s) =
      ⟨b.word bar i, ℓ, B.put d b s⟩ := by
  rw [exec_loadWord, put_word hd]

theorem exec_storeBar (bar : Bar) (i : ℕ) (v : U32) :
    exec (storeWord (bar.base (B.dummyPrivateData d)) i v) ℓ (B.put d b s) =
      ⟨(), ℓ, B.put d (b.setWord bar i v) s⟩ := by
  rw [exec_storeWord, update_put_word hd]

theorem exec_getReg (addr : U32) :
    exec (getReg (B.dummyPrivateData d).systemBar addr) ℓ (B.put d b s) =
      ⟨b.reg addr, ℓ, B.put d b s⟩ :=
  exec_loadBar hd ℓ .system _

theorem exec_setReg (addr v : U32) :
    exec (setReg (B.dummyPrivateData d).systemBar addr v) ℓ (B.put d b s) =
      ⟨(), ℓ, B.put d (b.setReg addr v) s⟩ :=
  exec_storeBar hd ℓ .system _ _

theorem exec_sampleLoop (k n : ℕ) :
    exec (sampleLoop (B.dummyPrivateData d).dmaBar k n) ℓ (B.put d (b.sample n) s) =
      ⟨(), ℓ, B.put d (b.sample (n + k)) s⟩ := by
  induction k generalizing n with
  | zero => rfl
  | succ k ih =>
    have hstep := exec_storeBar (B := B) (b := b.sample n) (s := s) hd ℓ .dma n
      (BitVec.ofNat 32 (n * n))
    have hset : (b.sample n).setWord .dma n (BitVec.ofNat 32 (n * n)) = b.sample (n + 1) := by
      simp only [Bars.setWord, Bars.sample, Bars.mk.injEq, true_and]
      funext i
      rcases Nat.lt_trichotomy i n with h | rfl | h
      · simp [Function.update_of_ne h.ne, h, Nat.lt_succ_of_lt h]
      · simp
      · simp [Function.update_of_ne h.ne', Nat.not_lt_of_gt h, show ¬ i < n + 1 by omega]
    rw [hset] at hstep
    simp only [Bar.base] at hstep
    rw [sampleLoop, exec_bind, hstep, next_mk, ih, Nat.add_right_comm, Nat.add_assoc]

omit hd in
theorem brokenOffset_of_readOnly {offset v : U32} (h : readOnlyWord offset = some v) :
    brokenOffset offset = false := by
  unfold readOnlyWord at h
  split_ifs at h with h₁ h₂ h₃
  · rw [h₁]; rfl
  · rw [h₂]; rfl
  · rw [h₃]; rfl

/-- **The switch of the firmware is the reaction.** -/
theorem exec_actionOnWriteSwitch (spiFail : Bool) (offset : U32) :
    exec (actionOnWriteSwitch B spiFail offset (B.dummyPrivateData d).slotNr) ℓ (B.put d b s) =
      ⟨if brokenOffset offset then -1 else 0, ℓ, B.put d (b.action spiFail offset) s⟩ := by
  have hsample : exec (sampleLoop (B.dummyPrivateData d).dmaBar 25 0) ℓ (B.put d b s) =
      ⟨(), ℓ, B.put d (b.sample 25) s⟩ := exec_sampleLoop (b := b) hd ℓ 25 0
  simp only [actionOnWriteSwitch, B.slotNr_eq d hd, exec_ite]
  by_cases h₁ : offset = wordClkRst
  · subst h₁
    by_cases hv : b.reg wordClkRst = 0#32
    · simp [exec_getReg hd, Bars.action, hv]
      decide
    · simp [exec_getReg hd, exec_setReg hd, Bars.action, Bars.resetClocks, hv]
      decide
  by_cases h₂ : offset = wordAdcEna
  · subst h₂
    by_cases hv : b.reg wordAdcEna = 0#32
    · simp [exec_getReg hd, Bars.action, hv, h₁]
      decide
    · simp [exec_getReg hd, exec_setReg hd, hsample, Bars.action, hv, h₁]
      decide
  by_cases h₃ : offset = wordSpiWrite
  · subst h₃
    have hne : wordSpiWrite ≠ wordFirmware ∧ wordSpiWrite ≠ wordCompilation ∧
        wordSpiWrite ≠ wordDummy ∧ ¬ (wordSpiWrite = brokenRegister ∨ wordSpiWrite = brokenWrite) ∧
        brokenOffset wordSpiWrite = false := by decide
    by_cases hv : b.reg wordSpiSync = spiSyncRequested ∧ spiFail = false
    · simp [exec_getReg hd, exec_setReg hd, Bars.action, Bars.spiTransfer, hv, h₁, h₂, hne]
    · simp [exec_getReg hd, exec_setReg hd, Bars.action, Bars.spiTransfer, hv, h₁, h₂, hne]
  simp only [h₁, h₂, h₃, if_false, Bars.action]
  cases hv : readOnlyWord offset with
  | some v =>
    rw [brokenOffset_of_readOnly hv]
    unfold readOnlyWord at hv
    split_ifs at hv <;> cases hv <;> simp_all [exec_setReg hd]
  | none =>
    unfold readOnlyWord at hv
    split_ifs at hv with h₄ h₅ h₆
    simp only [h₄, h₅, h₆, if_false, brokenOffset, exec_pure, decide_eq_true_eq]
    split_ifs <;> rfl

/-- **The action on a write is the reaction**, if its lock attempt is not
    interrupted. -/
theorem exec_performActionOnWrite (bar : Bar) (offset : U32) :
    exec (mtcadummyPerformActionOnWrite B offset bar.number (B.dummyPrivateData d).slotNr) ℓ
        (B.put d b s) =
      match bar with
      | .dma => ⟨0, ℓ, B.put d b s⟩
      | .system =>
        if ℓ.signals.headD false then
          ⟨-ERESTARTSYS, { ℓ with signals := ℓ.signals.tail }, B.put d b s⟩
        else
          ⟨if brokenOffset offset then -1 else 0, { ℓ with signals := ℓ.signals.tail },
            B.put d (b.action (s (.flag .spiError)) offset) s⟩ := by
  unfold mtcadummyPerformActionOnWrite
  cases bar with
  | dma => rfl
  | system =>
    simp only [Bar.number, ne_eq, not_true_eq_false, if_false, exec_bind, exec_lock, next_mk]
    cases ℓ.signals.headD false with
    | true => rfl
    | false =>
      simp only [Bool.false_eq_true, if_false, exec_bind, exec_controlData, next_mk, exec_unlock,
        put_flag, exec_actionOnWriteSwitch hd]

end

end

/-- The words of the bars of a module just loaded. -/
def initialWord : Bar → ℕ → U32
  | .system => initialSystemBar
  | .dma => fun _ => 0#32

theorem readyStore_bar {B : Board N} (hB : B.dummyPrivateData = readyData N)
    (mem : Ptr → ℕ → U32) {d : ℕ} (hd : d < N) {bar : Bar} {i : ℕ} (hi : i < bar.size / 4) :
    readyStore mem N (.word (bar.base (B.dummyPrivateData d)) i) = initialWord bar i := by
  rw [hB, readyData, if_pos hd]
  cases bar with
  | system =>
    have hb : 2 * d + 1 ≠ 0 ∧ 2 * d + 1 ≤ 2 * N := by omega
    have hi' : i < nRegisters := Nat.lt_of_lt_of_eq hi (by decide)
    simp [Bar.base, readyDevice, readyStore, initialWord, hb, hi', Nat.add_mod]
  | dma =>
    have hb : 2 * d + 2 ≠ 0 ∧ 2 * d + 2 ≤ 2 * N := by omega
    have hi' : i < dmaSize / 4 := hi
    simp [Bar.base, readyDevice, readyStore, initialWord, hb, hi']

end MtcaDummy

/-
  What the write of one word through the struct interface changes.

  `sideEffect` is the register table: the words that the firmware changes
  besides the one written.  `single_word_write`: a write changes exactly what
  the table says.  `failed_write_keeps`: a write that fails changes nothing,
  except for one of a new value to a broken register, which is stored before
  it is rejected.
-/
import MtcaDummy.Driver.ProcFile
import MtcaDummy.Driver.Spi

namespace MtcaDummy

/-! ## The register table -/

/-- What a register holds after `v` was written to it. -/
def registerContent (i : ℕ) (v : U32) : U32 :=
  if i = 0x00 / 4 then drvVersionMaj
  else if i = 0x04 / 4 then drvVersionMin
  else if i = 0x3C / 4 then dmmyAsAscii
  else v

/-- The words that change, besides word `i` of bar 0, when `v` is written to
    it.  `granted` says that a transfer of the SPI would succeed. -/
def sideEffect (granted : Bool) (i : ℕ) (v : U32) : Bar → ℕ → Option U32
  | .system, j =>
    if i = 0x40 / 4 then
      if v ≠ 0#32 ∧ j ∈ [0x10 / 4, 0x14 / 4, 0x20 / 4, 0x24 / 4, 0x28 / 4, 0x2C / 4] then some 0#32
      else none
    else if i = 0x44 / 4 then
      if v ≠ 0#32 ∧ j = 0x10 / 4 then some 25#32
      else if v ≠ 0#32 ∧ j = 0x40 / 4 then some 0#32
      else none
    else if i = 0x50 / 4 then
      if granted ∧ j = 0x54 / 4 then some v
      else if j = 0x58 / 4 then some (if granted then 0#32 else 0xAA#32)
      else none
    else none
  | .dma, j =>
    if i = 0x44 / 4 ∧ v ≠ 0#32 ∧ j < 25 then some (BitVec.ofNat 32 (j * j)) else none

namespace Bars
variable (b : Bars)

/-- A transfer of the SPI would succeed. -/
def grants (spiFail : Bool) : Bool := b.system (0x58 / 4) = 0xFF#32 ∧ spiFail = false

/-- Word `j` of a bar after the write of `v` to word `i` of bar 0, by the
    table. -/
def tabled (spiFail : Bool) (i : ℕ) (v : U32) (bar : Bar) (j : ℕ) : U32 :=
  if bar = .system ∧ j = i then registerContent i v
  else (sideEffect (b.grants spiFail) i v bar j).getD (b.word bar j)

end Bars

/-- The byte address of a word of bar 0. -/
theorem ofNat_eq_iff {i : ℕ} (hi : i < nRegisters) (addr : U32) :
    BitVec.ofNat 32 (4 * i) = addr ↔ 4 * i = addr.toNat := by
  have hn : nRegisters = 32 := rfl
  constructor
  · rintro rfl
    rw [BitVec.toNat_ofNat, Nat.mod_eq_of_lt (by omega)]
  · intro h
    rw [h, BitVec.ofNat_toNat, BitVec.setWidth_eq]

section
variable (b : Bars) (spiFail : Bool) (v : U32) (bar : Bar) (j : ℕ)

/-- The reset of the clocks. -/
theorem write_clkRst : (b.write spiFail .system 16 v).word bar j = b.tabled spiFail 16 v bar j := by
  have hw : b.write spiFail .system 16 v =
      if v ≠ 0#32 then (b.setWord .system 16 v).resetClocks else b.setWord .system 16 v := rfl
  have haddr : wordClkCnt0.toNat / 4 = 4 ∧ wordClkCnt1.toNat / 4 = 5 ∧ wordClkMux0.toNat / 4 = 8 ∧
      wordClkMux1.toNat / 4 = 9 ∧ wordClkMux2.toNat / 4 = 10 ∧ wordClkMux3.toNat / 4 = 11 := by
    decide
  rw [hw]
  by_cases hv : v = 0#32
  · rw [if_neg (not_not.2 hv)]
    cases bar <;> simp [hv, Bars.setWord, Bars.word, Bars.tabled, sideEffect, registerContent,
      Function.update_apply]
  · rw [if_pos hv]
    cases bar with
    | dma => rfl
    | system =>
      have hside : sideEffect (b.grants spiFail) 16 v .system j =
          if j ∈ [4, 5, 8, 9, 10, 11] then some 0#32 else none := by
        simp [sideEffect, hv]
      simp only [Bars.tabled, hside, Bars.setWord, Bars.word, Bars.resetClocks, Bars.setReg, haddr,
        Function.update_apply]
      by_cases hset : j = 4 ∨ j = 5 ∨ j = 8 ∨ j = 9 ∨ j = 10 ∨ j = 11 ∨ j = 16
      · rcases hset with rfl | rfl | rfl | rfl | rfl | rfl | rfl <;> rfl
      · simp only [not_or] at hset
        simp [hset]

/-- The samples. -/
theorem write_adcEna : (b.write spiFail .system 17 v).word bar j = b.tabled spiFail 17 v bar j := by
  have hw : b.write spiFail .system 17 v =
      if v ≠ 0#32 then (((b.setWord .system 17 v).sample 25).setReg wordClkCnt0 25#32).setReg
        wordClkRst 0#32
      else b.setWord .system 17 v := rfl
  have haddr : wordClkCnt0.toNat / 4 = 4 ∧ wordClkRst.toNat / 4 = 16 := by decide
  rw [hw]
  by_cases hv : v = 0#32
  · rw [if_neg (not_not.2 hv)]
    cases bar <;> simp [hv, Bars.setWord, Bars.word, Bars.tabled, sideEffect, registerContent,
      Function.update_apply]
  · rw [if_pos hv]
    cases bar with
    | dma =>
      simp only [Bars.setWord, Bars.word, Bars.tabled, sideEffect, Bars.sample, Bars.setReg]
      split_ifs <;> simp_all
    | system =>
      have hside : sideEffect (b.grants spiFail) 17 v .system j =
          if j = 4 then some 25#32 else if j = 16 then some 0#32 else none := by
        simp [sideEffect, hv]
      simp only [Bars.tabled, hside, Bars.setWord, Bars.word, Bars.sample, Bars.setReg, haddr,
        Function.update_apply]
      by_cases hset : j = 4 ∨ j = 16 ∨ j = 17
      · rcases hset with rfl | rfl | rfl <;> rfl
      · simp only [not_or] at hset
        simp [hset]

/-- The transfer of the SPI. -/
theorem write_spiWrite :
    (b.write spiFail .system 20 v).word bar j = b.tabled spiFail 20 v bar j := by
  have hto : WordWrite.To ⟨spiFail, .system, 20, v⟩ wordSpiWrite := ⟨rfl, rfl⟩
  have haddr : wordSpiRead.toNat / 4 = 21 ∧ wordSpiSync.toNat / 4 = 22 ∧
      wordSpiWrite.toNat / 4 = 20 := by decide
  have hgrants : b.grants spiFail = true ↔ WordWrite.Succeeds ⟨spiFail, .system, 20, v⟩ b := by
    simp only [Bars.grants, decide_eq_true_eq]
    exact (and_iff_right hto).symm
  have hw : b.write spiFail .system 20 v = b.after ⟨spiFail, .system, 20, v⟩ := rfl
  rw [hw]
  by_cases hs : WordWrite.Succeeds ⟨spiFail, .system, 20, v⟩ b
  · rw [Bars.after_of_succeeds hs]
    cases bar with
    | dma => rfl
    | system =>
      have hside : sideEffect true 20 v .system j =
          if j = 21 then some v else if j = 22 then some spiSyncOk else none := by
        simp [sideEffect, spiSyncOk]
      simp only [Bars.tabled, hgrants.2 hs, hside, Bars.word, Bars.setReg, haddr,
        Function.update_apply]
      by_cases hset : j = 20 ∨ j = 21 ∨ j = 22
      · rcases hset with rfl | rfl | rfl <;> rfl
      · simp only [not_or] at hset
        simp [hset]
  · rw [Bars.after_of_fails hto hs]
    have hno : b.grants spiFail = false := eq_false_of_ne_true fun h => hs (hgrants.1 h)
    cases bar with
    | dma => rfl
    | system =>
      have hside : sideEffect false 20 v .system j =
          if j = 22 then some spiSyncError else none := by
        simp [sideEffect, spiSyncError]
      simp only [Bars.tabled, hno, hside, Bars.word, Bars.setReg, haddr, Function.update_apply]
      by_cases hset : j = 20 ∨ j = 22
      · rcases hset with rfl | rfl <;> rfl
      · simp only [not_or] at hset
        simp [hset]

/-- Any other register. -/
theorem write_other {i : ℕ} (hi : i < nRegisters) (h : i ≠ 16 ∧ i ≠ 17 ∧ i ≠ 20) :
    (b.write spiFail .system i v).word bar j = b.tabled spiFail i v bar j := by
  have hn : nRegisters = 32 := rfl
  have hw : b.write spiFail .system i v = b.setWord .system i (registerContent i v) := by
    by_cases hro : i = 0 ∨ i = 1 ∨ i = 15
    · -- the word is repaired
      have hset : ∀ i x, (b.setWord .system i v).setWord .system i x = b.setWord .system i x :=
        fun i x => by simp only [Bars.setWord, Function.update_idem]
      rcases hro with rfl | rfl | rfl
      · exact hset 0 drvVersionMaj
      · exact hset 1 drvVersionMin
      · exact hset 15 dmmyAsAscii
    · -- there is no reaction
      have hne : ∀ addr : U32, addr.toNat / 4 ≠ i → BitVec.ofNat 32 (4 * i) ≠ addr :=
        fun addr hne he => hne (by rw [← (ofNat_eq_iff hi addr).1 he]; omega)
      simp only [Bars.write, Bars.action, readOnlyWord, registerContent,
        hne wordClkRst (Ne.symm h.1), hne wordAdcEna (Ne.symm h.2.1),
        hne wordSpiWrite (Ne.symm h.2.2), hne wordFirmware fun he => hro (.inl he.symm),
        hne wordCompilation fun he => hro (.inr (.inl he.symm)),
        hne wordDummy fun he => hro (.inr (.inr he.symm)), if_false]
      rw [if_neg fun he => hro (.inl he), if_neg fun he => hro (.inr (.inl he)),
        if_neg fun he => hro (.inr (.inr he))]
  rw [hw]
  obtain ⟨h₁, h₂, h₃⟩ := h
  cases bar <;> simp [Bars.tabled, sideEffect, h₁, h₂, h₃, Bars.setWord, Bars.word,
    Function.update_apply]

/-- **A write of bar 0 changes what the table says.** -/
theorem write_eq_tabled {i : ℕ} (hi : i < nRegisters) :
    (b.write spiFail .system i v).word bar j = b.tabled spiFail i v bar j := by
  by_cases h₁ : i = 16
  · rw [h₁, write_clkRst]
  by_cases h₂ : i = 17
  · rw [h₂, write_adcEna]
  by_cases h₃ : i = 20
  · rw [h₃, write_spiWrite]
  · exact write_other b spiFail v bar j hi ⟨h₁, h₂, h₃⟩

end

/-! ## A write of one word -/

section
variable {N : ℕ} {B : Board N} {d : Fin N} {ℓ : Local} {s : Store}

/-- A write through the struct interface, from any store. -/
theorem exec_structWrite (hℓ : ℓ.signals = []) (buf count : ℕ) :
    exec ((Entry.write d buf count).body B) ℓ s =
      let r := (B.bars d s).structWrite (fun _ => s) ℓ.user buf (min count maxRwCount)
      ⟨r.1, ℓ, B.put d r.2 s⟩ := by
  have hexec := exec_write (B := B) d.isLt (b := B.bars d s) hℓ buf (min count maxRwCount) s
  rw [put_bars] at hexec
  exact hexec

/-- The cells of other devices, and those that are no words, are kept. -/
theorem put_frame {b : Bars} {l : Loc}
    (hl : ∀ i, l ≠ .word (B.dummyPrivateData d).systemBar i ∧
      l ≠ .word (B.dummyPrivateData d).dmaBar i) : B.put d b s l = s l := by
  cases l with
  | word p i =>
    have hs : p ≠ (B.dummyPrivateData d).systemBar := fun h => (hl i).1 (by rw [h])
    have hd : p ≠ (B.dummyPrivateData d).dmaBar := fun h => (hl i).2 (by rw [h])
    simp only [Board.put, hs, hd, if_false]
  | _ => rfl

/-- The outcome of the write of a word: the request `r` to device `d` is
    refused, or changes what the register table says. -/
structure SingleWrite (B : Board N) (d : Fin N) (r : DeviceRw) (s : Store) (o : Outcome ℤ) :
    Prop where
  refused : (r.barxRw ≠ 0#32 ∧ r.barxRw ≠ 2#32) ∨ r.offsetRw.toNat % 4 ≠ 0 ∨
    (r.barxRw = 0#32 ∧ nRegisters * 4 ≤ r.offsetRw.toNat) ∨
    (r.barxRw = 2#32 ∧ dmaSize ≤ r.offsetRw.toNat) → o.val = -EFAULT ∧ o.store = s
  dma : r.barxRw = 2#32 → r.offsetRw.toNat % 4 = 0 → r.offsetRw.toNat < dmaSize →
    o.val = sizeofDeviceRw ∧ ∀ bar j, (B.bars d o.store).word bar j =
      if bar = .dma ∧ j = r.offsetRw.toNat / 4 then r.dataRw else (B.bars d s).word bar j
  system : r.barxRw = 0#32 → r.offsetRw.toNat % 4 = 0 → r.offsetRw.toNat < nRegisters * 4 →
    r.offsetRw ≠ brokenRegister → r.offsetRw ≠ brokenWrite →
    o.val = sizeofDeviceRw ∧ ∀ bar j, (B.bars d o.store).word bar j =
      (B.bars d s).tabled (s (.flag .spiError)) (r.offsetRw.toNat / 4) r.dataRw bar j
  /-- No other word, flag or counter changes. -/
  frame : ∀ l, (∀ i, l ≠ .word (B.dummyPrivateData d).systemBar i ∧
    l ≠ .word (B.dummyPrivateData d).dmaBar i) → o.store l = s l

/-- A request that names no word. -/
theorem DeviceRw.word_eq_none {r : DeviceRw} (h : (r.barxRw ≠ 0#32 ∧ r.barxRw ≠ 2#32) ∨
    r.offsetRw.toNat % 4 ≠ 0 ∨ (r.barxRw = 0#32 ∧ nRegisters * 4 ≤ r.offsetRw.toNat) ∨
    (r.barxRw = 2#32 ∧ dmaSize ≤ r.offsetRw.toNat)) : r.word = none := by
  unfold word
  cases hbar : Bar.ofNumber r.barxRw with
  | none => rfl
  | some bar =>
    have hnum := Bar.ofNumber_eq_some hbar
    rw [hnum] at h
    refine if_pos ?_
    cases bar with
    | system =>
      rcases h with h | h | h | h
      · exact absurd rfl h.1
      · exact .inl h
      · exact .inr h.2
      · exact absurd h.1 (by decide)
    | dma =>
      rcases h with h | h | h | h
      · exact absurd rfl h.2
      · exact .inl h
      · exact absurd h.1 (by decide)
      · exact .inr h.2

/-- A request that names one. -/
theorem DeviceRw.word_eq_some {r : DeviceRw} (bar : Bar) (hbar : r.barxRw = bar.number)
    (hmod : r.offsetRw.toNat % 4 = 0) (hlt : r.offsetRw.toNat < bar.size) :
    r.word = some (bar, r.offsetRw.toNat / 4) := by
  unfold word
  rw [hbar, Bar.ofNumber_number]
  exact if_neg (by omega)

/-- **A single-word write changes exactly what the register table says.** -/
theorem single_word_write {r : DeviceRw} {buf count : ℕ} (hr : ℓ.user.Request buf r)
    (hmode : r.modeRw = rwD32) (hcount : sizeofDeviceRw ≤ count) (hℓ : ℓ.signals = [])
    (hclear : s (.flag .writeError) = false) :
    SingleWrite B d r s (exec ((Entry.write d buf count).body B) ℓ s) := by
  have hmin : sizeofDeviceRw ≤ min count maxRwCount := by
    have hs : sizeofDeviceRw = 24 := rfl
    have hm : maxRwCount = 0x7FFFF000 := rfl
    omega
  have hword := structWord_of_request hr hmin hmode
  have hrun := exec_structWrite (B := B) (d := d) hℓ (s := s) buf count
  refine ⟨fun h => ?_, fun hbar hmod hlt => ?_, fun hbar hmod hlt hne hne' => ?_, fun l hl => ?_⟩
  · rw [DeviceRw.word_eq_none h] at hword
    rw [hrun, Bars.structWrite_none hword]
    exact ⟨rfl, put_bars⟩
  · rw [DeviceRw.word_eq_some .dma hbar hmod hlt] at hword
    rw [hrun, Bars.structWrite_some hclear hword]
    refine ⟨rfl, fun bar j => ?_⟩
    dsimp only
    rw [bars_put d.isLt]
    cases bar <;> simp [Bars.write, Bars.setWord, Bars.word, Function.update_apply]
  · rw [DeviceRw.word_eq_some .system hbar hmod hlt] at hword
    have hi : r.offsetRw.toNat / 4 < nRegisters := by
      have hn : nRegisters = 32 := rfl
      omega
    have hkeep : Bar.rejects .system (r.offsetRw.toNat / 4) = false := by
      simp [Bar.rejects, brokenOffset, ofNat_word _ hmod, hne, hne']
    rw [hrun, Bars.structWrite_some hclear hword, hkeep]
    refine ⟨rfl, fun bar j => ?_⟩
    dsimp only
    rw [bars_put d.isLt]
    exact write_eq_tabled _ _ _ bar j hi
  · rw [hrun]
    exact put_frame hl

end

/-- A process that asks for a write of 1 to `WORD_ADC_ENA`. -/
def samplesLocal : Local :=
  { user := UserMem.ofBytes (DeviceRw.bytes ⟨wordAdcEna, 1#32, rwD32, 0#32, 0#32, 0#32⟩) }

/-- The samples are taken. -/
theorem single_word_write_samples :
    SingleWrite loadedBoard (0 : Fin nrDevs) ⟨wordAdcEna, 1#32, rwD32, 0#32, 0#32, 0#32⟩ clearFlags
      (exec ((Entry.write (0 : Fin nrDevs) 0 24).body loadedBoard) samplesLocal clearFlags) :=
  single_word_write (UserMem.ofBytes_request _) rfl (by decide) rfl rfl

/-! ## A write that fails -/

section
variable {N : ℕ} {B : Board N} {d : Fin N} {ℓ : Local} {s : Store} {buf count : ℕ}

/-- If the write fails, no word of any device changes. -/
def FailsWithoutEffect (B : Board N) (d : Fin N) (buf count : ℕ) (ℓ : Local) (s : Store) : Prop :=
  (exec ((Entry.write d buf count).body B) ℓ s).val < 0 →
    ∀ e < N, B.bars e (exec ((Entry.write d buf count).body B) ℓ s).store = B.bars e s

/-- The request in the memory `u` is to write a new value to a broken
    register of device `d`. -/
structure StoresBroken (B : Board N) (d : Fin N) (u : UserMem) (buf count : ℕ) (s : Store) :
    Prop where
  clear : s (.flag .writeError) = false
  whole : sizeofDeviceRw ≤ count
  readable : u.Readable buf sizeofDeviceRw
  mode : (DeviceRw.ofBytes (u.fetch buf sizeofDeviceRw)).modeRw = rwD32
  bar : (DeviceRw.ofBytes (u.fetch buf sizeofDeviceRw)).barxRw = 0#32
  broken : brokenOffset (DeviceRw.ofBytes (u.fetch buf sizeofDeviceRw)).offsetRw = true
  differs : (DeviceRw.ofBytes (u.fetch buf sizeofDeviceRw)).dataRw ≠
    (B.bars d s).reg (DeviceRw.ofBytes (u.fetch buf sizeofDeviceRw)).offsetRw

theorem brokenOffset_iff {i : ℕ} (hi : i < nRegisters) :
    Bar.rejects .system i = true ↔ i = 18 ∨ i = 19 := by
  simp only [Bar.rejects, brokenOffset, decide_eq_true_eq, ofNat_eq_iff hi]
  have h₁ : brokenRegister.toNat = 72 := rfl
  have h₂ : brokenWrite.toNat = 76 := rfl
  omega

/-- The word named by a request. -/
theorem structWord_eq_some {u : UserMem} {bar : Bar} {i : ℕ} {v : U32}
    (h : structWord u buf count = some (bar, i, v)) :
    sizeofDeviceRw ≤ count ∧ u.Readable buf sizeofDeviceRw ∧
      ∃ r, DeviceRw.ofBytes (u.fetch buf sizeofDeviceRw) = r ∧ r.modeRw = rwD32 ∧
        r.barxRw = bar.number ∧ r.offsetRw = BitVec.ofNat 32 (4 * i) ∧ i < bar.size / 4 ∧
        r.dataRw = v := by
  have hi := structWord_inBar h
  unfold structWord at h
  dsimp only at h
  split_ifs at h with hok
  obtain ⟨hcount, hread, hmode⟩ := hok
  refine ⟨hcount, UserMem.readLen_eq_iff.1 hread, _, rfl, hmode, ?_⟩
  generalize DeviceRw.ofBytes (u.fetch buf sizeofDeviceRw) = r at *
  obtain ⟨⟨bar', i'⟩, hword, heq⟩ := Option.map_eq_some_iff.1 h
  cases heq
  unfold DeviceRw.word at hword
  split at hword
  · cases hword
  · rename_i bar' hbar
    split_ifs at hword with hoff
    cases hword
    exact ⟨Bar.ofNumber_eq_some hbar, (ofNat_word _ (by omega)).symm, hi, rfl⟩

/-- A write to a broken register stores the word. -/
theorem write_broken (b : Bars) (spiFail : Bool) (v : U32) {i : ℕ} (hi : i = 18 ∨ i = 19) :
    b.write spiFail .system i v = b.setWord .system i v := by
  rcases hi with rfl | rfl <;> rfl

theorem setWord_eq_self {b : Bars} {bar : Bar} {i : ℕ} {v : U32} :
    b.setWord bar i v = b ↔ v = b.word bar i := by
  constructor
  · intro h
    rw [← h]
    cases bar <;> simp [Bars.setWord, Bars.word]
  · rintro rfl
    cases bar with
    | system => exact congrArg (Bars.mk · b.dma) (Function.update_eq_self i b.system)
    | dma => exact congrArg (Bars.mk b.system) (Function.update_eq_self i b.dma)

/-- The bars of another device are kept. -/
theorem bars_put_other {b : Bars} {e : ℕ} (he : e < N) (hne : e ≠ d) :
    B.bars e (B.put d b s) = B.bars e s := by
  have hblock : ∀ p, B.IsBar e p → ∀ i, B.put d b s (.word p i) = s (.word p i) := by
    intro p hp i
    refine put_frame fun j => ⟨fun h => ?_, fun h => ?_⟩
    · injection h with h
      exact hne (hp.unique he d.isLt (.inl h))
    · injection h with h
      exact hne (hp.unique he d.isLt (.inr h))
  simp only [Board.bars, hblock _ (.inl rfl), hblock _ (.inr rfl)]

/-- A request to write a new value to a broken register names its word. -/
theorem StoresBroken.word {u : UserMem} (h : StoresBroken B d u buf count s) :
    ∃ i v, structWord u buf count = some (.system, i, v) ∧ (i = 18 ∨ i = 19) ∧
      v ≠ (B.bars d s).system i := by
  obtain ⟨-, hcount, hread, hmode, hbar, hbroken, hdiffers⟩ := h
  have hword : ∀ r : DeviceRw, r.barxRw = 0#32 → brokenOffset r.offsetRw = true →
      r.word = some (.system, r.offsetRw.toNat / 4) ∧
        (r.offsetRw.toNat / 4 = 18 ∨ r.offsetRw.toNat / 4 = 19) := by
    intro r hbar hbroken
    rcases of_decide_eq_true hbroken with h | h <;>
      exact ⟨DeviceRw.word_eq_some .system hbar (by rw [h]; rfl) (by rw [h]; decide),
        by rw [h]; decide⟩
  unfold structWord
  dsimp only
  generalize DeviceRw.ofBytes (u.fetch buf sizeofDeviceRw) = r at *
  refine ⟨r.offsetRw.toNat / 4, r.dataRw, ?_, (hword r hbar hbroken).2, hdiffers⟩
  rw [if_pos ⟨hcount, UserMem.readLen_eq_iff.2 hread, hmode⟩, (hword r hbar hbroken).1]
  rfl

/-- **A write that fails changes nothing**, unless it stores a new value in a
    broken register. -/
theorem failsWithoutEffect_iff (hℓ : ℓ.signals = []) :
    FailsWithoutEffect B d buf count ℓ s ↔
      ¬ StoresBroken B d ℓ.user buf (min count maxRwCount) s := by
  have hrun := exec_structWrite (B := B) (d := d) hℓ (s := s) buf count
  -- a call that keeps the bars of its device keeps all bars
  have hkeep : ∀ v, (B.bars d s).structWrite (fun _ => s) ℓ.user buf (min count maxRwCount) =
      (v, B.bars d s) → FailsWithoutEffect B d buf count ℓ s := fun v hv _ e he => by
    rw [hrun, hv]
    dsimp only
    rw [put_bars]
  cases hclear : s (.flag .writeError) with
  | true =>
    refine iff_of_true (hkeep (-EFAULT) ?_) fun h =>
      absurd (hclear.symm.trans h.clear) (by decide)
    simp [Bars.structWrite, hclear]
  | false =>
    cases hword : structWord ℓ.user buf (min count maxRwCount) with
    | none =>
      refine iff_of_true (hkeep _ (Bars.structWrite_none hword)) fun h => ?_
      obtain ⟨i, v, hsome, -⟩ := h.word
      cases hword.symm.trans hsome
    | some x =>
      obtain ⟨bar, i, v⟩ := x
      rw [Bars.structWrite_some hclear hword] at hrun
      by_cases hrej : bar.rejects i = true
      swap
      · -- the write succeeds
        refine iff_of_true (fun hneg => ?_) fun h => ?_
        · rw [hrun, if_neg hrej] at hneg
          exact absurd (show (24 : ℤ) < 0 from hneg) (by decide)
        · obtain ⟨i', v', hsome, hi', -⟩ := h.word
          cases hword.symm.trans hsome
          exact hrej (by rcases hi' with rfl | rfl <;> rfl)
      obtain ⟨hcount, hread, r, hr, hmode, hbar, hoff, hi, hdata⟩ := structWord_eq_some hword
      cases bar with
      | dma => cases hrej
      | system =>
        have hbroken := (brokenOffset_iff (show i < nRegisters from hi)).1 hrej
        rw [if_pos hrej, write_broken _ _ _ hbroken] at hrun
        have hreg : (B.bars d s).reg r.offsetRw = (B.bars d s).system i := by
          rw [Bars.reg, hoff]
          rcases hbroken with rfl | rfl <;> rfl
        constructor
        · -- the new value is stored
          intro hkept h
          have hneg : - EIO < 0 := by decide
          have hsame := hkept (by rw [hrun]; exact hneg) d d.isLt
          rw [hrun, bars_put d.isLt, setWord_eq_self] at hsame
          have hdiffers := h.differs
          rw [hr, hreg, hdata] at hdiffers
          exact hdiffers hsame
        · intro hno
          have hsame : v = (B.bars d s).word .system i := by
            by_contra hne
            refine hno ⟨hclear, hcount, hread, by rw [hr, hmode], by rw [hr]; exact hbar, ?_, ?_⟩
            · rw [hr, hoff]
              exact hrej
            · rw [hr, hreg, hdata]
              exact hne
          refine hkeep (- EIO) ?_
          rw [Bars.structWrite_some hclear hword, if_pos hrej, write_broken _ _ _ hbroken,
            setWord_eq_self.2 hsame]

/-- A write to device `d`, and the flags it finds. -/
structure StructWrite (N : ℕ) where
  device : Fin N
  buf : ℕ
  count : ℕ
  loc : Local
  flags : Flag → Bool

/-- The store after the write. -/
def StructWrite.run (B : Board N) (c : StructWrite N) (s : Store) : Store :=
  (exec ((Entry.write c.device c.buf c.count).body B) c.loc (s.withFlags c.flags)).store

/-- The store after a run of writes, between which the flags may change. -/
def runWrites (B : Board N) (cs : List (StructWrite N)) (s : Store) : Store :=
  cs.foldl (fun s c => c.run B s) s

/-- The write is not interrupted, and stores no new value in a broken
    register. -/
def StructWrite.Harmless (B : Board N) (c : StructWrite N) (s : Store) : Prop :=
  c.loc.signals = [] ∧
    ¬ StoresBroken B c.device c.loc.user c.buf (min c.count maxRwCount) (s.withFlags c.flags)

/-- The content of `BROKEN_WRITE` is its offset. -/
def Board.ContentIsOffset (B : Board N) (s : Store) : Prop :=
  ∀ d < N, (B.bars d s).reg brokenWrite = brokenWrite

/-- The reactions leave `BROKEN_WRITE` alone. -/
theorem write_brokenWrite (b : Bars) (spiFail : Bool) {bar : Bar} {i : ℕ} (hi : i < bar.size / 4)
    (v : U32) : (b.write spiFail bar i v).reg brokenWrite =
      if bar = .system ∧ i = 19 then v else b.reg brokenWrite := by
  cases bar with
  | dma => rfl
  | system =>
    have htable := write_eq_tabled b spiFail v .system 19 hi
    have hnone : ∀ granted, sideEffect granted i v .system 19 = none := fun granted => by
      simp [sideEffect]
    have hreg : ∀ b : Bars, b.reg brokenWrite = b.word .system 19 := fun _ => rfl
    rw [hreg, hreg, htable, Bars.tabled, hnone]
    by_cases h : i = 19
    · rw [if_pos ⟨rfl, h.symm⟩, if_pos ⟨rfl, h⟩, h]
      rfl
    · rw [if_neg fun h' => h h'.2.symm, if_neg fun h' => h h'.2]
      rfl

/-- One write keeps the content of `BROKEN_WRITE`. -/
theorem StructWrite.Harmless.keeps {c : StructWrite N} (hc : c.Harmless B s)
    (hs : B.ContentIsOffset s) : B.ContentIsOffset (c.run B s) := by
  obtain ⟨hℓ, hno⟩ := hc
  intro e he
  have hbars : ∀ e, B.bars e (s.withFlags c.flags) = B.bars e s := fun _ => rfl
  have hrun := exec_structWrite (B := B) (d := c.device) hℓ (s := s.withFlags c.flags) c.buf c.count
  rw [StructWrite.run, hrun]
  dsimp only
  by_cases hd : e = c.device
  swap
  · rw [bars_put_other he hd]
    exact hs e he
  subst hd
  rw [bars_put he]
  cases hclear : s.withFlags c.flags (.flag .writeError) with
  | true =>
    simp only [Bars.structWrite, hclear, if_true]
    exact hs _ he
  | false =>
    cases hword : structWord c.loc.user c.buf (min c.count maxRwCount) with
    | none =>
      rw [Bars.structWrite_none hword]
      exact hs _ he
    | some x =>
      obtain ⟨bar, i, v⟩ := x
      obtain ⟨hcount, hread, r, hr, hmode, hbar, hoff, hi, hdata⟩ := structWord_eq_some hword
      rw [Bars.structWrite_some hclear hword]
      refine (write_brokenWrite _ _ hi v).trans ?_
      split
      · rename_i h
        obtain ⟨rfl, rfl⟩ := h
        -- the value written is the one that is there
        by_contra hne
        refine hno ⟨hclear, hcount, hread, by rw [hr, hmode], by rw [hr]; exact hbar, ?_, ?_⟩
        · rw [hr, hoff]
          rfl
        · rw [hr, hoff, hdata, hbars]
          exact fun h => hne (h.trans (hs _ he))
      · exact hs _ he

/-- Runs of harmless writes keep it. -/
theorem runWrites_keeps {cs : List (StructWrite N)} {s₀ : Store} (hs₀ : B.ContentIsOffset s₀)
    (hcs : ∀ cs₁ c cs₂, cs = cs₁ ++ c :: cs₂ → c.Harmless B (runWrites B cs₁ s₀)) :
    B.ContentIsOffset (runWrites B cs s₀) := by
  induction cs generalizing s₀ with
  | nil => exact hs₀
  | cons c cs ih =>
    have hfirst : c.Harmless B s₀ := hcs [] c cs rfl
    exact ih (hfirst.keeps hs₀) fun cs₁ c' cs₂ h => hcs (c :: cs₁) c' cs₂ (by rw [h]; rfl)

/-- **A failed write has no effect**, and `BROKEN_WRITE` keeps its offset in
    runs of writes, unless a write stores a new value in a broken register. -/
theorem failed_write_keeps (hℓ : ℓ.signals = []) {cs : List (StructWrite N)} {s₀ : Store}
    (hs₀ : B.ContentIsOffset s₀)
    (hcs : ∀ cs₁ c cs₂, cs = cs₁ ++ c :: cs₂ → c.Harmless B (runWrites B cs₁ s₀)) :
    (FailsWithoutEffect B d buf count ℓ s ↔
      ¬ StoresBroken B d ℓ.user buf (min count maxRwCount) s) ∧
    B.ContentIsOffset (runWrites B cs s₀) :=
  ⟨failsWithoutEffect_iff hℓ, runWrites_keeps hs₀ hcs⟩

end

/-- The register `BROKEN_WRITE` of a module just loaded. -/
theorem contentIsOffset_ready {N : ℕ} {B : Board N} (hB : B.dummyPrivateData = readyData N)
    (mem : Ptr → ℕ → U32) : B.ContentIsOffset (readyStore mem N) := by
  intro d hd
  have hword := readyStore_bar hB mem hd (by decide : 19 < Bar.size .system / 4)
  have hinit : initialWord .system 19 = brokenWrite := by decide
  exact hword.trans hinit

/-- A process that asks for a write of 42 to `BROKEN_WRITE`. -/
def brokenLocal : Local :=
  { user := UserMem.ofBytes (DeviceRw.bytes ⟨brokenWrite, 42#32, rwD32, 0#32, 0#32, 0#32⟩) }

/-- A write to `WORD_ADC_ENA` is harmless. -/
theorem failed_write_keeps_samples :
    loadedBoard.ContentIsOffset (runWrites loadedBoard
      [⟨(0 : Fin nrDevs), 0, 24, samplesLocal, fun _ => false⟩]
      (readyStore (fun _ _ => 0#32) nrDevs)) := by
  have hno : ∀ s, ¬ StoresBroken loadedBoard (0 : Fin nrDevs) samplesLocal.user 0 24 s :=
    fun s h => by
      have hbroken := h.broken
      rw [samplesLocal, (UserMem.ofBytes_request _).ofBytes] at hbroken
      exact absurd hbroken (by decide)
  have hharmless : ∀ cs₁ c cs₂, [(⟨0, 0, 24, samplesLocal, fun _ => false⟩ : StructWrite nrDevs)] =
      cs₁ ++ c :: cs₂ →
      c.Harmless loadedBoard (runWrites loadedBoard cs₁ (readyStore (fun _ _ => 0#32) nrDevs)) :=
    fun cs₁ c cs₂ h => by
      have hmem : c ∈ cs₁ ++ c :: cs₂ := List.mem_append_right cs₁ List.mem_cons_self
      rw [← h] at hmem
      obtain rfl := List.eq_of_mem_singleton hmem
      exact ⟨rfl, hno _⟩
  exact (@failed_write_keeps _ loadedBoard (0 : Fin nrDevs) samplesLocal clearFlags 0 24 rfl _ _
    (contentIsOffset_ready loadedBoard_data _) hharmless).2

/-- The register holds 42 after the write to it has failed. -/
theorem broken_write_stored :
    ¬ FailsWithoutEffect loadedBoard (0 : Fin nrDevs) 0 24 brokenLocal
      (readyStore (fun _ _ => 0#32) nrDevs) := by
  rw [failsWithoutEffect_iff rfl, not_not]
  have hr : DeviceRw.ofBytes (brokenLocal.user.fetch 0 sizeofDeviceRw) =
      ⟨brokenWrite, 42#32, rwD32, 0#32, 0#32, 0#32⟩ := (UserMem.ofBytes_request _).ofBytes
  have hcontent := contentIsOffset_ready loadedBoard_data (fun _ _ => 0#32) 0 (by decide)
  refine ⟨rfl, by decide, fun _ _ => rfl, by rw [hr], by rw [hr], by rw [hr]; decide, ?_⟩
  rw [hr]
  intro h
  exact absurd (h.trans hcontent) (by decide)

end MtcaDummy

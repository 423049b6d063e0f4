/-
  What the two clients of the automatic test do, method by method.

  `ReaderWriter.Works` says what a client does to the words of the bars and to
  the memory of the process, when no error switch makes it fail.  The client
  with struct and the other one both work.
-/
import MtcaDummy.Driver.ReaderWriter

namespace MtcaDummy

/-! ## The clients -/

/-- The methods of the class `ReaderWriter`.  A read of a word is `none` if it
    throws, the others return whether they throw. -/
structure ReaderWriter where
  readSingle (offset bar : U32) : KM (Option U32)
  readArea (offset bar nWords : U32) (readBuffer : ℕ) : KM Bool
  writeSingle (offset bar value : U32) : KM Bool
  writeArea (offset bar nWords : U32) (writeBuffer : ℕ) : KM Bool

section
variable {N : ℕ} (B : Board N) (d : Fin N) (frame : ℕ)

/-- `returnValue` is on the stack. -/
def NormalReaderWriter.readSingle (offset bar : U32) : KM (Option U32) := do
  if ← readArea B d offset bar 1#32 frame then
    return none
  let u ← getUser
  return some (u.word frame)

/-- So is the argument `value`. -/
def NormalReaderWriter.writeSingle (offset bar value : U32) : KM Bool := do
  setUser frame 4 (byteOf value)
  writeArea B d offset bar 1#32 frame

def structReaderWriter : ReaderWriter where
  readSingle := StructReaderWriter.readSingle B d frame
  readArea := StructReaderWriter.readArea B d frame
  writeSingle := StructReaderWriter.writeSingle B d frame
  writeArea := StructReaderWriter.writeArea B d frame

def normalReaderWriter : ReaderWriter where
  readSingle := NormalReaderWriter.readSingle B d frame
  readArea := NormalReaderWriter.readArea B d
  writeSingle := NormalReaderWriter.writeSingle B d frame
  writeArea := NormalReaderWriter.writeArea B d

end

/-! ## What the clients do -/

/-- `N_WORDS_DMA` -/
def nWordsDma : ℕ := dmaSize / 4

/-- A process with its stack frame at `frame` and a vector at `buf`. -/
structure TestProcess (frame buf : ℕ) (ℓ : Local) : Prop extends
    StructCaller frame buf nWordsDma ℓ where
  readableBuf : ℓ.user.Readable buf (4 * nWordsDma)
  writableBuf : ℓ.user.Writable buf (4 * nWordsDma)

namespace TestProcess
variable {frame buf a n : ℕ} {ℓ : Local} {u : UserMem}

theorem of_sameBut (h : TestProcess frame buf ℓ) (hu : ℓ.user.SameBut frame u) :
    TestProcess frame buf { ℓ with user := u } where
  toStructCaller := h.toStructCaller.of_sameBut hu
  readableBuf j hj := (congrFun hu.readable _).trans (h.readableBuf j hj)
  writableBuf j hj := (congrFun hu.writable _).trans (h.writableBuf j hj)

theorem set (h : TestProcess frame buf ℓ) (x k : ℕ) (src : ℕ → Byte) :
    TestProcess frame buf { ℓ with user := ℓ.user.set x k src } :=
  ⟨h.toStructCaller.set x k src, h.readableBuf, h.writableBuf⟩

/-- A part of the vector. -/
theorem normalPart (h : TestProcess frame buf ℓ) (ha : a + n ≤ nWordsDma) :
    NormalCaller (buf + 4 * a) n ℓ where
  signals := h.signals
  readable j hj := by
    rw [Nat.add_assoc]
    exact h.readableBuf _ (by omega)
  writable j hj := by
    rw [Nat.add_assoc]
    exact h.writableBuf _ (by omega)

/-- The stack frame of the other client holds one word. -/
theorem normalFrame (h : TestProcess frame buf ℓ) : NormalCaller frame 1 ℓ where
  signals := h.signals
  readable j hj := h.readable j (hj.trans (by decide))
  writable j hj := h.writable j (hj.trans (by decide))

end TestProcess

/-- A client does its work on the words of the bars, and changes nothing else
    of the process than its stack frame. -/
structure ReaderWriter.Works {N : ℕ} (rw : ReaderWriter) (B : Board N) (d : Fin N)
    (frame buf : ℕ) : Prop where
  readSingle : ∀ {ℓ : Local} {s : Store} (bar : Bar) (offset : U32) (w : ℕ),
    TestProcess frame buf ℓ → s (.flag .readError) = false → offset.toNat = 4 * w →
    w < bar.size / 4 → ∃ u, ℓ.user.SameBut frame u ∧
      exec (rw.readSingle offset bar.number) ℓ s =
        ⟨if bar.rejectsRead w then none else some ((B.bars d s).word bar w),
          { ℓ with user := u }, s⟩
  writeSingle : ∀ {ℓ : Local} {s : Store} (bar : Bar) (offset : U32) (w : ℕ) (v : U32),
    TestProcess frame buf ℓ → s (.flag .writeError) = false → offset.toNat = 4 * w →
    w < bar.size / 4 → ∃ u, ℓ.user.SameBut frame u ∧
      exec (rw.writeSingle offset bar.number v) ℓ s =
        ⟨bar.rejects w, { ℓ with user := u },
          B.put d ((B.bars d s).write (s (.flag .spiError)) bar w v) s⟩
  readArea : ∀ {ℓ : Local} {s : Store} (offset nWords : U32) (w a : ℕ),
    TestProcess frame buf ℓ → s (.flag .readError) = false → offset.toNat = 4 * w →
    w + nWords.toNat ≤ nWordsDma → a + nWords.toNat ≤ nWordsDma →
    ∃ u, (ℓ.user.set (buf + 4 * a) (4 * nWords.toNat)
        (wordBytes (B.bars d s).dma w)).SameBut frame u ∧
      exec (rw.readArea offset 2#32 nWords (buf + 4 * a)) ℓ s = ⟨false, { ℓ with user := u }, s⟩
  writeArea : ∀ {ℓ : Local} {s : Store} (offset nWords : U32) (w a : ℕ),
    TestProcess frame buf ℓ → s (.flag .writeError) = false → offset.toNat = 4 * w →
    w + nWords.toNat ≤ nWordsDma → a + nWords.toNat ≤ nWordsDma →
    ∃ u, ℓ.user.SameBut frame u ∧
      exec (rw.writeArea offset 2#32 nWords (buf + 4 * a)) ℓ s =
        ⟨false, { ℓ with user := u }, B.put d ((B.bars d s).overlaid w nWords.toNat
          fun j => ℓ.user.word (buf + 4 * (a + j))) s⟩

theorem UserMem.SameBut.trans {frame : ℕ} {u u' u'' : UserMem} (h : u.SameBut frame u')
    (h' : u'.SameBut frame u'') : u.SameBut frame u'' :=
  ⟨fun x hx => (h'.byte x hx).trans (h.byte x hx), h'.readable.trans h.readable,
    h'.writable.trans h.writable⟩

/-- Memory outside of the frame can be set before or after. -/
theorem UserMem.SameBut.set_apart {frame a n : ℕ} {u u' : UserMem} (h : u.SameBut frame u')
    (f : ℕ → Byte) : (u.set a n f).SameBut frame (u'.set a n f) where
  byte x hx := by
    rw [set_byte, set_byte, h.byte x hx]
  readable := h.readable
  writable := h.writable

/-- A word of a bar, by its address. -/
theorem lt_size_of_word {bar : Bar} {o w : ℕ} (ho : o = 4 * w) (hw : w < bar.size / 4) :
    o % 4 = 0 ∧ o < bar.size ∧ o / 4 = w := by
  omega

/-! ### The client with struct -/

section
variable {N : ℕ} {B : Board N} {d : Fin N} {frame buf : ℕ} {ℓ : Local} {s : Store}

theorem struct_readSingle (bar : Bar) (offset : U32) (w : ℕ) (h : TestProcess frame buf ℓ)
    (hclear : s (.flag .readError) = false) (hoff : offset.toNat = 4 * w)
    (hw : w < bar.size / 4) : ∃ u, ℓ.user.SameBut frame u ∧
      exec (StructReaderWriter.readSingle B d frame offset bar.number) ℓ s =
        ⟨if bar.rejectsRead w then none else some ((B.bars d s).word bar w),
          { ℓ with user := u }, s⟩ := by
  obtain ⟨hmod, hlt, hdiv⟩ := lt_size_of_word hoff hw
  obtain ⟨u, hu, hrun⟩ := exec_readSingle (B := B) (d := d) (s := s) h.toStructCaller offset
    bar.number
  unfold Bars.readSingle at hrun
  rw [hclear, if_neg Bool.false_ne_true, word_wordRequest rfl hmod hlt, hdiv] at hrun
  exact ⟨u, hu, hrun⟩

theorem struct_writeSingle (bar : Bar) (offset : U32) (w : ℕ) (v : U32)
    (h : TestProcess frame buf ℓ) (hclear : s (.flag .writeError) = false)
    (hoff : offset.toNat = 4 * w) (hw : w < bar.size / 4) : ∃ u, ℓ.user.SameBut frame u ∧
      exec (StructReaderWriter.writeSingle B d frame offset bar.number v) ℓ s =
        ⟨bar.rejects w, { ℓ with user := u },
          B.put d ((B.bars d s).write (s (.flag .spiError)) bar w v) s⟩ := by
  obtain ⟨hmod, hlt, hdiv⟩ := lt_size_of_word hoff hw
  obtain ⟨u, hu, hrun⟩ := exec_writeSingle (B := B) (d := d) (s := s) (b := B.bars d s)
    h.toStructCaller offset bar.number v
  unfold Bars.writeSingle at hrun
  rw [put_bars, hclear, if_neg Bool.false_ne_true, word_wordRequest rfl hmod hlt, hdiv] at hrun
  exact ⟨u, hu, hrun⟩

/-- The address of a word of an area of bar 2. -/
theorem toNat_areaOffset {offset : U32} {w i : ℕ} (hoff : offset.toNat = 4 * w)
    (hw : w + i < nWordsDma) : (BitVec.ofNat 32 (offset.toNat + i * 4)).toNat = 4 * (w + i) := by
  have hn : nWordsDma = 1024 := rfl
  rw [BitVec.toNat_ofNat]
  omega

theorem struct_readAreaLoop {offset : U32} {w a k i : ℕ} (h : TestProcess frame buf ℓ)
    (hclear : s (.flag .readError) = false) (hoff : offset.toNat = 4 * w)
    (hw : w + i + k ≤ nWordsDma) (ha : a + i + k ≤ nWordsDma) :
    ∃ u, (ℓ.user.set (buf + 4 * a + 4 * i) (4 * k) (wordBytes (B.bars d s).dma (w + i))).SameBut
        frame u ∧
      exec (StructReaderWriter.readAreaLoop B d frame offset 2#32 (buf + 4 * a) k i) ℓ s =
        ⟨false, { ℓ with user := u }, s⟩ := by
  induction k generalizing i ℓ with
  | zero => exact ⟨ℓ.user, by rw [Nat.mul_zero, UserMem.set_zero]; exact .refl _ _, rfl⟩
  | succ k ih =>
    obtain ⟨u, hu, hrun⟩ := struct_readSingle (B := B) (d := d) (s := s) .dma _ (w + i) h hclear
      (toNat_areaOffset hoff (by omega)) (show w + i < nWordsDma by omega)
    have hprocess := (h.of_sameBut hu).set (buf + 4 * a + 4 * i) 4
      (byteOf ((B.bars d s).dma (w + i)))
    obtain ⟨u', hu', hrest⟩ := ih hprocess (i := i + 1) (by omega) (by omega)
    refine ⟨u', UserMem.SameBut.trans ?_ hu', ?_⟩
    · -- the first word and those that follow it
      have hset : ℓ.user.set (buf + 4 * a + 4 * i) (4 * (k + 1))
          (wordBytes (B.bars d s).dma (w + i)) =
          (ℓ.user.set (buf + 4 * a + 4 * i) 4 (byteOf ((B.bars d s).dma (w + i)))).set
            (buf + 4 * a + 4 * (i + 1)) (4 * k) (wordBytes (B.bars d s).dma (w + (i + 1))) := by
        rw [show buf + 4 * a + 4 * (i + 1) = buf + 4 * a + 4 * i + 4 by omega, UserMem.set_set,
          show 4 + 4 * k = 4 * (k + 1) by omega]
        refine UserMem.set_congr fun j hj => ?_
        split
        · exact wordBytes_of_lt ‹_›
        · exact (wordBytes_succ (Nat.not_lt.1 ‹_›)).symm
      rw [hset]
      exact (hu.set_apart _).set_apart _
    · have hword : exec (StructReaderWriter.readSingle B d frame
          (BitVec.ofNat 32 (offset.toNat + i * 4)) 2#32) ℓ s =
          ⟨some ((B.bars d s).dma (w + i)), { ℓ with user := u }, s⟩ := hrun
      rw [StructReaderWriter.readAreaLoop, exec_bind, hword, next_mk]
      dsimp only
      rw [exec_bind, exec_setUser, next_mk]
      exact hrest

theorem struct_writeAreaLoop {offset : U32} {w a k i : ℕ} {v : ℕ → U32}
    (h : TestProcess frame buf ℓ) (hclear : s (.flag .writeError) = false)
    (hoff : offset.toNat = 4 * w) (hw : w + i + k ≤ nWordsDma) (ha : a + i + k ≤ nWordsDma)
    (hv : ∀ j < nWordsDma, ℓ.user.word (buf + 4 * j) = v j) :
    ∃ u, ℓ.user.SameBut frame u ∧
      exec (StructReaderWriter.writeAreaLoop B d frame offset 2#32 (buf + 4 * a) k i) ℓ s =
        ⟨false, { ℓ with user := u },
          B.put d ((B.bars d s).overlaid (w + i) k fun j => v (a + i + j)) s⟩ := by
  induction k generalizing i ℓ s with
  | zero =>
    refine ⟨ℓ.user, .refl _ _, ?_⟩
    rw [Bars.overlaid, overlay_zero]
    exact congrArg (Outcome.mk false ℓ) put_bars.symm
  | succ k ih =>
    obtain ⟨u, hu, hrun⟩ := struct_writeSingle (B := B) (d := d) (s := s) .dma _ (w + i)
      (v (a + i)) h hclear (toNat_areaOffset hoff (by omega)) (show w + i < nWordsDma by omega)
    obtain ⟨u', hu', hrest⟩ := ih (h.of_sameBut hu)
      (s := B.put d ((B.bars d s).setWord .dma (w + i) (v (a + i))) s) (i := i + 1) hclear
      (by omega) (by omega) fun j hj => (h.toStructCaller.word_eq hu hj).trans (hv j hj)
    refine ⟨u', hu.trans hu', ?_⟩
    have hword : exec (StructReaderWriter.writeSingle B d frame
        (BitVec.ofNat 32 (offset.toNat + i * 4)) 2#32 (v (a + i))) ℓ s =
        ⟨false, { ℓ with user := u },
          B.put d ((B.bars d s).setWord .dma (w + i) (v (a + i))) s⟩ := hrun
    have hover : ((B.bars d s).setWord .dma (w + i) (v (a + i))).overlaid (w + (i + 1)) k
        (fun j => v (a + (i + 1) + j)) =
        (B.bars d s).overlaid (w + i) (k + 1) fun j => v (a + i + j) := by
      have hdma := overlay_update (f := (B.bars d s).dma) (w := w + i) (k := k)
        (v := fun j => v (a + i + j))
      simp only [← Nat.add_assoc, Nat.add_zero] at hdma ⊢
      exact congrArg (Bars.mk (B.bars d s).system) hdma
    rw [bars_put d.isLt, put_put, hover] at hrest
    rw [StructReaderWriter.writeAreaLoop, exec_bind, exec_getUser, next_mk,
      show buf + 4 * a + 4 * i = buf + 4 * (a + i) by omega, hv _ (by omega), exec_bind, hword,
      next_mk, exec_ite, if_neg Bool.false_ne_true]
    exact hrest

theorem structReaderWriter_works : (structReaderWriter B d frame).Works B d frame buf where
  readSingle := struct_readSingle
  writeSingle := struct_writeSingle
  readArea _ _ _ _ h hclear hoff hw ha := struct_readAreaLoop (i := 0) h hclear hoff hw ha
  writeArea _ _ _ _ h hclear hoff hw ha :=
    struct_writeAreaLoop (i := 0) h hclear hoff hw ha fun _ _ => rfl

end

/-! ### The other client -/

section
variable {N : ℕ} {B : Board N} {d : Fin N} {frame buf : ℕ} {ℓ : Local} {s : Store}

/-- A read that has room in the buffer and in the bar. -/
theorem normal_readArea (bar : Bar) {offset : U32} (nWords : U32) {w dst : ℕ}
    (h : NormalCaller dst nWords.toNat ℓ) (hclear : s (.flag .readError) = false)
    (hoff : offset.toNat = 4 * w) (hw : w + nWords.toNat ≤ bar.size / 4) :
    let g := okLen (fun i => !bar.rejectsRead i) w nWords.toNat
    exec (NormalReaderWriter.readArea B d offset bar.number nWords dst) ℓ s =
      ⟨decide (g < nWords.toNat),
        { ℓ with user := ℓ.user.set dst (4 * g) (wordBytes ((B.bars d s).word bar) w) }, s⟩ := by
  have hbar : ¬ bar.number > 5#32 := by cases bar <;> decide
  have hle := okLen_le (fun i => !bar.rejectsRead i) w nWords.toNat
  have hmin : min nWords.toNat (bar.size / 4 - w) = nWords.toNat := by omega
  dsimp only
  rw [exec_normalRead h hbar, hclear, Bars.noStructRead_ok (span_client hoff (by omega)), hmin]
  dsimp only
  rw [Bars.deliver_of_writable h.writable]
  dsimp only
  congr 1
  refine decide_eq_decide.2 ((getD_ne_iff (fun e he => ?_) (Nat.le_refl _)).trans ?_)
  · split at he
    · cases he
      decide
    · cases he
  · split <;> simp [*]

theorem normal_writeArea (bar : Bar) {offset : U32} (nWords : U32) {w src : ℕ}
    (h : NormalCaller src nWords.toNat ℓ) (hclear : s (.flag .writeError) = false)
    (hoff : offset.toNat = 4 * w) (hw : w + nWords.toNat ≤ bar.size / 4) :
    let r := Bars.block (fun _ => s (.flag .spiError)) bar w (ℓ.user.copyWord src) nWords.toNat 0
      (B.bars d s)
    exec (NormalReaderWriter.writeArea B d offset bar.number nWords src) ℓ s =
      ⟨r.err.isSome, ℓ, B.put d r.bars s⟩ := by
  have hbar : ¬ bar.number > 5#32 := by cases bar <;> decide
  have hflag : (fun _ => s : ℕ → Store) 0 (.flag .writeError) = false := hclear
  have hmin : min nWords.toNat (bar.size / 4 - w) = nWords.toNat := by omega
  have hrun := exec_normalWrite (B := B) (d := d) (s := s) (b := B.bars d s) h hbar offset
  rw [put_bars, Bars.noStructWrite_ok hflag (span_client hoff (by omega)), hmin] at hrun
  dsimp only at hrun ⊢
  rw [hrun]
  congr 1
  refine Bool.eq_iff_iff.2 (decide_eq_true_iff.trans
    ((getD_ne_iff (fun e he => Bars.block_err_lt he) (Nat.le_refl _)).trans ?_))
  rw [Option.isSome_iff_ne_none]
  simp

/-- A word on the stack. -/
theorem word_set (u : UserMem) (a : ℕ) {src : ℕ → Byte} {v : U32}
    (h : ∀ j < 4, src j = byteOf v j) : (u.set a 4 src).word a = v := by
  refine (wordAt_congr fun j hj => ?_).trans (wordAt_byteOf v)
  rw [Nat.zero_add, UserMem.set_byte, if_pos (by omega), Nat.add_sub_cancel_left, h j hj]

theorem sameBut_set (u : UserMem) (f : ℕ → Byte) : u.SameBut frame (u.set frame 4 f) where
  byte x hx := if_neg fun h => by
    have hsize : sizeofDeviceRw = 24 := rfl
    omega
  readable := rfl
  writable := rfl

theorem normal_readSingle (bar : Bar) (offset : U32) (w : ℕ) (h : TestProcess frame buf ℓ)
    (hclear : s (.flag .readError) = false) (hoff : offset.toNat = 4 * w)
    (hw : w < bar.size / 4) : ∃ u, ℓ.user.SameBut frame u ∧
      exec (NormalReaderWriter.readSingle B d frame offset bar.number) ℓ s =
        ⟨if bar.rejectsRead w then none else some ((B.bars d s).word bar w),
          { ℓ with user := u }, s⟩ := by
  have hrun := normal_readArea (B := B) (d := d) bar 1#32 h.normalFrame hclear hoff
    (show w + 1 ≤ bar.size / 4 by omega)
  dsimp only at hrun
  rw [NormalReaderWriter.readSingle, exec_bind, hrun, next_mk, exec_ite, exec_bind, exec_getUser]
  cases hrej : bar.rejectsRead w with
  | true =>
    have hg : okLen (fun i => !bar.rejectsRead i) w (1#32 : U32).toNat = 0 := by
      simp [okLen, hrej]
    rw [hg, UserMem.set_zero]
    exact ⟨ℓ.user, .refl _ _, rfl⟩
  | false =>
    have hg : okLen (fun i => !bar.rejectsRead i) w (1#32 : U32).toNat = 1 := by
      simp [okLen, hrej]
    rw [hg, next_mk, word_set _ _ fun j hj => wordBytes_of_lt hj]
    exact ⟨_, sameBut_set _ _, rfl⟩

/-- A transfer of one word. -/
theorem block_one (spiFail : Bool) (bar : Bar) (w : ℕ) {copy : ℕ → U32 × Bool} {v : U32} (b : Bars)
    (hcopy : copy 0 = (v, true)) :
    let r := Bars.block (fun _ => spiFail) bar w copy 1 0 b
    r.err.isSome = bar.rejects w ∧ r.bars = b.write spiFail bar w v := by
  dsimp only
  rw [Bars.block, hcopy, Nat.add_zero]
  cases bar.rejects w <;> exact ⟨rfl, rfl⟩

theorem normal_writeSingle (bar : Bar) (offset : U32) (w : ℕ) (v : U32)
    (h : TestProcess frame buf ℓ) (hclear : s (.flag .writeError) = false)
    (hoff : offset.toNat = 4 * w) (hw : w < bar.size / 4) : ∃ u, ℓ.user.SameBut frame u ∧
      exec (NormalReaderWriter.writeSingle B d frame offset bar.number v) ℓ s =
        ⟨bar.rejects w, { ℓ with user := u },
          B.put d ((B.bars d s).write (s (.flag .spiError)) bar w v) s⟩ := by
  have hset := (h.set frame 4 (byteOf v)).normalFrame
  have hrun := normal_writeArea (B := B) (d := d) bar 1#32 hset hclear hoff
    (show w + 1 ≤ bar.size / 4 by omega)
  have hcopy : (ℓ.user.set frame 4 (byteOf v)).copyWord frame 0 = (v, true) := by
    have hword : (ℓ.user.set frame 4 (byteOf v)).copyWord frame 0 =
        ((ℓ.user.set frame 4 (byteOf v)).word (frame + 4 * 0), true) :=
      copyWord_of_readable hset.readable fun _ _ => rfl
    rw [hword]
    exact congrArg (·, true) (word_set ℓ.user frame fun _ _ => rfl)
  obtain ⟨herr, hbars⟩ := block_one (s (.flag .spiError)) bar w (B.bars d s) hcopy
  refine ⟨_, sameBut_set ℓ.user (byteOf v), ?_⟩
  rw [NormalReaderWriter.writeSingle, exec_bind, exec_setUser, next_mk, hrun]
  dsimp only at herr hbars ⊢
  rw [show (1#32 : U32).toNat = 1 from rfl, herr, hbars]

theorem normalReaderWriter_works : (normalReaderWriter B d frame).Works B d frame buf where
  readSingle := normal_readSingle
  writeSingle := normal_writeSingle
  readArea offset nWords w a h hclear hoff hw ha := by
    have hrun := normal_readArea (B := B) (d := d) .dma nWords (h.normalPart ha) hclear hoff hw
    have hall : okLen (fun i => !Bar.rejectsRead .dma i) w nWords.toNat = nWords.toNat :=
      okLen_all fun _ _ => rfl
    dsimp only at hrun
    rw [hall, decide_eq_false (Nat.lt_irrefl _)] at hrun
    exact ⟨_, .refl _ _, hrun⟩
  writeArea {ℓ s} offset nWords w a h hclear hoff hw ha := by
    have hpart := h.normalPart ha
    have hrun := normal_writeArea (B := B) (d := d) .dma nWords hpart hclear hoff hw
    have hcopy : ∀ j < nWords.toNat, ℓ.user.copyWord (buf + 4 * a) j =
        (ℓ.user.word (buf + 4 * (a + j)), true) := fun j hj => by
      have hword : ℓ.user.copyWord (buf + 4 * a) j =
          (ℓ.user.word (buf + 4 * a + 4 * j), true) :=
        copyWord_of_readable
          (fun i hi => by rw [Nat.add_assoc]; exact hpart.readable _ (by omega)) fun _ _ => rfl
      rw [hword, show buf + 4 * a + 4 * j = buf + 4 * (a + j) by omega]
    rw [block_dma fun j hj => by rw [Nat.zero_add, hcopy j hj], Bars.overlaid,
      overlay_congr fun j hj => by rw [Nat.zero_add, hcopy j hj]] at hrun
    exact ⟨_, .refl _ _, hrun⟩

end

end MtcaDummy

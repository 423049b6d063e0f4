/-
  The automatic test (testMtcaDummy.cpp): six tests on a client of either
  interface, one suite for the client with struct on the first device, one for
  the other client on the device without struct.

  The tests are judged from `ReaderWriter.Works` alone, for both clients at
  once.  `automatic_test_verdicts`: with both device files open, whatever the
  bars contained and in whatever order the tests of the two suites run, each
  passes, but for `testReadSingle`, which finds the word that `testWriteSingle`
  increments.  The opens themselves, in the constructors of the clients, are
  not modelled.
-/
import MtcaDummy.Driver.Clients

namespace MtcaDummy

/-! ## The tests -/

/-- The loop that sets `n` words of a vector, from word `a` on, to the square
    of their index. -/
def assignSquares (a n : ℕ) (v : List U32) : List U32 :=
  (List.range' a n).foldl (fun v i => v.set i (BitVec.ofNat 32 (i * i))) v

/-- The member `bufferHelix`. -/
def bufferHelix : List U32 := assignSquares 0 25 (List.replicate nWordsDma 0#32)

/-- A vector is a value; it is in memory at `buf` when the address of an
    element is passed on. -/
def putVector (buf : ℕ) (v : List U32) : KM Unit := setUser buf (4 * v.length) (bytesOf v)

def getVector (buf n : ℕ) : KM (List U32) := do
  let u ← getUser
  return (List.range n).map fun i => u.word (buf + 4 * i)

section
variable (rw : ReaderWriter) (buf : ℕ)

/-- The constructor of `MtcaDummyTest`, which throws if the device cannot be
    written. -/
def mtcaDummyTest : KM Bool := do
  putVector buf bufferHelix
  rw.writeArea 0#32 2#32 (BitVec.ofNat 32 nWordsDma) buf

/-- A test passes if its checks hold and nothing else is thrown. -/
def testReadSingle : KM Bool := do
  let some dummy ← rw.readSingle wordDummy 0#32 | return false
  let some helix ← rw.readSingle (BitVec.ofNat 32 (8 * 4)) 2#32 | return false
  return dummy = dmmyAsAscii ∧ helix = BitVec.ofNat 32 (8 * 8)

def testReadSingleWithError : KM Bool := do
  let broken ← rw.readSingle brokenRegister 0#32
  let readable ← rw.readSingle brokenWrite 0#32
  return broken.isNone && readable.isSome

def testWriteSingle : KM Bool := do
  let some user ← rw.readSingle wordUser 0#32 | return false
  if ← rw.writeSingle wordUser 0#32 (user + 1#32) then
    return false
  let some userAfter ← rw.readSingle wordUser 0#32 | return false
  let some fromBar2 ← rw.readSingle 0x20#32 2#32 | return false
  if ← rw.writeSingle 0x20#32 2#32 (fromBar2 + 1#32) then
    return false
  let some bar2After ← rw.readSingle 0x20#32 2#32 | return false
  return userAfter = user + 1#32 ∧ bar2After = fromBar2 + 1#32

def testWriteSingleWithError : KM Bool := do
  let broken ← rw.writeSingle brokenRegister 0#32 42#32
  let brokenToo ← rw.writeSingle brokenWrite 0#32 42#32
  return broken && brokenToo

def testReadArea : KM Bool := do
  let startIndex := 13
  let nWordsToRead := 5
  putVector buf (List.replicate nWordsDma 0xB0B0B0B0#32)
  if ← rw.readArea (BitVec.ofNat 32 (startIndex * 4)) 2#32 (BitVec.ofNat 32 nWordsToRead)
      (buf + 4 * startIndex) then
    return false
  let readBuffer ← getVector buf nWordsDma
  return (List.range startIndex).all (fun i => readBuffer.getD i 0 = 0xB0B0B0B0#32) &&
    (List.range' startIndex nWordsToRead).all
      (fun i => readBuffer.getD i 0 = BitVec.ofNat 32 (i * i)) &&
    (List.range' (startIndex + nWordsToRead) (nWordsDma - (startIndex + nWordsToRead))).all
      (fun i => readBuffer.getD i 0 = 0xB0B0B0B0#32)

def testWriteArea : KM Bool := do
  if ← rw.writeSingle wordAdcEna 0#32 1#32 then
    return false
  let startIndex := 100
  let nWordsToRead := 8
  let expectedBuffer := assignSquares startIndex nWordsToRead bufferHelix
  putVector buf expectedBuffer
  if ← rw.writeArea (BitVec.ofNat 32 (startIndex * 4)) 2#32 (BitVec.ofNat 32 nWordsToRead)
      (buf + 4 * startIndex) then
    return false
  putVector buf (List.replicate nWordsDma 0#32)
  if ← rw.readArea 0#32 2#32 (BitVec.ofNat 32 nWordsDma) buf then
    return false
  let readBuffer ← getVector buf nWordsDma
  return readBuffer = expectedBuffer

end

/-- The test cases of a suite. -/
inductive TestCase where
  | readSingle
  | readSingleWithError
  | writeSingle
  | writeSingleWithError
  | readArea
  | writeArea
  deriving DecidableEq

def TestCase.run (rw : ReaderWriter) (buf : ℕ) : TestCase → KM Bool
  | readSingle => testReadSingle rw
  | readSingleWithError => testReadSingleWithError rw
  | writeSingle => testWriteSingle rw
  | writeSingleWithError => testWriteSingleWithError rw
  | readArea => testReadArea rw buf
  | writeArea => testWriteArea rw buf

/-- They are added in this order. -/
def TestCase.suite : List TestCase :=
  [readSingle, readSingleWithError, writeSingle, writeSingleWithError, readArea, writeArea]

/-- The two suites, by their devices. -/
inductive Suite where
  | mtcadummys0
  | pcieunidummys6
  deriving DecidableEq

namespace Suite

def slot : Suite → Fin nrDevs
  | mtcadummys0 => ⟨0, nrDevs_pos⟩
  | pcieunidummys6 => pcieuniSlot

def readerWriter (B : Board nrDevs) (frame : ℕ) : Suite → ReaderWriter
  | mtcadummys0 => structReaderWriter B mtcadummys0.slot frame
  | pcieunidummys6 => normalReaderWriter B pcieunidummys6.slot frame

/-- The tests in the order of `init_unit_test_suite`. -/
def registered : List (Suite × TestCase) :=
  TestCase.suite.map (mtcadummys0, ·) ++ TestCase.suite.map (pcieunidummys6, ·)

end Suite

section
variable (B : Board nrDevs) (frame buf : ℕ)

/-- Tests of the two suites, one after the other: which pass. -/
def runTests : List (Suite × TestCase) → KM (List Bool)
  | [] => return []
  | (i, t) :: ts => do
    let passed ← t.run (i.readerWriter B frame) buf
    return passed :: (← runTests ts)

/-- The program with both device files open: the suites are constructed, then
    the tests run; `none` if the constructor of a suite throws.  The client
    opens its file before, and throws if `open` fails. -/
def automaticTest (ts : List (Suite × TestCase)) : KM (Option (List Bool)) := do
  if ← mtcaDummyTest (Suite.mtcadummys0.readerWriter B frame) buf then
    return none
  if ← mtcaDummyTest (Suite.pcieunidummys6.readerWriter B frame) buf then
    return none
  return some (← runTests B frame buf ts)

end

/-! ## Vectors -/

section
variable {a n i : ℕ} {v : List U32}

theorem assignSquares_succ : assignSquares a (n + 1) v =
    assignSquares (a + 1) n (v.set a (BitVec.ofNat 32 (a * a))) := by
  rw [assignSquares, List.range'_succ, List.foldl_cons]
  rfl

@[simp] theorem length_assignSquares : (assignSquares a n v).length = v.length := by
  induction n generalizing a v with
  | zero => rfl
  | succ n ih => rw [assignSquares_succ, ih, List.length_set]

theorem getD_assignSquares (hv : a + n ≤ v.length) : (assignSquares a n v).getD i 0 =
    if a ≤ i ∧ i < a + n then BitVec.ofNat 32 (i * i) else v.getD i 0 := by
  induction n generalizing a v with
  | zero => exact (if_neg fun h => by omega).symm
  | succ n ih =>
    rw [assignSquares_succ, ih (by rw [List.length_set]; omega)]
    by_cases h : a = i
    · subst h
      rw [if_neg (by omega), if_pos (by omega), List.getD_eq_getElem?_getD, List.getElem?_set_self
        (by omega)]
      rfl
    · rw [List.getD_eq_getElem?_getD, List.getElem?_set_ne h, ← List.getD_eq_getElem?_getD]
      exact if_congr (by omega) rfl rfl

/-- Word `i` of the helix. -/
def helixWord (i : ℕ) : U32 := if i < 25 then BitVec.ofNat 32 (i * i) else 0#32

theorem length_bufferHelix : bufferHelix.length = nWordsDma := by
  rw [bufferHelix, length_assignSquares, List.length_replicate]

theorem getD_bufferHelix (i : ℕ) : bufferHelix.getD i 0 = helixWord i := by
  have hzero : (List.replicate nWordsDma 0#32).getD i 0 = 0#32 := by
    rw [List.getD_eq_getElem?_getD, List.getElem?_replicate]
    split <;> rfl
  rw [bufferHelix, getD_assignSquares (by rw [List.length_replicate]; decide), hzero]
  exact if_congr (by omega) rfl rfl

theorem getD_map_range (f : ℕ → U32) (hi : i < n) : ((List.range n).map f).getD i 0 = f i := by
  rw [List.getD_eq_getElem?_getD, List.getElem?_map, List.getElem?_range hi]
  rfl

theorem map_range_eq (f : ℕ → U32) (hv : ∀ i < v.length, f i = v.getD i 0) :
    (List.range v.length).map f = v := by
  refine List.ext_getElem (by rw [List.length_map, List.length_range]) fun i h₁ h₂ => ?_
  rw [List.getElem_map, List.getElem_range, hv i h₂, List.getD_eq_getElem?_getD,
    List.getElem?_eq_getElem h₂, Option.getD_some]

end

/-- The vector is in memory. -/
def Local.withVector (ℓ : Local) (buf : ℕ) (v : List U32) : Local :=
  { ℓ with user := ℓ.user.set buf (4 * v.length) (bytesOf v) }

section
variable {N : ℕ} {B : Board N} {d : Fin N} {frame buf : ℕ} {rw : ReaderWriter} {ℓ : Local}
  {s : Store} {v : List U32}

theorem exec_putVector (buf : ℕ) (v : List U32) (ℓ : Local) (s : Store) :
    exec (putVector buf v) ℓ s = ⟨(), ℓ.withVector buf v, s⟩ := rfl

theorem exec_getVector (buf n : ℕ) (ℓ : Local) (s : Store) :
    exec (getVector buf n) ℓ s =
      ⟨(List.range n).map fun i => ℓ.user.word (buf + 4 * i), ℓ, s⟩ := rfl

theorem TestProcess.withVector (h : TestProcess frame buf ℓ) (v : List U32) :
    TestProcess frame buf (ℓ.withVector buf v) := h.set _ _ _

/-- Its elements, from memory. -/
theorem word_withVector {i : ℕ} (hi : i < v.length) :
    (ℓ.withVector buf v).user.word (buf + 4 * i) = v.getD i 0 := by
  have hshift : wordAt (bytesOf v) (4 * i) = wordAt (fun j => bytesOf v (4 * i + j)) 0 := by
    simp only [wordAt, Nat.zero_add, Nat.add_zero]
  rw [← wordAt_bytesOf v i, hshift]
  refine wordAt_congr fun j hj => ?_
  rw [Local.withVector, Nat.zero_add, UserMem.set_byte, if_pos (by omega),
    show buf + 4 * i + j - buf = 4 * i + j by omega]

/-- Elements of a vector written to bar 2. -/
theorem ReaderWriter.Works.writeVector (hrw : rw.Works B d frame buf)
    (h : TestProcess frame buf ℓ) (hclear : s (.flag .writeError) = false)
    (hv : v.length = nWordsDma) (offset nWords : U32) (w a : ℕ) (hoff : offset.toNat = 4 * w)
    (hw : w + nWords.toNat ≤ nWordsDma) (ha : a + nWords.toNat ≤ nWordsDma) :
    ∃ u, TestProcess frame buf { ℓ with user := u } ∧
      exec (rw.writeArea offset 2#32 nWords (buf + 4 * a)) (ℓ.withVector buf v) s =
        ⟨false, { ℓ with user := u },
          B.put d ((B.bars d s).overlaid w nWords.toNat fun j => v.getD (a + j) 0) s⟩ := by
  obtain ⟨u, hu, hrun⟩ := hrw.writeArea offset nWords w a (h.withVector v) hclear hoff hw ha
  refine ⟨u, (h.withVector v).of_sameBut hu, hrun.trans ?_⟩
  rw [Bars.overlaid, overlay_congr fun j hj => word_withVector (by omega)]
  rfl

/-- Elements read from there, into a vector. -/
theorem ReaderWriter.Works.readVector (hrw : rw.Works B d frame buf)
    (h : TestProcess frame buf ℓ) (hclear : s (.flag .readError) = false)
    (hv : v.length = nWordsDma) (offset nWords : U32) (w a : ℕ) (hoff : offset.toNat = 4 * w)
    (hw : w + nWords.toNat ≤ nWordsDma) (ha : a + nWords.toNat ≤ nWordsDma) :
    ∃ u, TestProcess frame buf { ℓ with user := u } ∧
      exec (rw.readArea offset 2#32 nWords (buf + 4 * a)) (ℓ.withVector buf v) s =
        ⟨false, { ℓ with user := u }, s⟩ ∧
      ∀ i < nWordsDma, u.word (buf + 4 * i) =
        if a ≤ i ∧ i < a + nWords.toNat then (B.bars d s).dma (w + (i - a)) else v.getD i 0 := by
  have hvector := h.withVector v
  obtain ⟨u, hu, hrun⟩ := hrw.readArea offset nWords w a hvector hclear hoff hw ha
  refine ⟨u, (hvector.set _ _ _).of_sameBut hu, hrun, fun i hi => ?_⟩
  rw [(hvector.set _ _ _).toStructCaller.word_eq hu hi]
  split
  · refine (wordAt_congr fun j hj => ?_).trans (wordAt_byteOf _)
    rw [Nat.zero_add, UserMem.set_byte, if_pos (by omega), wordBytes,
      show w + (buf + 4 * i + j - (buf + 4 * a)) / 4 = w + (i - a) by omega,
      show (buf + 4 * i + j - (buf + 4 * a)) % 4 = j by omega]
  · rw [← word_withVector (ℓ := ℓ) (v := v) (hv ▸ hi)]
    refine wordAt_congr fun j hj => ?_
    rw [Nat.zero_add, UserMem.set_byte, if_neg (by omega)]

end

/-! ## What the tests find -/

/-- The bars that the tests leave, where word 8 of bar 2 was incremented `k`
    times since it was set.  The words that `testWriteArea` writes are
    arbitrary. -/
structure Tested (k : ℕ) (b : Bars) : Prop where
  dummy : b.system 15 = dmmyAsAscii
  helix : ∀ i < nWordsDma, i < 100 ∨ 108 ≤ i →
    b.dma i = helixWord i + if i = 8 then BitVec.ofNat 32 k else 0#32

/-- The test process with a device that has been tested. -/
structure TestReady {N : ℕ} (B : Board N) (d : Fin N) (frame buf k : ℕ) (ℓ : Local) (s : Store) :
    Prop extends TestProcess frame buf ℓ where
  readClear : s (.flag .readError) = false
  writeClear : s (.flag .writeError) = false
  tested : Tested k (B.bars d s)

/-- A test that passes if `passed`, on a device of which it leaves the bars
    tested. -/
structure Judged {N : ℕ} (B : Board N) (d : Fin N) (frame buf k : ℕ) (s : Store) (passed : Bool)
    (o : Outcome Bool) : Prop where
  val : o.val = passed
  process : TestProcess frame buf o.loc
  store : ∃ b, o.store = B.put d b s ∧ Tested k b

theorem word_setWord {b : Bars} (bar : Bar) {i : ℕ} {v : U32} :
    (b.setWord bar i v).word bar i = v := by
  cases bar <;> simp [Bars.setWord, Bars.word]

namespace Tested
variable {k : ℕ} {b : Bars}

/-- A word of the helix. -/
theorem square (h : Tested k b) {i : ℕ} (hi : i < 25) (h8 : i ≠ 8) :
    b.dma i = BitVec.ofNat 32 (i * i) := by
  have hn : nWordsDma = 1024 := rfl
  rw [h.helix i (by omega) (by omega), if_neg h8, helixWord, if_pos hi, BitVec.add_zero]

/-- A change of a word of bar 0 that the tests do not read. -/
theorem setSystem (h : Tested k b) {i : ℕ} (hi : i ≠ 15) (v : U32) :
    Tested k (b.setWord .system i v) where
  dummy := by
    rw [Bars.setWord]
    dsimp only
    rw [Function.update_of_ne hi.symm, h.dummy]
  helix := h.helix

/-- Word 8 is as it was set. -/
theorem word_eight_iff (h : Tested k b) :
    b.dma 8 = BitVec.ofNat 32 (8 * 8) ↔ k % 2 ^ 32 = 0 := by
  have hword : b.dma 8 = BitVec.ofNat 32 (8 * 8) + BitVec.ofNat 32 k :=
    h.helix 8 (by decide) (.inl (by decide))
  rw [hword, BitVec.add_right_eq_self, ← BitVec.toNat_inj, BitVec.toNat_ofNat]
  rfl

/-- The increment of word 8. -/
theorem increment (h : Tested k b) : Tested (k + 1) (b.setWord .dma 8 (b.dma 8 + 1#32)) where
  dummy := h.dummy
  helix i hi hrange := by
    have hword := h.helix i hi hrange
    rw [Bars.setWord]
    dsimp only
    by_cases h8 : i = 8
    · subst h8
      rw [Function.update_self, hword, if_pos rfl, if_pos rfl, BitVec.ofNat_add, BitVec.add_assoc]
    · rw [Function.update_of_ne h8, hword, if_neg h8, if_neg h8]

/-- The samples set it. -/
theorem sample (h : Tested k b) (spiFail : Bool) : Tested 0 (b.write spiFail .system 17 1#32) where
  dummy := by
    have hword := write_adcEna b spiFail 1#32 .system 15
    exact hword.trans h.dummy
  helix i hi hrange := by
    have hword := write_adcEna b spiFail 1#32 .dma i
    refine Eq.trans hword ?_
    have hzero : (if i = 8 then BitVec.ofNat 32 0 else 0#32) = 0#32 := ite_self _
    rw [hzero, BitVec.add_zero, helixWord]
    by_cases hi : i < 25
    · rw [if_pos hi]
      simp [Bars.tabled, sideEffect, hi]
    · rw [if_neg hi]
      have hkeep : b.dma i = helixWord i + _ := h.helix i ‹_› hrange
      rw [if_neg (by omega), helixWord, if_neg hi] at hkeep
      simpa [Bars.tabled, sideEffect, hi, Bars.word] using hkeep

/-- The bar after the area was written. -/
theorem overlaid_dma (h : Tested 0 b) {i : ℕ} (hi : i < nWordsDma) :
    (b.overlaid 100 8 fun j => (assignSquares 100 8 bufferHelix).getD (100 + j) 0).dma i =
      (assignSquares 100 8 bufferHelix).getD i 0 := by
  rw [Bars.overlaid]
  dsimp only
  rw [overlay]
  split
  · rw [Nat.add_sub_cancel' (by omega)]
  · rw [getD_assignSquares (by rw [length_bufferHelix]; decide), if_neg ‹_›, getD_bufferHelix,
      h.helix i hi (by omega), ite_self, BitVec.add_zero]

theorem overlaid (h : Tested 0 b) : Tested 0
    (b.overlaid 100 8 fun j => (assignSquares 100 8 bufferHelix).getD (100 + j) 0) where
  dummy := h.dummy
  helix i hi hrange := by
    rw [h.overlaid_dma hi, getD_assignSquares (by rw [length_bufferHelix]; decide),
      if_neg (by omega), getD_bufferHelix, ite_self, BitVec.add_zero]

/-- The bar after the helix was written. -/
theorem of_bufferHelix (hdummy : b.system 15 = dmmyAsAscii) :
    Tested 0 (b.overlaid 0 nWordsDma fun j => bufferHelix.getD (0 + j) 0) where
  dummy := hdummy
  helix i hi _ := by
    rw [Bars.overlaid]
    dsimp only
    rw [overlay, if_pos (by omega), Nat.zero_add, getD_bufferHelix, Nat.sub_zero, ite_self,
      BitVec.add_zero]

end Tested

namespace ReaderWriter.Works
variable {N : ℕ} {B : Board N} {d : Fin N} {frame buf k w : ℕ} {rw : ReaderWriter} {ℓ : Local}
  {s : Store}

/-- A word of bar 0 that can be read ... -/
theorem read_system (hrw : rw.Works B d frame buf) (h : TestReady B d frame buf k ℓ s)
    (offset : U32) (w : ℕ) (hoff : offset.toNat = 4 * w) (hw : w < nRegisters) (hne : w ≠ 18) :
    ∃ u, ℓ.user.SameBut frame u ∧ exec (rw.readSingle offset 0#32) ℓ s =
      ⟨some ((B.bars d s).system w), { ℓ with user := u }, s⟩ := by
  obtain ⟨u, hu, hrun⟩ := hrw.readSingle .system offset w h.toTestProcess h.readClear hoff hw
  have hgood : Bar.rejectsRead .system w = false := by
    rw [← Bool.not_eq_true, Bar.rejectsRead_iff hw]
    exact fun hrej => hne hrej.2
  rw [hgood] at hrun
  exact ⟨u, hu, hrun⟩

/-- ... and of bar 2. -/
theorem read_dma (hrw : rw.Works B d frame buf) (h : TestReady B d frame buf k ℓ s)
    (offset : U32) (w : ℕ) (hoff : offset.toNat = 4 * w) (hw : w < nWordsDma) :
    ∃ u, ℓ.user.SameBut frame u ∧ exec (rw.readSingle offset 2#32) ℓ s =
      ⟨some ((B.bars d s).dma w), { ℓ with user := u }, s⟩ :=
  hrw.readSingle .dma offset w h.toTestProcess h.readClear hoff hw

end ReaderWriter.Works

namespace TestReady
variable {N : ℕ} {B : Board N} {d : Fin N} {frame buf k k' : ℕ} {rw : ReaderWriter} {ℓ : Local}
  {s : Store} {u : UserMem} {b : Bars}

theorem of_sameBut (h : TestReady B d frame buf k ℓ s) (hu : ℓ.user.SameBut frame u) :
    TestReady B d frame buf k { ℓ with user := u } s :=
  ⟨h.toTestProcess.of_sameBut hu, h.readClear, h.writeClear, h.tested⟩

theorem put (h : TestReady B d frame buf k ℓ s) (hb : Tested k' b) :
    TestReady B d frame buf k' ℓ (B.put d b s) :=
  ⟨h.toTestProcess, h.readClear, h.writeClear, by rw [bars_put d.isLt]; exact hb⟩

/-- A test that leaves the bars as they are. -/
theorem judged (h : TestReady B d frame buf k ℓ s) {val passed : Bool} (hval : val = passed) :
    Judged B d frame buf k s passed ⟨val, ℓ, s⟩ :=
  ⟨hval, h.toTestProcess, B.bars d s, put_bars.symm, h.tested⟩

/-- One that changes them. -/
theorem judged_put (h : TestReady B d frame buf k' ℓ (B.put d b s)) (hb : Tested k b)
    {val passed : Bool} (hval : val = passed) :
    Judged B d frame buf k s passed ⟨val, ℓ, B.put d b s⟩ :=
  ⟨hval, h.toTestProcess, b, rfl, hb⟩

variable (hrw : rw.Works B d frame buf) (h : TestReady B d frame buf k ℓ s)
include hrw h

theorem judged_testReadSingle :
    Judged B d frame buf k s (decide (k % 2 ^ 32 = 0)) (exec (testReadSingle rw) ℓ s) := by
  obtain ⟨u₁, hu₁, h₁⟩ := hrw.read_system h wordDummy 15 rfl (by decide) (by decide)
  have hready₁ := h.of_sameBut hu₁
  obtain ⟨u₂, hu₂, h₂⟩ := hrw.read_dma hready₁ (BitVec.ofNat 32 (8 * 4)) 8 rfl (by decide)
  rw [testReadSingle, exec_bind, h₁, next_mk]
  dsimp only
  rw [exec_bind, h₂, next_mk]
  dsimp only
  rw [exec_pure]
  exact (hready₁.of_sameBut hu₂).judged
    (decide_eq_decide.2 ((and_iff_right h.tested.dummy).trans h.tested.word_eight_iff))

theorem judged_testReadSingleWithError :
    Judged B d frame buf k s true (exec (testReadSingleWithError rw) ℓ s) := by
  obtain ⟨u₁, hu₁, h₁⟩ := hrw.readSingle .system brokenRegister 18 h.toTestProcess h.readClear rfl
    (by decide)
  have hready₁ := h.of_sameBut hu₁
  obtain ⟨u₂, hu₂, h₂⟩ := hrw.read_system hready₁ brokenWrite 19 rfl (by decide) (by decide)
  have hthrows : exec (rw.readSingle brokenRegister 0#32) ℓ s = ⟨none, { ℓ with user := u₁ }, s⟩ :=
    h₁
  rw [testReadSingleWithError, exec_bind, hthrows, next_mk, exec_bind, h₂, next_mk]
  exact (hready₁.of_sameBut hu₂).judged rfl

/-- The first half of the test is on a word that no other test reads. -/
theorem judged_testWriteSingle :
    Judged B d frame buf (k + 1) s true (exec (testWriteSingle rw) ℓ s) := by
  obtain ⟨u₁, hu₁, h₁⟩ := hrw.read_system h wordUser 3 rfl (by decide) (by decide)
  have hready₁ := h.of_sameBut hu₁
  generalize (B.bars d s).system 3 = user at h₁
  -- the bars after the first write ...
  obtain ⟨b₁, hb₁⟩ : ∃ b, b = (B.bars d s).setWord .system 3 (user + 1#32) := ⟨_, rfl⟩
  have htested₁ : Tested k b₁ := hb₁ ▸ h.tested.setSystem (by decide) _
  have huser : b₁.system 3 = user + 1#32 := hb₁ ▸ word_setWord .system
  obtain ⟨u₂, hu₂, h₂⟩ : ∃ u, u₁.SameBut frame u ∧
      exec (rw.writeSingle wordUser 0#32 (user + 1#32)) { ℓ with user := u₁ } s =
        ⟨false, { ℓ with user := u }, B.put d b₁ s⟩ :=
    hb₁ ▸ hrw.writeSingle .system wordUser 3 (user + 1#32) hready₁.toTestProcess h.writeClear rfl
      (by decide)
  have hready₂ := (hready₁.of_sameBut hu₂).put htested₁
  obtain ⟨u₃, hu₃, h₃⟩ := hrw.read_system hready₂ wordUser 3 rfl (by decide) (by decide)
  have hready₃ := hready₂.of_sameBut hu₃
  obtain ⟨u₄, hu₄, h₄⟩ := hrw.read_dma hready₃ 0x20#32 8 rfl (by decide)
  have hready₄ := hready₃.of_sameBut hu₄
  -- ... and after the second
  obtain ⟨b₂, hb₂⟩ : ∃ b, b = b₁.setWord .dma 8 (b₁.dma 8 + 1#32) := ⟨_, rfl⟩
  have htested₂ : Tested (k + 1) b₂ := hb₂ ▸ htested₁.increment
  have hword : b₂.dma 8 = b₁.dma 8 + 1#32 := hb₂ ▸ word_setWord .dma
  rw [bars_put d.isLt] at h₃ h₄
  obtain ⟨u₅, hu₅, h₅⟩ := hrw.writeSingle .dma 0x20#32 8 (b₁.dma 8 + 1#32) hready₄.toTestProcess
    hready₄.writeClear rfl (by decide)
  have hwrite₅ : exec (rw.writeSingle 0x20#32 2#32 (b₁.dma 8 + 1#32)) { ℓ with user := u₄ }
      (B.put d b₁ s) = ⟨false, { ℓ with user := u₅ }, B.put d b₂ s⟩ := by
    refine Eq.trans h₅ ?_
    rw [bars_put d.isLt, put_put, hb₂]
    rfl
  have hready₅ := (((h.of_sameBut hu₁).of_sameBut hu₂).of_sameBut hu₃).of_sameBut (hu₄.trans hu₅)
  obtain ⟨u₆, hu₆, h₆⟩ := hrw.read_dma (hready₅.put htested₂) 0x20#32 8 rfl (by decide)
  rw [bars_put d.isLt] at h₆
  rw [testWriteSingle, exec_bind, h₁, next_mk]
  dsimp only
  rw [exec_bind, h₂, next_mk, exec_ite, if_neg Bool.false_ne_true, exec_bind, h₃, next_mk]
  dsimp only
  rw [exec_bind, h₄, next_mk]
  dsimp only
  rw [exec_bind, hwrite₅, next_mk, exec_ite, if_neg Bool.false_ne_true, exec_bind, h₆, next_mk]
  dsimp only
  rw [exec_pure, decide_eq_true ⟨huser, hword⟩]
  exact ⟨rfl, (hready₅.of_sameBut hu₆).toTestProcess, b₂, rfl, htested₂⟩

theorem judged_testWriteSingleWithError :
    Judged B d frame buf k s true (exec (testWriteSingleWithError rw) ℓ s) := by
  have hbroken : ∀ {i : ℕ}, i = 18 ∨ i = 19 → ∀ {b : Bars}, Tested k b →
      Tested k (b.write (s (.flag .spiError)) .system i 42#32) := fun hi b hb => by
    rw [write_broken b _ _ hi]
    exact hb.setSystem (by omega) _
  obtain ⟨u₁, hu₁, h₁⟩ := hrw.writeSingle .system brokenRegister 18 42#32 h.toTestProcess
    h.writeClear rfl (by decide)
  have htested₁ := hbroken (.inl rfl) h.tested
  have hready₁ := (h.of_sameBut hu₁).put htested₁
  obtain ⟨u₂, hu₂, h₂⟩ := hrw.writeSingle .system brokenWrite 19 42#32 hready₁.toTestProcess
    hready₁.writeClear rfl (by decide)
  rw [bars_put d.isLt, put_put, put_flag] at h₂
  have hthrows₁ : exec (rw.writeSingle brokenRegister 0#32 42#32) ℓ s = ⟨true, _, _⟩ := h₁
  have hthrows₂ : exec (rw.writeSingle brokenWrite 0#32 42#32) { ℓ with user := u₁ } _ =
    ⟨true, _, _⟩ := h₂
  rw [testWriteSingleWithError, exec_bind, hthrows₁, next_mk, exec_bind, hthrows₂, next_mk]
  exact ⟨rfl, (hready₁.of_sameBut hu₂).toTestProcess, _, rfl, hbroken (.inr rfl) htested₁⟩

theorem judged_testReadArea :
    Judged B d frame buf k s true (exec (testReadArea rw buf) ℓ s) := by
  have hn : nWordsDma = 1024 := rfl
  obtain ⟨u, hprocess, hrun, hword⟩ := hrw.readVector h.toTestProcess h.readClear
    (List.length_replicate (a := 0xB0B0B0B0#32)) (BitVec.ofNat 32 (13 * 4)) (BitVec.ofNat 32 5)
    13 13 rfl (by decide) (by decide)
  have hready : TestReady B d frame buf k { ℓ with user := u } s :=
    ⟨hprocess, h.readClear, h.writeClear, h.tested⟩
  -- the elements from 13 to 17 were read
  have hvector : ∀ i < nWordsDma,
      ((List.range nWordsDma).map fun i => u.word (buf + 4 * i)).getD i 0 =
        if 13 ≤ i ∧ i < 13 + 5 then BitVec.ofNat 32 (i * i) else 0xB0B0B0B0#32 := fun i hi => by
    rw [getD_map_range _ hi, hword i hi]
    refine if_ctx_congr Iff.rfl (fun hpart => ?_) fun _ => ?_
    · rw [Nat.add_sub_cancel' hpart.1]
      exact h.tested.square (by omega) (by omega)
    · rw [List.getD_eq_getElem?_getD, List.getElem?_replicate_of_lt hi]
      rfl
  rw [testReadArea, exec_bind, exec_putVector, next_mk, exec_bind, hrun, next_mk, exec_ite,
    if_neg Bool.false_ne_true, exec_bind, exec_getVector, next_mk, exec_pure]
  refine hready.judged ?_
  rw [Bool.and_eq_true, Bool.and_eq_true, List.all_eq_true, List.all_eq_true, List.all_eq_true]
  refine ⟨⟨fun i hi => ?_, fun i hi => ?_⟩, fun i hi => ?_⟩
  · rw [List.mem_range] at hi
    rw [decide_eq_true_eq, hvector i (by omega), if_neg (by omega)]
  · rw [List.mem_range'_1] at hi
    rw [decide_eq_true_eq, hvector i (by omega), if_pos (by omega)]
  · rw [List.mem_range'_1] at hi
    rw [decide_eq_true_eq, hvector i (by omega), if_neg (by omega)]

/-- The samples set the helix again, and nothing but the area is written to
    it. -/
theorem judged_testWriteArea :
    Judged B d frame buf 0 s true (exec (testWriteArea rw buf) ℓ s) := by
  have hlen : (assignSquares 100 8 bufferHelix).length = nWordsDma := by
    rw [length_assignSquares, length_bufferHelix]
  obtain ⟨u₁, hu₁, h₁⟩ := hrw.writeSingle .system wordAdcEna 17 1#32 h.toTestProcess h.writeClear
    rfl (by decide)
  obtain ⟨b₁, hb₁⟩ : ∃ b, b = (B.bars d s).write (s (.flag .spiError)) .system 17 1#32 := ⟨_, rfl⟩
  have htested₁ : Tested 0 b₁ := hb₁ ▸ h.tested.sample _
  have hstart : exec (rw.writeSingle wordAdcEna 0#32 1#32) ℓ s =
      ⟨false, { ℓ with user := u₁ }, B.put d b₁ s⟩ := hb₁ ▸ h₁
  have hready₁ := (h.of_sameBut hu₁).put htested₁
  -- the area is written ...
  obtain ⟨u₂, hprocess₂, h₂⟩ := hrw.writeVector hready₁.toTestProcess hready₁.writeClear hlen
    (BitVec.ofNat 32 (100 * 4)) (BitVec.ofNat 32 8) 100 100 rfl (by decide) (by decide)
  have hwords : (BitVec.ofNat 32 8).toNat = 8 := rfl
  rw [bars_put d.isLt, put_put, hwords] at h₂
  have hready₂ : TestReady B d frame buf 0 { ℓ with user := u₂ } (B.put d _ s) :=
    TestReady.put ⟨hprocess₂, h.readClear, h.writeClear, h.tested⟩ htested₁.overlaid
  -- ... and the whole bar is read
  obtain ⟨u₃, hprocess₃, h₃, hword⟩ := hrw.readVector hready₂.toTestProcess hready₂.readClear
    (List.length_replicate (a := 0#32)) 0#32 (BitVec.ofNat 32 nWordsDma) 0 0 rfl (by decide)
    (by decide)
  have hread : ∀ i < (assignSquares 100 8 bufferHelix).length, u₃.word (buf + 4 * i) =
      (assignSquares 100 8 bufferHelix).getD i 0 := fun i hi => by
    rw [hlen] at hi
    have hpart : 0 ≤ i ∧ i < 0 + (BitVec.ofNat 32 nWordsDma).toNat := ⟨Nat.zero_le i, by
      rw [Nat.zero_add]
      exact hi⟩
    rw [hword i hi, if_pos hpart, bars_put d.isLt, Nat.zero_add, Nat.sub_zero]
    exact htested₁.overlaid_dma hi
  have hready₃ : TestReady B d frame buf 0 { ℓ with user := u₃ } (B.put d _ s) :=
    ⟨hprocess₃, hready₂.readClear, hready₂.writeClear, hready₂.tested⟩
  rw [Nat.mul_zero, Nat.add_zero] at h₃
  rw [testWriteArea, exec_bind, hstart, next_mk, exec_ite, if_neg Bool.false_ne_true, exec_bind,
    exec_putVector, next_mk, exec_bind, h₂, next_mk, exec_ite, if_neg Bool.false_ne_true,
    exec_bind, exec_putVector, next_mk, exec_bind, h₃, next_mk, exec_ite,
    if_neg Bool.false_ne_true, exec_bind, exec_getVector, next_mk, exec_pure]
  refine hready₃.judged_put htested₁.overlaid (decide_eq_true ?_)
  rw [← hlen]
  exact map_range_eq _ hread

end TestReady

/-- The constructor sets the helix. -/
theorem judged_mtcaDummyTest {N : ℕ} {B : Board N} {d : Fin N} {frame buf : ℕ} {rw : ReaderWriter}
    {ℓ : Local} {s : Store} (hrw : rw.Works B d frame buf) (h : TestProcess frame buf ℓ)
    (hwrite : s (.flag .writeError) = false) (hdummy : (B.bars d s).reg wordDummy = dmmyAsAscii) :
    Judged B d frame buf 0 s false (exec (mtcaDummyTest rw buf) ℓ s) := by
  obtain ⟨u, hprocess, hrun⟩ := hrw.writeVector h hwrite length_bufferHelix 0#32
    (BitVec.ofNat 32 nWordsDma) 0 0 rfl (by decide) (by decide)
  rw [Nat.mul_zero, Nat.add_zero] at hrun
  rw [mtcaDummyTest, exec_bind, exec_putVector, next_mk, hrun]
  exact ⟨rfl, hprocess, _, rfl, Tested.of_bufferHelix hdummy⟩

namespace TestCase

/-- Whether the test passes when the word was incremented `k` times. -/
def passes (k : ℕ) : TestCase → Bool
  | readSingle => k % 2 ^ 32 = 0
  | _ => true

/-- How often it was incremented after the test. -/
def incremented (k : ℕ) : TestCase → ℕ
  | writeSingle => k + 1
  | writeArea => 0
  | _ => k

theorem judged_run {N : ℕ} {B : Board N} {d : Fin N} {frame buf k : ℕ} {rw : ReaderWriter}
    {ℓ : Local} {s : Store} (t : TestCase) (hrw : rw.Works B d frame buf)
    (h : TestReady B d frame buf k ℓ s) :
    Judged B d frame buf (t.incremented k) s (t.passes k) (exec (t.run rw buf) ℓ s) := by
  cases t with
  | readSingle => exact h.judged_testReadSingle hrw
  | readSingleWithError => exact h.judged_testReadSingleWithError hrw
  | writeSingle => exact h.judged_testWriteSingle hrw
  | writeSingleWithError => exact h.judged_testWriteSingleWithError hrw
  | readArea => exact h.judged_testReadArea hrw
  | writeArea => exact h.judged_testWriteArea hrw

end TestCase

/-! ## Runs of the tests of both suites -/

/-- The counts of the suites after a test. -/
def countTest (k : Suite → ℕ) (x : Suite × TestCase) : Suite → ℕ :=
  Function.update k x.1 (x.2.incremented (k x.1))

/-- The verdicts on the tests. -/
def verdicts : (Suite → ℕ) → List (Suite × TestCase) → List Bool
  | _, [] => []
  | k, x :: ts => x.2.passes (k x.1) :: verdicts (countTest k x) ts

/-- The test process and the devices of both suites. -/
structure SuitesReady (B : Board nrDevs) (frame buf : ℕ) (k : Suite → ℕ) (ℓ : Local) (s : Store) :
    Prop extends TestProcess frame buf ℓ where
  readClear : s (.flag .readError) = false
  writeClear : s (.flag .writeError) = false
  tested : ∀ i, Tested (k i) (B.bars (Suite.slot i) s)

section
variable {B : Board nrDevs} {frame buf : ℕ} {k : Suite → ℕ} {ℓ : Local} {s : Store}

theorem Suite.works (B : Board nrDevs) (frame buf : ℕ) (i : Suite) :
    (i.readerWriter B frame).Works B i.slot frame buf := by
  cases i with
  | mtcadummys0 => exact structReaderWriter_works
  | pcieunidummys6 => exact normalReaderWriter_works

theorem Suite.slot_ne {i j : Suite} (h : j ≠ i) : (j.slot : ℕ) ≠ i.slot := by
  cases i <;> cases j <;> first | exact absurd rfl h | decide

/-- A test is judged as its suite says, and is nothing to the other suite. -/
theorem SuitesReady.step (h : SuitesReady B frame buf k ℓ s) (x : Suite × TestCase) :
    let o := exec (x.2.run (x.1.readerWriter B frame) buf) ℓ s
    o.val = x.2.passes (k x.1) ∧ SuitesReady B frame buf (countTest k x) o.loc o.store := by
  obtain ⟨i, t⟩ := x
  obtain ⟨hval, hprocess, b, hstore, hb⟩ := t.judged_run (i.works B frame buf)
    ⟨h.toTestProcess, h.readClear, h.writeClear, h.tested i⟩
  refine ⟨hval, hprocess, ?_, ?_, fun j => ?_⟩
  · rw [hstore]
    exact h.readClear
  · rw [hstore]
    exact h.writeClear
  · rw [hstore, countTest]
    dsimp only
    by_cases hj : j = i
    · subst hj
      rw [bars_put j.slot.isLt, Function.update_self]
      exact hb
    · rw [bars_put_other j.slot.isLt (Suite.slot_ne hj), Function.update_of_ne hj]
      exact h.tested j

theorem SuitesReady.runTests (h : SuitesReady B frame buf k ℓ s) (ts : List (Suite × TestCase)) :
    (exec (runTests B frame buf ts) ℓ s).val = verdicts k ts := by
  induction ts generalizing k ℓ s with
  | nil => rfl
  | cons x ts ih =>
    obtain ⟨hval, hready⟩ := h.step x
    rw [MtcaDummy.runTests, exec_bind, Outcome.next, exec_bind, Outcome.next, exec_pure, hval]
    exact congrArg _ (ih hready)

/-- The program constructs both suites before the first test. -/
theorem exec_automaticTest (h : TestProcess frame buf ℓ) (hread : s (.flag .readError) = false)
    (hwrite : s (.flag .writeError) = false)
    (hdummy : ∀ i, (B.bars (Suite.slot i) s).reg wordDummy = dmmyAsAscii)
    (ts : List (Suite × TestCase)) :
    (exec (automaticTest B frame buf ts) ℓ s).val = some (verdicts (fun _ => 0) ts) := by
  obtain ⟨hval, hprocess, b, hstore, hb⟩ := judged_mtcaDummyTest
    (Suite.works B frame buf .mtcadummys0) h hwrite (hdummy _)
  have hother : B.bars (Suite.slot .pcieunidummys6) (B.put (Suite.slot .mtcadummys0) b s) =
      B.bars (Suite.slot .pcieunidummys6) s :=
    bars_put_other (Fin.isLt _) (Suite.slot_ne (by decide))
  obtain ⟨hval', hprocess', b', hstore', hb'⟩ := judged_mtcaDummyTest
    (s := B.put (Suite.slot .mtcadummys0) b s)
    (Suite.works B frame buf .pcieunidummys6) hprocess hwrite (by rw [hother]; exact hdummy _)
  have hready := SuitesReady.runTests (B := B) (k := fun _ => 0) ⟨hprocess',
    (congrFun hstore' _).trans hread, (congrFun hstore' _).trans hwrite, fun i => ?_⟩ ts
  · rw [automaticTest, exec_bind, Outcome.next, hval, hstore, exec_ite, if_neg Bool.false_ne_true,
      exec_bind, Outcome.next, hval', exec_ite, if_neg Bool.false_ne_true, exec_bind, Outcome.next,
      exec_pure]
    exact congrArg some hready
  · rw [hstore']
    cases i with
    | mtcadummys0 =>
      rw [bars_put_other (Fin.isLt _) (Suite.slot_ne (by decide)), bars_put (Fin.isLt _)]
      exact hb
    | pcieunidummys6 =>
      rw [bars_put (Fin.isLt _)]
      exact hb'

/-- The increments since the word was last set, in the tests of a suite. -/
def increments (i : Suite) (past : List (Suite × TestCase)) : ℕ :=
  (past.reverse.takeWhile (· ≠ (i, .writeArea))).count (i, .writeSingle)

theorem foldl_countTest (i : Suite) (past : List (Suite × TestCase)) :
    past.foldl countTest (fun _ => 0) i = increments i past := by
  induction past using List.reverseRecOn with
  | nil => rfl
  | append_singleton past x ih =>
    obtain ⟨j, t⟩ := x
    rw [List.foldl_append, List.foldl_cons, List.foldl_nil, countTest, increments,
      List.reverse_append, List.reverse_singleton, List.singleton_append]
    dsimp only
    by_cases hj : i = j
    · subst hj
      rw [Function.update_self, ih, increments]
      cases t <;> simp [TestCase.incremented]
    · rw [Function.update_of_ne hj, ih, increments]
      simp [Ne.symm hj]

theorem length_verdicts (ts : List (Suite × TestCase)) : (verdicts k ts).length = ts.length := by
  induction ts generalizing k with
  | nil => rfl
  | cons x ts ih => rw [verdicts, List.length_cons, ih, List.length_cons]

theorem verdicts_append (ts ts' : List (Suite × TestCase)) :
    verdicts k (ts ++ ts') = verdicts k ts ++ verdicts (ts.foldl countTest k) ts' := by
  induction ts generalizing k with
  | nil => rfl
  | cons x ts ih => exact congrArg _ ih

/-- The tests in their order leave the counts at zero. -/
theorem foldl_registered : Suite.registered.foldl countTest (fun _ => 0) = fun _ => 0 := by
  funext i
  cases i <;> rfl

theorem verdicts_registered (n : ℕ) :
    verdicts (fun _ => 0) (List.replicate n Suite.registered).flatten =
      List.replicate (12 * n) true := by
  induction n with
  | zero => rfl
  | succ n ih =>
    have hfirst : verdicts (fun _ => 0) Suite.registered = List.replicate 12 true := by decide
    rw [List.replicate_succ, List.flatten_cons, verdicts_append, foldl_registered, ih, hfirst,
      List.replicate_append_replicate]
    exact congrArg (List.replicate · true) (by omega)

/-- **The automatic test, in any order.**  With both device files open, and
    whatever the bars contained, a test passes wherever it stands, but for
    `testReadSingle` after increments of the word it reads; in the order in
    which they are registered, all tests pass any number of times. -/
theorem automatic_test_verdicts (h : TestProcess frame buf ℓ) (hread : s (.flag .readError) = false)
    (hwrite : s (.flag .writeError) = false)
    (hdummy : ∀ i, (B.bars (Suite.slot i) s).reg wordDummy = dmmyAsAscii) :
    (∀ ts, ∃ passed, (exec (automaticTest B frame buf ts) ℓ s).val = some passed ∧
      passed.length = ts.length ∧ ∀ past i t rest, ts = past ++ (i, t) :: rest →
        passed[past.length]? =
          some (decide (t = .readSingle → increments i past % 2 ^ 32 = 0))) ∧
    ∀ n, (exec (automaticTest B frame buf (List.replicate n Suite.registered).flatten) ℓ s).val =
      some (List.replicate (12 * n) true) := by
  refine ⟨fun ts => ⟨_, exec_automaticTest h hread hwrite hdummy ts, length_verdicts ts, ?_⟩,
    fun n => ?_⟩
  · rintro past i t rest rfl
    rw [verdicts_append, List.getElem?_append_right (by rw [length_verdicts]), length_verdicts,
      Nat.sub_self, verdicts, List.getElem?_cons_zero, foldl_countTest]
    cases t <;> simp [TestCase.passes]
  · rw [exec_automaticTest h hread hwrite hdummy, verdicts_registered]

end

/-- The device word of a module just loaded. -/
theorem dummy_ready {N : ℕ} {B : Board N} (hB : B.dummyPrivateData = readyData N)
    (mem : Ptr → ℕ → U32) {d : ℕ} (hd : d < N) :
    (B.bars d (readyStore mem N)).reg wordDummy = dmmyAsAscii := by
  have hword := readyStore_bar hB mem hd (by decide : 15 < Bar.size .system / 4)
  have hinit : initialWord .system 15 = dmmyAsAscii := by decide
  exact hword.trans hinit

/-- The program on a module just loaded, where the tests run twice. -/
theorem automatic_test_verdicts_loaded :
    (exec (automaticTest loadedBoard 0 24 (List.replicate 2 Suite.registered).flatten)
      (readerLocal 0 0) (readyStore (fun _ _ => 0#32) nrDevs)).val =
      some (List.replicate (12 * 2) true) :=
  (automatic_test_verdicts
    ⟨⟨rfl, fun _ _ => rfl, fun _ _ => rfl, .inr (by decide)⟩, fun _ _ => rfl, fun _ _ => rfl⟩
    rfl rfl fun i => dummy_ready loadedBoard_data _ i.slot.isLt).2 2

end MtcaDummy

/-
  The two clients of the automatic test (StructReaderWriter.cc and
  NormalReaderWriter.cc): areas are read and written word by word through the
  struct interface, or by one call through the other interface.

  `interfaces_equivalent`: on devices with the same contents, the clients
  throw in the same cases, and leave the same contents in the bars and in the
  buffer.
-/
import MtcaDummy.Driver.Memory

namespace MtcaDummy

/-! ## The clients -/

/-- The process writes its own memory. -/
def setUser (a n : ℕ) (src : ℕ → Byte) : KM Unit := fun ℓ =>
  .ret ((), { ℓ with user := ℓ.user.set a n src })

/-- ... and reads it. -/
def getUser : KM UserMem := fun ℓ => .ret (ℓ.user, ℓ)

/-- The word at an address. -/
def UserMem.word (u : UserMem) (a : ℕ) : U32 := wordAt (fun j => u.byte (a + j)) 0

/-- The request for a word. -/
def wordRequest (offset bar dataRw : U32) : DeviceRw := ⟨offset, dataRw, rwD32, bar, 0#32, 0#32⟩

section
variable {N : ℕ} (B : Board N) (d : Fin N)

namespace StructReaderWriter

/-- The request is on the stack frame `frame`; `none` if the read throws. -/
def readSingle (frame : ℕ) (offset bar : U32) : KM (Option U32) := do
  let readInstruction := wordRequest offset bar 0#32
  setUser frame sizeofDeviceRw readInstruction.bytes
  if (← (Entry.read d frame sizeofDeviceRw).body B) ≠ sizeofDeviceRw then
    return none
  let u ← getUser
  return some (DeviceRw.ofBytes fun j => u.byte (frame + j)).dataRw

/-- The loop for the `k` words from word `i` on: whether it throws. -/
def readAreaLoop (frame : ℕ) (offset bar : U32) (readBuffer : ℕ) : ℕ → ℕ → KM Bool
  | 0, _ => return false
  | k + 1, i => do
    match ← readSingle B d frame (BitVec.ofNat 32 (offset.toNat + i * 4)) bar with
    | none => return true
    | some v =>
      setUser (readBuffer + 4 * i) 4 (byteOf v)
      readAreaLoop frame offset bar readBuffer k (i + 1)

def readArea (frame : ℕ) (offset bar nWords : U32) (readBuffer : ℕ) : KM Bool :=
  readAreaLoop B d frame offset bar readBuffer nWords.toNat 0

/-- Whether the write throws. -/
def writeSingle (frame : ℕ) (offset bar value : U32) : KM Bool := do
  let writeInstruction := wordRequest offset bar value
  setUser frame sizeofDeviceRw writeInstruction.bytes
  if (← (Entry.write d frame sizeofDeviceRw).body B) ≠ sizeofDeviceRw then
    return true
  return false

def writeAreaLoop (frame : ℕ) (offset bar : U32) (writeBuffer : ℕ) : ℕ → ℕ → KM Bool
  | 0, _ => return false
  | k + 1, i => do
    let u ← getUser
    if ← writeSingle B d frame (BitVec.ofNat 32 (offset.toNat + i * 4)) bar
        (u.word (writeBuffer + 4 * i)) then
      return true
    writeAreaLoop frame offset bar writeBuffer k (i + 1)

def writeArea (frame : ℕ) (offset bar nWords : U32) (writeBuffer : ℕ) : KM Bool :=
  writeAreaLoop B d frame offset bar writeBuffer nWords.toNat 0

end StructReaderWriter

/-- `PCIEUNI_BAR_OFFSETS` -/
def pcieuniBarOffsets : List ℕ := [0, 1 <<< 60, 2 <<< 60, 3 <<< 60, 4 <<< 60, 5 <<< 60]

/-- A call at a position of its own, which leaves that of the file alone. -/
def withPos (pos : ℕ) (call : KM ℤ) : KM ℤ := do
  let fPos ← getPos
  setPos pos
  let ret ← call
  setPos fPos
  return ret

namespace NormalReaderWriter

def readArea (offset bar nWords : U32) (readBuffer : ℕ) : KM Bool := do
  if bar > 5#32 then
    return true
  let virtualOffset := pcieuniBarOffsets.getD bar.toNat 0 + offset.toNat
  let ret ← withPos virtualOffset ((Entry.readNoStruct d readBuffer (nWords.toNat * 4)).body B)
  return ret ≠ ((nWords.toNat * 4 : ℕ) : ℤ)

/-- `writeStatus` is an `int`, which holds every count the kernel returns. -/
def writeArea (offset bar nWords : U32) (writeBuffer : ℕ) : KM Bool := do
  if bar > 5#32 then
    return true
  let virtualOffset := pcieuniBarOffsets.getD bar.toNat 0 + offset.toNat
  let writeStatus ←
    withPos virtualOffset ((Entry.writeNoStruct d writeBuffer (nWords.toNat * 4)).body B)
  return writeStatus ≠ ((nWords.toNat * 4 : ℕ) : ℤ)

end NormalReaderWriter

end

/-! ## Bars with the same contents -/

/-- The words of the bars are the same. -/
def Bars.Agree (b b' : Bars) : Prop := ∀ (bar : Bar) (i : ℕ), i < bar.size / 4 →
  b.word bar i = b'.word bar i

namespace Bars.Agree
variable {b b' : Bars} {spiFail : Bool} {bar : Bar} {w : ℕ}

theorem setWord (h : b.Agree b') (i : ℕ) (v : U32) :
    (b.setWord bar i v).Agree (b'.setWord bar i v) := by
  intro bar' j hj
  have hword := h bar' j hj
  cases bar <;> cases bar' <;>
    simp only [Bars.setWord, Bars.word, Function.update_apply] at hword ⊢ <;>
    first | exact hword | rw [hword]

/-- A write keeps them the same. -/
theorem write (h : b.Agree b') {i : ℕ} (hi : i < bar.size / 4) (v : U32) :
    (b.write spiFail bar i v).Agree (b'.write spiFail bar i v) := by
  cases bar with
  | dma => exact h.setWord i v
  | system =>
    intro bar' j hj
    have hgrants : b.grants spiFail = b'.grants spiFail := by
      have hword : b.system (0x58 / 4) = b'.system (0x58 / 4) := h .system 22 (by decide)
      rw [Bars.grants, Bars.grants, hword]
    rw [write_eq_tabled b spiFail v bar' j hi, write_eq_tabled b' spiFail v bar' j hi, tabled,
      tabled, hgrants, h bar' j hj]

/-- So does a block. -/
theorem block (spiFail : Bool) (copy copy' : ℕ → U32 × Bool) {k i : ℕ} (h : b.Agree b')
    (hcopy : ∀ j < k, copy (i + j) = copy' (i + j)) (hk : w + i + k ≤ bar.size / 4) :
    let r := Bars.block (fun _ => spiFail) bar w copy k i b
    let r' := Bars.block (fun _ => spiFail) bar w copy' k i b'
    r.err = r'.err ∧ r.bars.Agree r'.bars := by
  induction k generalizing i b b' with
  | zero => exact ⟨rfl, h⟩
  | succ k ih =>
    have hfirst : copy i = copy' i := hcopy 0 (Nat.succ_pos k)
    rw [Bars.block, Bars.block, hfirst]
    split_ifs with hpart hrej
    · exact ⟨rfl, h.setWord _ _⟩
    · exact ⟨rfl, h.write (by omega) _⟩
    · refine ih (h.write (by omega) _) (fun j hj => ?_) (by omega)
      rw [Nat.add_assoc i 1 j, Nat.add_comm 1 j]
      exact hcopy (j + 1) (by omega)

end Bars.Agree

/-! ## The client of the struct interface -/

theorem word_wordRequest {offset bar v : U32} {bar' : Bar} (hbar : bar = bar'.number)
    (hmod : offset.toNat % 4 = 0) (hlt : offset.toNat < bar'.size) :
    (wordRequest offset bar v).word = some (bar', offset.toNat / 4) :=
  DeviceRw.word_eq_some bar' hbar hmod hlt

/-- The request for a word that no transfer can name. -/
theorem word_wordRequest_refused {offset bar v : U32} {count : ℕ} (hcount : count % 4 = 0)
    (h : Refused bar.toNat offset.toNat count) : (wordRequest offset bar v).word = none := by
  unfold DeviceRw.word wordRequest
  dsimp only
  cases hbar : Bar.ofNumber bar with
  | none => rfl
  | some bar' =>
    obtain rfl := Bar.ofNumber_eq_some hbar
    have hsize := barBytes_number bar'
    have hbars : bar'.number.toNat = 0 ∨ bar'.number.toNat = 2 := by cases bar' <;> decide
    refine if_pos ?_
    unfold Refused at h
    omega

/-- The request for the word behind the end of the bar. -/
theorem word_wordRequest_end {offset v : U32} {bar : Bar} (hle : bar.size ≤ offset.toNat) :
    (wordRequest offset bar.number v).word = none := by
  unfold DeviceRw.word wordRequest
  rw [Bar.ofNumber_number]
  exact if_pos (.inr hle)

/-- The memories are the same but for the stack frame. -/
structure UserMem.SameBut (frame : ℕ) (u u' : UserMem) : Prop where
  byte : ∀ x, x < frame ∨ frame + sizeofDeviceRw ≤ x → u'.byte x = u.byte x
  readable : u'.readable = u.readable
  writable : u'.writable = u.writable

/-- A process with its stack frame at `frame` and a buffer of `n` words at
    `buf`. -/
structure StructCaller (frame buf n : ℕ) (ℓ : Local) : Prop where
  signals : ℓ.signals = []
  readable : ℓ.user.Readable frame sizeofDeviceRw
  writable : ℓ.user.Writable frame sizeofDeviceRw
  apart : buf + 4 * n ≤ frame ∨ frame + sizeofDeviceRw ≤ buf

namespace StructCaller
variable {frame buf n : ℕ} {ℓ : Local} {u : UserMem}

/-- It stays one when the frame changes. -/
theorem of_sameBut (h : StructCaller frame buf n ℓ) (hu : ℓ.user.SameBut frame u) :
    StructCaller frame buf n { ℓ with user := u } where
  signals := h.signals
  readable j hj := (congrFun hu.readable _).trans (h.readable j hj)
  writable j hj := (congrFun hu.writable _).trans (h.writable j hj)
  apart := h.apart

/-- ... and when other memory does. -/
theorem set (h : StructCaller frame buf n ℓ) (a k : ℕ) (src : ℕ → Byte) :
    StructCaller frame buf n { ℓ with user := ℓ.user.set a k src } :=
  ⟨h.signals, h.readable, h.writable, h.apart⟩

/-- The bytes of the buffer are not in the frame. -/
theorem byte_eq (h : StructCaller frame buf n ℓ) (hu : ℓ.user.SameBut frame u) {j : ℕ}
    (hj : j < 4 * n) : u.byte (buf + j) = ℓ.user.byte (buf + j) := by
  have hapart := h.apart
  exact hu.byte _ (by omega)

theorem word_eq (h : StructCaller frame buf n ℓ) (hu : ℓ.user.SameBut frame u) {i : ℕ}
    (hi : i < n) : u.word (buf + 4 * i) = ℓ.user.word (buf + 4 * i) :=
  wordAt_congr fun j hj => by
    have hbyte := h.byte_eq hu (j := 4 * i + j) (by omega)
    rw [Nat.zero_add, Nat.add_assoc, hbyte]

end StructCaller

/-- A word written for the client: whether it throws, and the bars. -/
def Bars.writeSingle (b : Bars) (s : Store) (r : DeviceRw) : Bool × Bars :=
  if s (.flag .writeError) then (true, b)
  else match r.word with
  | none => (true, b)
  | some (bar, i) => (bar.rejects i, b.write (s (.flag .spiError)) bar i r.dataRw)

/-- A word read for it, `none` if it throws. -/
def Bars.readSingle (b : Bars) (s : Store) (r : DeviceRw) : Option U32 :=
  if s (.flag .readError) then none
  else match r.word with
  | none => none
  | some (bar, i) => if bar.rejectsRead i then none else some (b.word bar i)

section
variable {N : ℕ} {B : Board N} {d : Fin N} {s : Store} {b : Bars} {ℓ : Local} {frame buf n : ℕ}
  {offset bar : U32}

theorem exec_setUser (a k : ℕ) (src : ℕ → Byte) :
    exec (setUser a k src) ℓ s = ⟨(), { ℓ with user := ℓ.user.set a k src }, s⟩ := rfl

theorem exec_getUser : exec getUser ℓ s = ⟨ℓ.user, ℓ, s⟩ := rfl

theorem UserMem.SameBut.refl (frame : ℕ) (u : UserMem) : u.SameBut frame u :=
  ⟨fun _ _ => rfl, rfl, rfl⟩

theorem UserMem.SameBut.set {u u' : UserMem} (h : u.SameBut frame u') (f : ℕ → Byte) :
    u.SameBut frame (u'.set frame sizeofDeviceRw f) where
  byte x hx := (if_neg fun h => by omega).trans (h.byte x hx)
  readable := h.readable
  writable := h.writable

theorem UserMem.Request.ofBytes_byte {u : UserMem} {r : DeviceRw} (h : u.Request buf r) :
    DeviceRw.ofBytes (fun j => u.byte (buf + j)) = r :=
  (DeviceRw.ofBytes_congr h.2).trans (DeviceRw.ofBytes_bytes r)

/-- The frame holds the request. -/
theorem request_set {u : UserMem} (h : u.Readable frame sizeofDeviceRw) (r : DeviceRw) :
    (u.set frame sizeofDeviceRw r.bytes).Request frame r :=
  ⟨h, fun j hj => by rw [UserMem.set_byte, if_pos (by omega), Nat.add_sub_cancel_left]⟩

theorem exec_writeSingle (h : StructCaller frame buf n ℓ) (offset bar value : U32) :
    ∃ u, ℓ.user.SameBut frame u ∧
      exec (StructReaderWriter.writeSingle B d frame offset bar value) ℓ (B.put d b s) =
        let r := b.writeSingle s (wordRequest offset bar value)
        ⟨r.1, { ℓ with user := u }, B.put d r.2 s⟩ := by
  have hset := (UserMem.SameBut.refl frame ℓ.user).set (wordRequest offset bar value).bytes
  refine ⟨_, hset, ?_⟩
  have hmin : min sizeofDeviceRw maxRwCount = sizeofDeviceRw := by decide
  have hword := structWord_of_request (request_set h.readable (wordRequest offset bar value))
    (Nat.le_refl _) rfl
  unfold StructReaderWriter.writeSingle
  dsimp only [Entry.body]
  rw [hmin, exec_bind, exec_setUser, next_mk, exec_bind,
    exec_write d.isLt (h.of_sameBut hset).signals, next_mk, exec_ite]
  dsimp only
  unfold Bars.writeSingle
  have hfault : -EFAULT ≠ (sizeofDeviceRw : ℤ) := by decide
  have hio : - EIO ≠ (sizeofDeviceRw : ℤ) := by decide
  cases hfail : s (.flag .writeError) with
  | true =>
    rw [Bars.structWrite_of_flag hfail, if_pos hfault]
    rfl
  | false =>
    simp only [Bool.false_eq_true, if_false]
    cases hr : (wordRequest offset bar value).word with
    | none =>
      rw [hr] at hword
      rw [Bars.structWrite_none hword, if_pos hfault]
      rfl
    | some x =>
      rw [hr] at hword
      rw [Bars.structWrite_some hfail hword]
      dsimp only
      cases x.1.rejects x.2 with
      | true => rw [if_pos rfl, if_pos hio]; rfl
      | false => rw [if_neg Bool.false_ne_true, if_neg (fun h => h rfl)]; rfl

/-- The answer to the request for a word. -/
theorem structAnswer_wordRequest (slotNr : U32) :
    b.structAnswer slotNr (wordRequest offset bar 0#32) =
      match (wordRequest offset bar 0#32).word with
      | none => .none (-EFAULT)
      | some (bar', i) =>
        if bar'.rejectsRead i then .none (- EIO)
        else ⟨sizeofDeviceRw, sizeofDeviceRw, (wordRequest offset bar (b.word bar' i)).bytes⟩ := by
  have hinfo : rwD32 ≠ rwInfo := by decide
  have hmode : (wordRequest offset bar 0#32).modeRw = rwD32 := rfl
  rw [Bars.structAnswer, hmode, if_neg hinfo, if_pos rfl]
  rfl

theorem exec_readSingle (h : StructCaller frame buf n ℓ) (offset bar : U32) :
    ∃ u, ℓ.user.SameBut frame u ∧
      exec (StructReaderWriter.readSingle B d frame offset bar) ℓ s =
        ⟨(B.bars d s).readSingle s (wordRequest offset bar 0#32), { ℓ with user := u }, s⟩ := by
  have hmin : min sizeofDeviceRw maxRwCount = sizeofDeviceRw := by decide
  have hfault : -EFAULT ≠ (sizeofDeviceRw : ℤ) := by decide
  have hio : - EIO ≠ (sizeofDeviceRw : ℤ) := by decide
  have hset := (UserMem.SameBut.refl frame ℓ.user).set (wordRequest offset bar 0#32).bytes
  have hcaller := h.of_sameBut hset
  have hrequest := request_set h.readable (wordRequest offset bar 0#32)
  unfold StructReaderWriter.readSingle
  dsimp only [Entry.body]
  rw [hmin, exec_bind, exec_setUser, next_mk, exec_bind, exec_read hcaller.signals]
  unfold Bars.readSingle
  cases hfail : s (.flag .readError) with
  | true => exact ⟨_, hset, by simp [hfault]⟩
  | false =>
    simp only [Bool.false_eq_true, if_false]
    rw [Bars.structReply_of_request _ _ hrequest (Nat.le_refl _), structAnswer_wordRequest]
    cases hword : (wordRequest offset bar 0#32).word with
    | none => exact ⟨_, hset, by simp [hfault]⟩
    | some x =>
      dsimp only
      rw [seen_word (DeviceRw.word_lt hword)]
      cases x.1.rejectsRead x.2 with
      | true => exact ⟨_, hset, by simp [hio]⟩
      | false =>
        have hreply := request_set hcaller.readable
          (wordRequest offset bar ((B.bars d s).word x.1 x.2))
        simp only [Bool.false_eq_true, if_false]
        rw [UserMem.answer_of_writable hcaller.writable]
        refine ⟨_, hset.set (wordRequest offset bar ((B.bars d s).word x.1 x.2)).bytes, ?_⟩
        dsimp only
        rw [next_mk, exec_ite, if_neg (fun h => h rfl), exec_bind, exec_getUser, next_mk,
          hreply.ofBytes_byte]
        rfl

/-- The loop stops at the end of the bar, if no word before is rejected. -/
theorem exec_writeAreaLoop {bar : Bar} {w k i : ℕ} {v : ℕ → U32}
    (hclear : s (.flag .writeError) = false) (h : StructCaller frame buf n ℓ) (hn : i + k = n)
    (hoff : offset.toNat = 4 * w) (hw : w + i ≤ bar.size / 4)
    (hv : ∀ j < n, ℓ.user.word (buf + 4 * j) = v j) :
    let m := min k (bar.size / 4 - (w + i))
    let r := Bars.block (fun _ => s (.flag .spiError)) bar w (fun j => (v j, true)) m i b
    let out := exec (StructReaderWriter.writeAreaLoop B d frame offset bar.number buf k i) ℓ
      (B.put d b s)
    (out.val = true ↔ r.err ≠ none ∨ m < k) ∧ out.store = B.put d r.bars s := by
  have hsize := bar.size_le
  have hmod : bar.size % 4 = 0 := by cases bar <;> rfl
  have hdma : dmaSize = 4096 := rfl
  induction k generalizing i b ℓ with
  | zero => simp [StructReaderWriter.writeAreaLoop, Bars.block]
  | succ k ih =>
    have hnat : (BitVec.ofNat 32 (offset.toNat + i * 4)).toNat = 4 * (w + i) := by
      rw [BitVec.toNat_ofNat]
      omega
    obtain ⟨u, hu, hrun⟩ := exec_writeSingle (B := B) (d := d) (s := s) (b := b) h
      (BitVec.ofNat 32 (offset.toNat + i * 4)) bar.number (v i)
    dsimp only
    rw [StructReaderWriter.writeAreaLoop, exec_bind, exec_getUser, next_mk, hv i (by omega),
      exec_bind, hrun, next_mk, exec_ite]
    unfold Bars.writeSingle
    rw [hclear, if_neg Bool.false_ne_true]
    rcases Nat.lt_or_eq_of_le hw with hlt | heq
    · rw [word_wordRequest rfl (by omega) (by omega), hnat, Nat.mul_div_cancel_left _ (by decide)]
      obtain ⟨m, hm⟩ : ∃ m, min (k + 1) (bar.size / 4 - (w + i)) = m + 1 :=
        Nat.exists_eq_add_one_of_ne_zero (by omega)
      rw [hm, Bars.block]
      dsimp only
      rw [Bool.not_true, if_neg Bool.false_ne_true]
      by_cases hrej : bar.rejects (w + i) = true
      · rw [if_pos hrej, if_pos hrej]
        simp [wordRequest]
      · rw [if_neg hrej, if_neg hrej]
        have hrest := ih (b := b.write (s (.flag .spiError)) bar (w + i) (v i))
          (h.of_sameBut hu) (i := i + 1) (by omega) (by omega)
          fun j hj => (h.word_eq hu hj).trans (hv j hj)
        rw [show min k (bar.size / 4 - (w + (i + 1))) = m by omega] at hrest
        simpa [wordRequest] using hrest
    · rw [word_wordRequest_end (by omega), show min (k + 1) (bar.size / 4 - (w + i)) = 0 by omega]
      simp [Bars.block]

/-- The words that a client of the struct interface reads before the first it
    cannot read. -/
def readWords (bar : Bar) (w k : ℕ) : ℕ :=
  okLen (fun i => !bar.rejectsRead i) w (min k (bar.size / 4 - w))

theorem exec_readAreaLoop {bar : Bar} {w k i : ℕ} (hclear : s (.flag .readError) = false)
    (h : StructCaller frame buf n ℓ) (hn : i + k = n) (hoff : offset.toNat = 4 * w)
    (hw : w + i ≤ bar.size / 4) :
    let g := readWords bar (w + i) k
    let out := exec (StructReaderWriter.readAreaLoop B d frame offset bar.number buf k i) ℓ s
    (out.val = true ↔ g < k) ∧
      ∀ j < 4 * n, out.loc.user.byte (buf + j) =
        if 4 * i ≤ j ∧ j < 4 * (i + g) then wordBytes ((B.bars d s).word bar) w j
        else ℓ.user.byte (buf + j) := by
  have hsize := bar.size_le
  have hmod : bar.size % 4 = 0 := by cases bar <;> rfl
  have hdma : dmaSize = 4096 := rfl
  induction k generalizing i ℓ with
  | zero =>
    refine ⟨by simp [StructReaderWriter.readAreaLoop], fun j hj => (if_neg fun h => ?_).symm⟩
    have hzero : readWords bar (w + i) 0 = 0 := by rw [readWords, Nat.zero_min, okLen]
    omega
  | succ k ih =>
    have hnat : (BitVec.ofNat 32 (offset.toNat + i * 4)).toNat = 4 * (w + i) := by
      rw [BitVec.toNat_ofNat]
      omega
    obtain ⟨u, hu, hrun⟩ := exec_readSingle (B := B) (d := d) (s := s) h
      (BitVec.ofNat 32 (offset.toNat + i * 4)) bar.number
    -- a word that cannot be read ends the loop
    have hstop : readWords bar (w + i) (k + 1) = 0 →
        (B.bars d s).readSingle s
          (wordRequest (BitVec.ofNat 32 (offset.toNat + i * 4)) bar.number 0#32) = none →
        let out := exec (StructReaderWriter.readAreaLoop B d frame offset bar.number buf (k + 1) i)
          ℓ s
        (out.val = true ↔ readWords bar (w + i) (k + 1) < k + 1) ∧
          ∀ j < 4 * n, out.loc.user.byte (buf + j) =
            if 4 * i ≤ j ∧ j < 4 * (i + readWords bar (w + i) (k + 1)) then
              wordBytes ((B.bars d s).word bar) w j
            else ℓ.user.byte (buf + j) := fun hzero hnone => by
      dsimp only
      rw [StructReaderWriter.readAreaLoop, exec_bind, hrun, next_mk, hnone, hzero]
      refine ⟨iff_of_true rfl (Nat.succ_pos k), fun j hj => ?_⟩
      rw [if_neg (by omega)]
      exact h.byte_eq hu hj
    unfold Bars.readSingle at hrun hstop
    rw [hclear, if_neg Bool.false_ne_true] at hrun hstop
    rcases Nat.lt_or_eq_of_le hw with hlt | heq
    · rw [word_wordRequest rfl (by omega) (by omega), hnat, Nat.mul_div_cancel_left _ (by decide)]
        at hrun hstop
      dsimp only at hrun hstop
      by_cases hrej : bar.rejectsRead (w + i) = true
      · obtain ⟨m, hm⟩ : ∃ m, min (k + 1) (bar.size / 4 - (w + i)) = m + 1 :=
          Nat.exists_eq_add_one_of_ne_zero (by omega)
        exact hstop (by rw [readWords, hm, okLen, hrej]; rfl) (if_pos hrej)
      have hgood : bar.rejectsRead (w + i) = false := eq_false_of_ne_true hrej
      have hwords : readWords bar (w + i) (k + 1) = readWords bar (w + (i + 1)) k + 1 := by
        rw [readWords, readWords,
          show min (k + 1) (bar.size / 4 - (w + i)) = min k (bar.size / 4 - (w + (i + 1))) + 1 by
            omega, Bars.okLen_good hgood, Nat.add_assoc]
      have hcaller := (h.of_sameBut hu).set (buf + 4 * i) 4 (byteOf ((B.bars d s).word bar (w + i)))
      obtain ⟨hval, hbytes⟩ := ih hcaller (i := i + 1) (by omega) (by omega)
      dsimp only
      rw [StructReaderWriter.readAreaLoop, exec_bind, hrun, next_mk, if_neg hrej]
      dsimp only
      rw [exec_bind, exec_setUser, next_mk, hwords]
      refine ⟨hval.trans (Nat.add_lt_add_iff_right).symm, fun j hj => ?_⟩
      rw [hbytes j hj, UserMem.set_byte, h.byte_eq hu hj]
      generalize readWords bar (w + (i + 1)) k = g
      by_cases hfirst : 4 * i ≤ j ∧ j < 4 * i + 4
      · rw [if_neg (by omega), if_pos (by omega), if_pos (by omega), wordBytes,
          show w + j / 4 = w + i by omega, show buf + j - (buf + 4 * i) = j % 4 by omega]
      · rw [if_neg (by omega : ¬ (buf + 4 * i ≤ buf + j ∧ buf + j < buf + 4 * i + 4))]
        exact if_congr (by omega) rfl rfl
    · exact hstop (by rw [readWords, heq, Nat.sub_self, Nat.min_zero, okLen])
        (by rw [word_wordRequest_end (by omega)])

end

/-! ## The client of the other interface -/

/-- A process with a buffer of `n` words at `buf`. -/
structure NormalCaller (buf n : ℕ) (ℓ : Local) : Prop where
  signals : ℓ.signals = []
  readable : ℓ.user.Readable buf (4 * n)
  writable : ℓ.user.Writable buf (4 * n)

theorem refused_iff {n o count : ℕ} (h : count % 4 = 0) : Refused n o count ↔ Refused n o 0 := by
  unfold Refused
  omega

theorem pcieuniBarOffsets_getD {bar : U32} (h : ¬ bar > 5#32) :
    pcieuniBarOffsets.getD bar.toNat 0 = bar.toNat * 2 ^ 60 := by
  have hall : ∀ n < 6, pcieuniBarOffsets.getD n 0 = n * 2 ^ 60 := by decide
  have hle : bar.toNat ≤ 5 := BitVec.not_lt.1 h
  exact hall _ (Nat.lt_succ_of_le hle)

/-- The words of a transfer of the client. -/
theorem span_client {bar : Bar} {o w n : ℕ} (hoff : o = 4 * w) (hw : w ≤ bar.size / 4) :
    span (min (n * 4) maxRwCount) (bar.number.toNat * 2 ^ 60 + o) =
      .ok ⟨bar, w, min n (bar.size / 4 - w)⟩ := by
  have hsize := bar.size_le
  have hmod : bar.size % 4 = 0 := by cases bar <;> rfl
  have hbars : bar.number.toNat = 0 ∨ bar.number.toNat = 2 := by cases bar <;> decide
  have hdma : dmaSize = 4096 := rfl
  have hmax : maxRwCount = 0x7FFFF000 := rfl
  have hrefused : ¬ Refused bar.number.toNat o (min (n * 4) maxRwCount) := by
    unfold Refused
    rw [barBytes_number]
    omega
  rw [span_packed (by omega) hrefused, clamped, barBytes_number]
  congr 2 <;> omega

/-- The client compares the result with the count it asked for. -/
theorem getD_ne_iff {err : Option ℤ} {m n : ℕ} (hneg : ∀ e, err = some e → e < 0) (hm : m ≤ n) :
    err.getD (4 * (m : ℤ)) ≠ ((n * 4 : ℕ) : ℤ) ↔ err ≠ none ∨ m < n := by
  cases err with
  | none =>
    simp only [Option.getD_none, ne_eq, not_true_eq_false, false_or]
    omega
  | some e =>
    have he := hneg e rfl
    simp only [Option.getD_some, ne_eq, reduceCtorEq, not_false_eq_true, true_or, iff_true]
    omega

section
variable {N : ℕ} {B : Board N} {d : Fin N} {s : Store} {b : Bars} {ℓ : Local} {buf : ℕ}
  {offset bar nWords : U32}

theorem exec_withPos (pos : ℕ) (call : KM ℤ) : exec (withPos pos call) ℓ s =
    let o := exec call { ℓ with fPos := pos } s
    ⟨o.val, { o.loc with fPos := ℓ.fPos }, o.store⟩ := by
  simp only [withPos, exec_bind, exec_getPos, next_mk, exec_setPos]
  rfl

theorem exec_normalWrite (h : NormalCaller buf nWords.toNat ℓ) (hbar : ¬ bar > 5#32)
    (offset : U32) :
    exec (NormalReaderWriter.writeArea B d offset bar nWords buf) ℓ (B.put d b s) =
      let r := b.noStructWrite (fun _ => s) ℓ.user buf (min (nWords.toNat * 4) maxRwCount)
        (bar.toNat * 2 ^ 60 + offset.toNat)
      ⟨decide (r.1 ≠ ((nWords.toNat * 4 : ℕ) : ℤ)), ℓ, B.put d r.2.2 s⟩ := by
  have hcount : min (nWords.toNat * 4) maxRwCount < 2 ^ 32 :=
    (Nat.min_le_right _ _).trans_lt (by decide)
  have hsignals : ({ ℓ with fPos := bar.toNat * 2 ^ 60 + offset.toNat } : Local).signals = [] :=
    h.signals
  unfold NormalReaderWriter.writeArea
  dsimp only [Entry.body]
  rw [exec_ite, if_neg hbar, pcieuniBarOffsets_getD hbar, exec_bind, exec_withPos,
    exec_writeNoStruct d.isLt hcount hsignals]
  rfl

theorem exec_normalRead (h : NormalCaller buf nWords.toNat ℓ) (hbar : ¬ bar > 5#32) :
    exec (NormalReaderWriter.readArea B d offset bar nWords buf) ℓ s =
      let r := (B.bars d s).noStructRead (s (.flag .readError)) ℓ.user buf
        (min (nWords.toNat * 4) maxRwCount) (bar.toNat * 2 ^ 60 + offset.toNat)
      ⟨decide (r.1 ≠ ((nWords.toNat * 4 : ℕ) : ℤ)), { ℓ with user := r.2.2 }, s⟩ := by
  have hcount : min (nWords.toNat * 4) maxRwCount < 2 ^ 32 :=
    (Nat.min_le_right _ _).trans_lt (by decide)
  have hsignals : ({ ℓ with fPos := bar.toNat * 2 ^ 60 + offset.toNat } : Local).signals = [] :=
    h.signals
  unfold NormalReaderWriter.readArea
  dsimp only [Entry.body]
  rw [exec_ite, if_neg hbar, pcieuniBarOffsets_getD hbar, exec_bind, exec_withPos,
    exec_readNoStruct d.isLt hsignals hcount]
  rfl

/-- A write of words that are in the bar. -/
theorem normalWrite_words {bar : Bar} {w : ℕ} (hclear : s (.flag .writeError) = false)
    (h : NormalCaller buf nWords.toNat ℓ) (hoff : offset.toNat = 4 * w)
    (hw : w ≤ bar.size / 4) :
    let m := min nWords.toNat (bar.size / 4 - w)
    let r := Bars.block (fun _ => s (.flag .spiError)) bar w (ℓ.user.copyWord buf) m 0 b
    let out := exec (NormalReaderWriter.writeArea B d offset bar.number nWords buf) ℓ (B.put d b s)
    (out.val = true ↔ r.err ≠ none ∨ m < nWords.toNat) ∧ out.store = B.put d r.bars s := by
  have hbar : ¬ bar.number > 5#32 := by cases bar <;> decide
  have hflag : (fun _ => s : ℕ → Store) 0 (.flag .writeError) = false := hclear
  dsimp only
  rw [exec_normalWrite h hbar, Bars.noStructWrite_ok hflag (span_client hoff hw)]
  dsimp only
  rw [decide_eq_true_iff,
    getD_ne_iff (fun e he => Bars.block_err_lt he) (Nat.min_le_left _ _)]
  exact ⟨Iff.rfl, rfl⟩

/-- A read of such words. -/
theorem normalRead_words {bar : Bar} {w : ℕ} (hclear : s (.flag .readError) = false)
    (h : NormalCaller buf nWords.toNat ℓ) (hoff : offset.toNat = 4 * w)
    (hw : w ≤ bar.size / 4) :
    let g := readWords bar w nWords.toNat
    let out := exec (NormalReaderWriter.readArea B d offset bar.number nWords buf) ℓ s
    (out.val = true ↔ g < nWords.toNat) ∧ ∀ j < 4 * nWords.toNat, out.loc.user.byte (buf + j) =
      if j < 4 * g then wordBytes ((B.bars d s).word bar) w j else ℓ.user.byte (buf + j) := by
  have hbar : ¬ bar.number > 5#32 := by cases bar <;> decide
  have hwritable : ℓ.user.Writable buf (4 * min nWords.toNat (bar.size / 4 - w)) :=
    fun j hj => h.writable j (by omega)
  have hle := okLen_le (fun i => !bar.rejectsRead i) w (min nWords.toNat (bar.size / 4 - w))
  dsimp only
  rw [exec_normalRead h hbar, hclear, Bars.noStructRead_ok (span_client hoff hw)]
  dsimp only
  rw [decide_eq_true_iff, getD_ne_iff (fun e he => Bars.deliver_err_lt he) (Nat.min_le_left _ _),
    Bars.deliver_of_writable hwritable]
  unfold readWords
  dsimp only
  refine ⟨?_, fun j hj => ?_⟩
  · split <;> simp <;> omega
  · rw [UserMem.set_byte, Nat.add_sub_cancel_left]
    exact if_congr (by omega) rfl rfl

end

/-! ## The two clients -/

/-- The calls throw in the same cases, and leave the same in the bars. -/
structure WritesAlike {N : ℕ} (B : Board N) (d e : Fin N) (out out' : Outcome Bool) : Prop where
  throws : out.val = out'.val
  bars : (B.bars d out.store).Agree (B.bars e out'.store)

/-- The calls throw in the same cases, and leave the same in the buffers of `n`
    words at `buf` and `buf'`. -/
structure ReadsAlike (buf buf' n : ℕ) (out out' : Outcome Bool) : Prop where
  throws : out.val = out'.val
  buffer : ∀ j < 4 * n, out.loc.user.byte (buf + j) = out'.loc.user.byte (buf' + j)

section
variable {N : ℕ} {B : Board N} {d e : Fin N} {s t : Store} {ℓ ℓ' : Local} {frame buf buf' : ℕ}
  {offset bar nWords : U32}

/-- A write that fails at the first word. -/
theorem structWrite_stopped (h : StructCaller frame buf nWords.toNat ℓ) (hn : nWords ≠ 0#32)
    (hstop : s (.flag .writeError) = true ∨ Refused bar.toNat offset.toNat 0) :
    let out := exec (StructReaderWriter.writeArea B d frame offset bar nWords buf) ℓ s
    out.val = true ∧ out.store = s := by
  obtain ⟨k, hk⟩ := Nat.exists_eq_add_one_of_ne_zero fun h0 => hn (BitVec.eq_of_toNat_eq h0)
  obtain ⟨u, hu, hrun⟩ := exec_writeSingle (B := B) (d := d) (s := s) (b := B.bars d s) h
    (BitVec.ofNat 32 (offset.toNat + 0 * 4)) bar (ℓ.user.word (buf + 4 * 0))
  have hsingle : (B.bars d s).writeSingle s (wordRequest (BitVec.ofNat 32 (offset.toNat + 0 * 4))
      bar (ℓ.user.word (buf + 4 * 0))) = (true, B.bars d s) := by
    unfold Bars.writeSingle
    rcases hstop with hfail | hrefused
    · rw [hfail, if_pos rfl]
    · rw [Nat.zero_mul, Nat.add_zero, BitVec.ofNat_toNat, BitVec.setWidth_eq,
        word_wordRequest_refused rfl hrefused, ite_self]
  rw [hsingle, put_bars] at hrun
  dsimp only
  rw [StructReaderWriter.writeArea, hk, StructReaderWriter.writeAreaLoop, exec_bind, exec_getUser,
    next_mk, exec_bind, hrun, next_mk, exec_ite, if_pos rfl]
  exact ⟨rfl, put_bars⟩

theorem structRead_stopped (h : StructCaller frame buf nWords.toNat ℓ) (hn : nWords ≠ 0#32)
    (hstop : s (.flag .readError) = true ∨ Refused bar.toNat offset.toNat 0) :
    let out := exec (StructReaderWriter.readArea B d frame offset bar nWords buf) ℓ s
    out.val = true ∧
      ∀ j < 4 * nWords.toNat, out.loc.user.byte (buf + j) = ℓ.user.byte (buf + j) := by
  obtain ⟨k, hk⟩ := Nat.exists_eq_add_one_of_ne_zero fun h0 => hn (BitVec.eq_of_toNat_eq h0)
  obtain ⟨u, hu, hrun⟩ := exec_readSingle (B := B) (d := d) (s := s) h
    (BitVec.ofNat 32 (offset.toNat + 0 * 4)) bar
  have hsingle : (B.bars d s).readSingle s (wordRequest (BitVec.ofNat 32 (offset.toNat + 0 * 4))
      bar 0#32) = none := by
    unfold Bars.readSingle
    rcases hstop with hfail | hrefused
    · rw [hfail, if_pos rfl]
    · rw [Nat.zero_mul, Nat.add_zero, BitVec.ofNat_toNat, BitVec.setWidth_eq,
        word_wordRequest_refused rfl hrefused, ite_self]
  rw [hsingle] at hrun
  dsimp only
  rw [StructReaderWriter.readArea, hk, StructReaderWriter.readAreaLoop, exec_bind, hrun, next_mk]
  exact ⟨rfl, fun j hj => h.byte_eq hu (by omega)⟩

/-- So does the one call. -/
theorem normalWrite_stopped (h : NormalCaller buf nWords.toNat ℓ)
    (hstop : s (.flag .writeError) = true ∨ Refused bar.toNat offset.toNat 0) :
    let out := exec (NormalReaderWriter.writeArea B d offset bar nWords buf) ℓ s
    out.val = true ∧ out.store = s := by
  dsimp only
  by_cases hbar : bar > 5#32
  · rw [NormalReaderWriter.writeArea, exec_ite, if_pos hbar]
    exact ⟨rfl, rfl⟩
  have hmax : maxRwCount = 0x7FFFF000 := rfl
  have hreply : (B.bars d s).noStructWrite (fun _ => s) ℓ.user buf
      (min (nWords.toNat * 4) maxRwCount) (bar.toNat * 2 ^ 60 + offset.toNat) =
      (-EFAULT, 0, B.bars d s) := by
    cases hfail : s (.flag .writeError) with
    | true => exact Bars.noStructWrite_of_flag hfail
    | false =>
      have hrefused := hstop.resolve_left (by rw [hfail]; exact Bool.false_ne_true)
      have hle : bar.toNat ≤ 5 := BitVec.not_lt.1 hbar
      exact Bars.noStructWrite_error hfail
        (span_refused (by omega) (by omega) ((refused_iff (by omega)).2 hrefused))
  have hrun := exec_normalWrite (B := B) (d := d) (s := s) (b := B.bars d s) h hbar offset
  rw [hreply, put_bars] at hrun
  rw [hrun]
  dsimp only
  refine ⟨decide_eq_true fun h => ?_, put_bars⟩
  have hneg : -EFAULT < 0 := by decide
  omega

theorem normalRead_stopped (h : NormalCaller buf nWords.toNat ℓ)
    (hstop : s (.flag .readError) = true ∨ Refused bar.toNat offset.toNat 0) :
    let out := exec (NormalReaderWriter.readArea B d offset bar nWords buf) ℓ s
    out.val = true ∧ out.loc.user = ℓ.user := by
  dsimp only
  by_cases hbar : bar > 5#32
  · rw [NormalReaderWriter.readArea, exec_ite, if_pos hbar]
    exact ⟨rfl, rfl⟩
  have hmax : maxRwCount = 0x7FFFF000 := rfl
  have hreply : (B.bars d s).noStructRead (s (.flag .readError)) ℓ.user buf
      (min (nWords.toNat * 4) maxRwCount) (bar.toNat * 2 ^ 60 + offset.toNat) =
      (-EFAULT, 0, ℓ.user) := by
    cases hfail : s (.flag .readError) with
    | true => rfl
    | false =>
      have hrefused := hstop.resolve_left (by rw [hfail]; exact Bool.false_ne_true)
      have hle : bar.toNat ≤ 5 := BitVec.not_lt.1 hbar
      exact Bars.noStructRead_error
        (span_refused (by omega) (by omega) ((refused_iff (by omega)).2 hrefused))
  rw [exec_normalRead h hbar, hreply]
  dsimp only
  refine ⟨decide_eq_true fun h => ?_, rfl⟩
  have hneg : -EFAULT < 0 := by decide
  omega

/-- An area that is not refused begins in a bar. -/
theorem exists_words (h : ¬ Refused bar.toNat offset.toNat 0) :
    ∃ (bar' : Bar) (w : ℕ), bar = bar'.number ∧ offset.toNat = 4 * w ∧ w ≤ bar'.size / 4 := by
  obtain ⟨bar', hnum⟩ := exists_bar_of_not_refused h
  have hmod : bar'.size % 4 = 0 := by cases bar' <;> rfl
  rw [hnum] at h
  unfold Refused at h
  rw [barBytes_number] at h
  exact ⟨bar', offset.toNat / 4, BitVec.eq_of_toNat_eq hnum, by omega, by omega⟩

/-- A word that both processes have in their buffers. -/
theorem copyWord_of_readable {u u' : UserMem} {j : ℕ} (h : u'.Readable (buf' + 4 * j) 4)
    (hdata : ∀ i < 4, u.byte (buf + 4 * j + i) = u'.byte (buf' + 4 * j + i)) :
    u'.copyWord buf' j = (u.word (buf + 4 * j), true) := by
  have hword : wordAt (u'.fetch (buf' + 4 * j) 4) 0 =
      wordAt (fun i => u.byte (buf + 4 * j + i)) 0 :=
    wordAt_congr fun i hi => by rw [Nat.zero_add, UserMem.fetch_of_readable h hi, hdata i hi]
  rw [UserMem.copyWord, UserMem.word, UserMem.readLen_eq_iff.2 h, hword, decide_eq_true rfl]

theorem writes_alike (hbars : (B.bars d s).Agree (B.bars e t))
    (hflags : ∀ f, s (.flag f) = t (.flag f)) (hn : nWords ≠ 0#32)
    (hℓ : StructCaller frame buf nWords.toNat ℓ) (hℓ' : NormalCaller buf' nWords.toNat ℓ')
    (hdata : ∀ j < 4 * nWords.toNat, ℓ.user.byte (buf + j) = ℓ'.user.byte (buf' + j)) :
    WritesAlike B d e
      (exec (StructReaderWriter.writeArea B d frame offset bar nWords buf) ℓ s)
      (exec (NormalReaderWriter.writeArea B e offset bar nWords buf') ℓ' t) := by
  by_cases hstop : s (.flag .writeError) = true ∨ Refused bar.toNat offset.toNat 0
  · obtain ⟨hval, hstore⟩ := structWrite_stopped (B := B) (d := d) hℓ hn hstop
    rw [hflags] at hstop
    obtain ⟨hval', hstore'⟩ := normalWrite_stopped (B := B) (d := e) hℓ' hstop
    exact ⟨hval.trans hval'.symm, by rw [hstore, hstore']; exact hbars⟩
  rw [not_or, Bool.not_eq_true] at hstop
  obtain ⟨hclear, hrefused⟩ := hstop
  obtain ⟨bar, w, rfl, hoff, hw⟩ := exists_words hrefused
  obtain ⟨hval, hstore⟩ := exec_writeAreaLoop (B := B) (d := d) (b := B.bars d s) hclear hℓ
    (Nat.zero_add _) hoff hw (v := fun j => ℓ.user.word (buf + 4 * j)) fun _ _ => rfl
  obtain ⟨hval', hstore'⟩ := normalWrite_words (B := B) (d := e) (b := B.bars e t)
    ((hflags _).symm.trans hclear) hℓ' hoff hw
  -- the words that the one client passes are those that the kernel copies from the other
  have hcopy : ∀ j < min nWords.toNat (bar.size / 4 - w),
      (ℓ.user.word (buf + 4 * (0 + j)), true) = ℓ'.user.copyWord buf' (0 + j) := fun j hj =>
    (copyWord_of_readable (fun i hi => by rw [Nat.add_assoc]; exact hℓ'.readable _ (by omega))
      fun i hi => by rw [Nat.add_assoc, Nat.add_assoc]; exact hdata _ (by omega)).symm
  obtain ⟨herr, hagree⟩ := hbars.block (s (.flag .spiError)) (i := 0)
    (fun j => (ℓ.user.word (buf + 4 * j), true)) (ℓ'.user.copyWord buf') hcopy
    (by omega : w + 0 + _ ≤ bar.size / 4)
  rw [put_bars] at hval hstore hval' hstore'
  rw [← hflags, ← herr] at hval'
  rw [← hflags] at hstore'
  refine ⟨Bool.eq_iff_iff.2 (hval.trans hval'.symm), ?_⟩
  rw [StructReaderWriter.writeArea, hstore, hstore', bars_put d.isLt, bars_put e.isLt]
  exact hagree

theorem reads_alike (hbars : (B.bars d s).Agree (B.bars e t))
    (hflags : ∀ f, s (.flag f) = t (.flag f)) (hn : nWords ≠ 0#32)
    (hℓ : StructCaller frame buf nWords.toNat ℓ) (hℓ' : NormalCaller buf' nWords.toNat ℓ')
    (hdata : ∀ j < 4 * nWords.toNat, ℓ.user.byte (buf + j) = ℓ'.user.byte (buf' + j)) :
    ReadsAlike buf buf' nWords.toNat
      (exec (StructReaderWriter.readArea B d frame offset bar nWords buf) ℓ s)
      (exec (NormalReaderWriter.readArea B e offset bar nWords buf') ℓ' t) := by
  by_cases hstop : s (.flag .readError) = true ∨ Refused bar.toNat offset.toNat 0
  · obtain ⟨hval, hbytes⟩ := structRead_stopped (B := B) (d := d) hℓ hn hstop
    rw [hflags] at hstop
    obtain ⟨hval', huser⟩ := normalRead_stopped (B := B) (d := e) hℓ' hstop
    refine ⟨hval.trans hval'.symm, fun j hj => ?_⟩
    rw [hbytes j hj, huser, hdata j hj]
  rw [not_or, Bool.not_eq_true] at hstop
  obtain ⟨hclear, hrefused⟩ := hstop
  obtain ⟨bar, w, rfl, hoff, hw⟩ := exists_words hrefused
  obtain ⟨hval, hbytes⟩ := exec_readAreaLoop (B := B) (d := d) hclear hℓ (Nat.zero_add _) hoff hw
  obtain ⟨hval', hbytes'⟩ := normalRead_words (B := B) (d := e) ((hflags _).symm.trans hclear) hℓ'
    hoff hw
  refine ⟨Bool.eq_iff_iff.2 (hval.trans hval'.symm), fun j hj => ?_⟩
  have hle := okLen_le (fun i => !bar.rejectsRead i) w (min nWords.toNat (bar.size / 4 - w))
  have hword : j < 4 * readWords bar w nWords.toNat →
      wordBytes ((B.bars d s).word bar) w j = wordBytes ((B.bars e t).word bar) w j := fun hlt =>
    congrArg (byteOf · (j % 4)) (hbars bar (w + j / 4) (by unfold readWords at hlt; omega))
  rw [StructReaderWriter.readArea, hbytes j hj, hbytes' j hj, hdata j hj]
  by_cases hlt : j < 4 * readWords bar w nWords.toNat
  · rw [if_pos hlt, if_pos (by rw [Nat.add_zero]; omega), hword hlt]
  · rw [if_neg hlt, if_neg (by rw [Nat.add_zero]; omega)]

/-- **The two interfaces are equivalent** for their clients. -/
theorem interfaces_equivalent (hbars : (B.bars d s).Agree (B.bars e t))
    (hflags : ∀ f, s (.flag f) = t (.flag f)) (hn : nWords ≠ 0#32)
    (hℓ : StructCaller frame buf nWords.toNat ℓ) (hℓ' : NormalCaller buf' nWords.toNat ℓ')
    (hdata : ∀ j < 4 * nWords.toNat, ℓ.user.byte (buf + j) = ℓ'.user.byte (buf' + j)) :
    WritesAlike B d e
        (exec (StructReaderWriter.writeArea B d frame offset bar nWords buf) ℓ s)
        (exec (NormalReaderWriter.writeArea B e offset bar nWords buf') ℓ' t) ∧
      ReadsAlike buf buf' nWords.toNat
        (exec (StructReaderWriter.readArea B d frame offset bar nWords buf) ℓ s)
        (exec (NormalReaderWriter.readArea B e offset bar nWords buf') ℓ' t) :=
  ⟨writes_alike hbars hflags hn hℓ hℓ' hdata, reads_alike hbars hflags hn hℓ hℓ' hdata⟩

end

/-- Two words of bar 0, of which the second is broken. -/
theorem interfaces_equivalent_broken :
    WritesAlike loadedBoard (0 : Fin nrDevs) (0 : Fin nrDevs)
        (exec (StructReaderWriter.writeArea loadedBoard 0 0 0x44#32 0#32 2#32 24)
          (readerLocal 0 0) clearFlags)
        (exec (NormalReaderWriter.writeArea loadedBoard 0 0x44#32 0#32 2#32 24)
          (readerLocal 0 0) clearFlags) ∧
      ReadsAlike 24 24 2
        (exec (StructReaderWriter.readArea loadedBoard 0 0 0x44#32 0#32 2#32 24)
          (readerLocal 0 0) clearFlags)
        (exec (NormalReaderWriter.readArea loadedBoard 0 0x44#32 0#32 2#32 24)
          (readerLocal 0 0) clearFlags) :=
  interfaces_equivalent (fun _ _ _ => rfl) (fun _ => rfl) (by decide)
    ⟨rfl, fun _ _ => rfl, fun _ _ => rfl, .inr (by decide)⟩
    ⟨rfl, fun _ _ => rfl, fun _ _ => rfl⟩ fun _ _ => rfl

end MtcaDummy

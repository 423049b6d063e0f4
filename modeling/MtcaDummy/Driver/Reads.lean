/-
  What a read delivers, as functions of the bars, the request and the memory of
  the process.

  An `Answer` is one copy to the user, and what the call returns if the copy is
  whole.  `Bars.structReply` is the answer of the struct interface to a
  request, and `Bars.dmaReply` that of an ioctl that reads by DMA.
  `Bars.deliver` copies consecutive words until one is broken or cannot be
  copied.  `exec_read`, `exec_ioctlDma` and `exec_readNoStruct` say that the
  entry points compute these functions.

  A read by DMA answers from `Board.seen`, where other memory lies behind the
  end of bar 2; if its range does not wrap it answers from the bars
  (`answer_structReply_seen`, `answer_dmaReply_seen`).
-/
import MtcaDummy.Driver.Writes

namespace MtcaDummy

/-! ## Deliveries -/

/-- The read of word `i` of a bar is answered with an error. -/
def Bar.rejectsRead : Bar → ℕ → Bool
  | .system, i => BitVec.ofNat 32 (4 * i) = brokenRegister
  | .dma, _ => false

theorem Bar.rejectsRead_iff {bar : Bar} {i : ℕ} (hi : i < bar.size / 4) :
    bar.rejectsRead i = true ↔ bar = .system ∧ i = 18 := by
  cases bar with
  | dma => simp [rejectsRead]
  | system =>
    have hsize : Bar.size .system = 128 := rfl
    simp only [rejectsRead, decide_eq_true_eq, true_and]
    constructor
    · intro h
      have hnat := congrArg BitVec.toNat h
      rw [BitVec.toNat_ofNat, Nat.mod_eq_of_lt (by omega)] at hnat
      have : brokenRegister.toNat = 72 := rfl
      omega
    · rintro rfl
      rfl

/-- The action before a read answers with an error. -/
theorem preRead_ne_zero (bar : Bar) (i : ℕ) (slot : U32) :
    mtcadummyPerformPreReadAction (BitVec.ofNat 32 (4 * i)) bar.number slot ≠ 0 ↔
      bar.rejectsRead i = true := by
  cases bar with
  | dma => simp [mtcadummyPerformPreReadAction, Bar.number, Bar.rejectsRead]
  | system =>
    simp only [mtcadummyPerformPreReadAction, Bar.number, Bar.rejectsRead, ne_eq,
      not_true_eq_false, if_false, decide_eq_true_eq]
    split <;> simp_all

/-- A request names a word that lies in its bar. -/
theorem DeviceRw.word_lt {r : DeviceRw} {bar : Bar} {i : ℕ} (h : r.word = some (bar, i)) :
    i < bar.size / 4 := by
  unfold word at h
  split at h
  · cases h
  · split at h
    · cases h
    · cases h
      have hsize : bar.size % 4 = 0 := by cases bar <;> rfl
      omega

/-- Byte `o` of a bar. -/
def Bars.byte (b : Bars) (bar : Bar) (o : ℕ) : Byte := byteOf (b.word bar (o / 4)) (o % 4)

/-- The bytes of the words from an aligned offset on. -/
theorem wordBytes_aligned (b : Bars) (bar : Bar) {o : ℕ} (h : o % 4 = 0) (j : ℕ) :
    wordBytes (b.word bar) (o / 4) j = b.byte bar (o + j) := by
  rw [wordBytes, Bars.byte, show o / 4 + j / 4 = (o + j) / 4 by omega,
    show j % 4 = (o + j) % 4 by omega]

/-- A copy of `size` bytes to the user; the call returns `val` if it is
    whole. -/
structure Answer where
  val : ℤ
  size : ℕ
  src : ℕ → Byte

/-- Nothing is copied. -/
def Answer.none (val : ℤ) : Answer := ⟨val, 0, fun _ => 0⟩

/-- The return value and the memory after the answer. -/
def UserMem.answer (u : UserMem) (dst : ℕ) (a : Answer) : ℤ × UserMem :=
  (if u.writeLen dst a.size = a.size then a.val else -EFAULT,
    u.set dst (u.writeLen dst a.size) a.src)

@[simp] theorem UserMem.answer_none (u : UserMem) (dst : ℕ) (val : ℤ) :
    u.answer dst (.none val) = (val, u) := by
  simp [answer, Answer.none]

theorem UserMem.answer_of_writable {u : UserMem} {dst : ℕ} {a : Answer}
    (h : u.Writable dst a.size) : u.answer dst a = (a.val, u.set dst a.size a.src) := by
  rw [answer, writeLen_eq_iff.2 h, if_pos rfl]

/-- Only the bytes to copy matter. -/
theorem UserMem.answer_congr {u : UserMem} {dst n : ℕ} {val : ℤ} {f g : ℕ → Byte}
    (h : ∀ j < n, f j = g j) : u.answer dst ⟨val, n, f⟩ = u.answer dst ⟨val, n, g⟩ := by
  rw [answer, answer, set_congr fun j hj => h j (hj.trans_le (u.writeLen_le dst n))]

/-! ## The struct interface -/

/-- The answer to a request for information. -/
def DeviceRw.info (r : DeviceRw) (slotNr : U32) : DeviceRw :=
  { r with
    offsetRw := drvVersionMin
    dataRw := drvVersionMaj
    barxRw := slotNr
    modeRw := drvVersionMaj + 1#32
    sizeRw := drvVersionMin + 1#32 }

/-- The answer to a request. -/
def Bars.structAnswer (b : Bars) (slotNr : U32) (r : DeviceRw) : Answer :=
  if r.modeRw = rwInfo then ⟨sizeofDeviceRw, sizeofDeviceRw, (r.info slotNr).bytes⟩
  else if r.modeRw = rwD32 then
    match r.word with
    | none => .none (-EFAULT)
    | some (bar, i) =>
      if bar.rejectsRead i then .none (- EIO)
      else ⟨sizeofDeviceRw, sizeofDeviceRw, { r with dataRw := b.word bar i }.bytes⟩
  else if r.modeRw = rwDma then
    if r.sizeRw = 0#32 then .none 0
    else if r.sizeRw + r.offsetRw > BitVec.ofNat 32 dmaSize then .none (-EFAULT)
    else ⟨r.sizeRw.toNat, r.sizeRw.toNat, wordBytes b.dma (r.offsetRw.toNat / 4)⟩
  else .none (-EFAULT)

/-- The answer of `read`, once the mutex of the device is held. -/
def Bars.structReply (b : Bars) (slotNr : U32) (u : UserMem) (buf count : ℕ) : Answer :=
  if sizeofDeviceRw ≤ count ∧ u.readLen buf sizeofDeviceRw = sizeofDeviceRw then
    b.structAnswer slotNr (DeviceRw.ofBytes (u.fetch buf sizeofDeviceRw))
  else .none (-EFAULT)

theorem Bars.structReply_of_request (b : Bars) (slotNr : U32) {u : UserMem} {buf count : ℕ}
    {r : DeviceRw} (h : u.Request buf r) (hcount : sizeofDeviceRw ≤ count) :
    b.structReply slotNr u buf count = b.structAnswer slotNr r := by
  rw [structReply, if_pos ⟨hcount, UserMem.readLen_eq_iff.2 h.1⟩, h.ofBytes]

/-- The bars of device `d` as a read by DMA finds them: behind the end of bar 2
    lies what the allocator placed there. -/
def Board.seen {N : ℕ} (B : Board N) (d : ℕ) (s : Store) : Bars where
  system i := s (.word (B.dummyPrivateData d).systemBar i)
  dma i :=
    let cell := B.locate (B.dummyPrivateData d).dmaBar dmaSize i
    s (.word cell.1 cell.2)

section
variable {N : ℕ} {B : Board N} {d : ℕ} {ℓ : Local} {s : Store}

theorem seen_word {bar : Bar} {i : ℕ} (hi : i < bar.size / 4) :
    (B.seen d s).word bar i = (B.bars d s).word bar i := by
  cases bar with
  | system => rfl
  | dma =>
    have hlocate : B.locate (B.dummyPrivateData d).dmaBar dmaSize i =
        ((B.dummyPrivateData d).dmaBar, i) := Board.locate_of_lt hi
    exact congrArg (fun cell : Ptr × ℕ => s (.word cell.1 cell.2)) hlocate

/-- The bytes of a range that lies in bar 2. -/
theorem seen_dma {w n j : ℕ} (h : 4 * w + n ≤ dmaSize) (hj : j < n) :
    wordBytes (B.seen d s).dma w j = wordBytes (B.bars d s).dma w j :=
  wordBytes_locate B h hj s

theorem bars_word (bar : Bar) (i : ℕ) :
    s (.word (bar.base (B.dummyPrivateData d)) i) = (B.bars d s).word bar i := by
  cases bar <;> rfl

/-- A copy to the user, and the return. -/
theorem exec_answer (dst : ℕ) (src : ℕ → Byte) (n : ℕ) (m : Mutex) (val : ℤ) :
    exec (do
      if (← copyToUser dst src n) ≠ 0 then
        mutexUnlock m
        return -EFAULT
      mutexUnlock m
      return val) ℓ s =
      let a := Answer.mk val n src
      ⟨(ℓ.user.answer dst a).1, { ℓ with user := (ℓ.user.answer dst a).2 }, s⟩ := by
  simp only [exec_bind, exec_copyToUser, next_mk, exec_ite, exec_unlock, exec_pure, UserMem.answer]
  by_cases h : ℓ.user.writeLen dst n = n
  · rw [if_neg (by omega), if_pos h]
  · rw [if_pos (UserMem.writeLeft_ne_zero h), if_neg h]

/-- The same for a copy of bar 2. -/
theorem exec_answerFrom (dst w n : ℕ) (m : Mutex) (val : ℤ) :
    exec (do
      if (← copyToUserFrom B dst (B.dummyPrivateData d).dmaBar dmaSize w n) ≠ 0 then
        mutexUnlock m
        return -EFAULT
      mutexUnlock m
      return val) ℓ s =
      let a := Answer.mk val n (wordBytes (B.seen d s).dma w)
      ⟨(ℓ.user.answer dst a).1, { ℓ with user := (ℓ.user.answer dst a).2 }, s⟩ := by
  simp only [exec_bind, exec_copyToUserFrom, next_mk, exec_ite, exec_unlock, exec_pure,
    UserMem.answer]
  by_cases h : ℓ.user.writeLen dst n = n
  · rw [if_neg (by omega), if_pos h]
    rfl
  · rw [if_pos (UserMem.writeLeft_ne_zero h), if_neg h]
    rfl

/-- **The answer of the struct interface.** -/
theorem exec_readLocked (buf count : ℕ) :
    exec (mtcaDummyReadLocked B d buf count) ℓ s =
      let a := (B.seen d s).structReply (B.dummyPrivateData d).slotNr ℓ.user buf count
      ⟨(ℓ.user.answer buf a).1, { ℓ with user := (ℓ.user.answer buf a).2 }, s⟩ := by
  unfold mtcaDummyReadLocked Bars.structReply
  have hexit : ∀ v : ℤ, exec (do
      mutexUnlock (.devMutex d)
      return v) ℓ s = ⟨(ℓ.user.answer buf (.none v)).1,
        { ℓ with user := (ℓ.user.answer buf (.none v)).2 }, s⟩ := fun v => by
    rw [UserMem.answer_none]
    rfl
  by_cases hcount : count < sizeofDeviceRw
  · rw [exec_ite, if_pos hcount, hexit, if_neg fun h => Nat.not_le.2 hcount h.1]
  dsimp only
  rw [exec_ite, if_neg hcount, exec_bind, exec_copyFromUser, next_mk]
  dsimp only
  by_cases hcopy : ℓ.user.readLen buf sizeofDeviceRw = sizeofDeviceRw
  swap
  · rw [exec_ite, if_pos (UserMem.readLeft_ne_zero hcopy), hexit, if_neg fun h => hcopy h.2]
  have hleft : ¬ sizeofDeviceRw - ℓ.user.readLen buf sizeofDeviceRw ≠ 0 := by omega
  have hwhole : sizeofDeviceRw ≤ count ∧
      ℓ.user.readLen buf sizeofDeviceRw = sizeofDeviceRw := ⟨Nat.le_of_not_lt hcount, hcopy⟩
  rw [exec_ite, if_neg hleft, if_pos hwhole]
  generalize DeviceRw.ofBytes (ℓ.user.fetch buf sizeofDeviceRw) = r
  unfold Bars.structAnswer
  by_cases hinfo : r.modeRw = rwInfo
  · rw [exec_ite, if_pos hinfo, if_pos hinfo]
    exact exec_answer buf _ _ _ _
  rw [exec_ite, if_neg hinfo, if_neg hinfo]
  by_cases hword : r.modeRw = rwD32
  · rw [exec_ite, if_pos hword, if_pos hword, structBar_eq]
    cases hbar : Bar.ofNumber r.barxRw with
    | none => simp only [Option.map_none, hexit, DeviceRw.word, hbar]
    | some bar =>
      simp only [Option.map_some, DeviceRw.word, hbar]
      rw [exec_ite]
      by_cases hoff : r.offsetRw.toNat % 4 ≠ 0 ∨ r.offsetRw.toNat ≥ bar.size
      · rw [if_pos hoff, if_pos hoff, hexit]
      · have hoffset := ofNat_word r.offsetRw (by omega)
        have hlt : r.offsetRw.toNat / 4 < bar.size / 4 :=
          DeviceRw.word_lt (r := r) (by rw [DeviceRw.word, hbar]; exact if_neg hoff)
        have hpre := preRead_ne_zero bar (r.offsetRw.toNat / 4) (B.dummyPrivateData d).slotNr
        rw [hoffset, ← Bar.ofNumber_eq_some hbar] at hpre
        rw [if_neg hoff, if_neg hoff, exec_ite]
        dsimp only
        by_cases hrej : bar.rejectsRead (r.offsetRw.toNat / 4) = true
        · rw [if_pos (hpre.2 hrej), if_pos hrej, hexit]
        · rw [if_neg (fun h => hrej (hpre.1 h)), if_neg hrej, exec_bind, exec_loadWord, next_mk,
            bars_word (s := s), ← seen_word hlt]
          exact exec_answer buf _ _ _ _
  rw [exec_ite, if_neg hword, if_neg hword, exec_ite]
  by_cases hother : r.modeRw = rwD8 ∨ r.modeRw = rwD16
  · have hdma : r.modeRw ≠ rwDma := by
      rcases hother with h | h <;> rw [h] <;> decide
    rw [if_pos hother, if_neg hdma, hexit]
  rw [if_neg hother, exec_ite]
  by_cases hdma : r.modeRw = rwDma
  · rw [if_pos hdma, if_pos hdma, exec_ite]
    by_cases hzero : r.sizeRw = 0#32
    · rw [if_pos hzero, if_pos hzero, hexit]
    rw [if_neg hzero, if_neg hzero, exec_ite]
    by_cases hsum : r.sizeRw + r.offsetRw > BitVec.ofNat 32 dmaSize
    · rw [if_pos hsum, if_pos hsum, hexit]
    · rw [if_neg hsum, if_neg hsum]
      exact exec_answerFrom _ _ _ _ _
  · rw [if_neg hdma, if_neg hdma, hexit]

/-- The gates before the answer: a flag under the control mutex, then the
    mutex of the device. -/
theorem exec_gate {α : Type} (f : Flag) (y z w : KM α) (x : KM α) (hℓ : ℓ.signals = []) :
    exec (do
      if ← mutexLockInterruptible .controlMutex then
        y
      else
        let fail ← controlData f
        mutexUnlock .controlMutex
        if fail then
          z
        else if ← mutexLockInterruptible (.devMutex d) then
          w
        else
          x) ℓ s = if s (.flag f) then exec z ℓ s else exec x ℓ s := by
  rw [exec_bind, exec_lock_free hℓ, next_mk]
  simp only [Bool.false_eq_true, if_false, exec_bind, exec_controlData, next_mk, exec_unlock,
    exec_ite, exec_lock_free hℓ]

/-- **A read through the struct interface.** -/
theorem exec_read (hℓ : ℓ.signals = []) (buf count : ℕ) :
    exec (mtcaDummyRead B d buf count) ℓ s =
      if s (.flag .readError) then ⟨-EFAULT, ℓ, s⟩
      else
        let a := (B.seen d s).structReply (B.dummyPrivateData d).slotNr ℓ.user buf count
        ⟨(ℓ.user.answer buf a).1, { ℓ with user := (ℓ.user.answer buf a).2 }, s⟩ := by
  unfold mtcaDummyRead
  rw [exec_gate .readError _ _ _ _ hℓ, exec_readLocked]
  rfl

end

/-! ## The ioctls -/

/-- The answer to a request for a number, where `fill` enters it. -/
def dataAnswer (u : UserMem) (arg : ℕ) (fill : DeviceIoctrlData → DeviceIoctrlData) : Answer :=
  if u.readLen arg sizeofDeviceIoctrlData = sizeofDeviceIoctrlData then
    ⟨0, sizeofDeviceIoctrlData,
      (fill (DeviceIoctrlData.ofBytes (u.fetch arg sizeofDeviceIoctrlData))).bytes⟩
  else .none (-EFAULT)

/-- The answer to a request for a part of the DMA bar. -/
def Bars.dmaAnswer (b : Bars) (u : UserMem) (arg : ℕ) : Answer :=
  let r := DeviceIoctrlDma.ofBytes (u.fetch arg sizeofDeviceIoctrlDma)
  if u.readLen arg sizeofDeviceIoctrlDma = sizeofDeviceIoctrlDma ∧
      ¬ r.dmaOffset + r.dmaSize > BitVec.ofNat 32 dmaSize ∧ r.dmaOffset.toNat % 4 = 0 then
    ⟨0, r.dmaSize.toNat, wordBytes b.dma (r.dmaOffset.toNat / 4)⟩
  else .none (-EFAULT)

/-- The answer to a command, once the mutex of the device is held. -/
def IoctlConstants.command (c : IoctlConstants) (slotNr : U32) (b : Bars) (u : UserMem) (cmd : U32)
    (arg : ℕ) : Answer :=
  if cmd = c.physicalSlot then dataAnswer u arg fun r => { r with data := slotNr }
  else if cmd = c.driverVersion ∨ cmd = c.firmwareVersion then
    dataAnswer u arg fun r => { r with data := drvVersionMaj, offset := drvVersionMin }
  else if some cmd = c.readDma then b.dmaAnswer u arg
  else .none (-ENOTTY)

/-- The answer of a copy of the ioctl. -/
def IoctlConstants.answer (c : IoctlConstants) (slotNr : U32) (b : Bars) (u : UserMem) (cmd : U32)
    (arg : ℕ) : Answer :=
  if iocType cmd ≠ c.ioc ∨ c.wrongNr cmd then .none (-ENOTTY)
  else if u.accessOk arg (iocSize cmd).toNat = false then .none (-EFAULT)
  else c.command slotNr b u cmd arg

/-- The answer to an ioctl that reads by DMA, where `arg` is the address of
    the request and of the destination. -/
def Bars.dmaReply (b : Bars) (u : UserMem) (arg : ℕ) : Answer :=
  if u.accessOk arg 4 = true then b.dmaAnswer u arg else .none (-EFAULT)

/-- The command is the one to read by DMA of a copy of the ioctl. -/
structure IoctlConstants.ReadsDma (c : IoctlConstants) (cmd : U32) : Prop where
  readDma : c.readDma = some cmd
  type : iocType cmd = c.ioc
  nr : c.wrongNr cmd = false
  size : (iocSize cmd).toNat = 4
  ne : cmd ≠ c.physicalSlot ∧ cmd ≠ c.driverVersion ∧ cmd ≠ c.firmwareVersion

theorem mtcaDummyConstants_readsDma : mtcaDummyConstants.ReadsDma pciedevReadDma :=
  ⟨rfl, by decide, by decide, by decide, by decide⟩

theorem pcieuniDummyConstants_readsDma : pcieuniDummyConstants.ReadsDma pcieuniReadDma :=
  ⟨rfl, by decide, by decide, by decide, by decide⟩

/-- The answer to this command. -/
theorem IoctlConstants.ReadsDma.answer_eq {c : IoctlConstants} {cmd : U32} (hc : c.ReadsDma cmd)
    (slotNr : U32) (b : Bars) (u : UserMem) (arg : ℕ) :
    c.answer slotNr b u cmd arg = b.dmaReply u arg := by
  obtain ⟨hdma, htype, hnr, hsize, hslot, hdriver, hfirmware⟩ := hc
  have hcommand : c.command slotNr b u cmd arg = b.dmaAnswer u arg := by
    rw [command, if_neg hslot, if_neg (not_or.2 ⟨hdriver, hfirmware⟩), if_pos hdma.symm]
  rw [answer, if_neg (by simp [htype, hnr]), hsize, hcommand, Bars.dmaReply]
  cases u.accessOk arg 4 <;> rfl

section
variable {N : ℕ} {B : Board N} {d : ℕ} {ℓ : Local} {s : Store}

/-- A copy to the user, and the return of an ioctl. -/
theorem exec_ioctlAnswer (dst : ℕ) (src : ℕ → Byte) (n : ℕ) (m : Mutex) :
    exec (do
      let left ← copyToUser dst src n
      mutexUnlock m
      return if left ≠ 0 then -EFAULT else 0) ℓ s =
      let a := Answer.mk 0 n src
      ⟨(ℓ.user.answer dst a).1, { ℓ with user := (ℓ.user.answer dst a).2 }, s⟩ := by
  simp only [exec_bind, exec_copyToUser, next_mk, exec_unlock, exec_pure, UserMem.answer]
  by_cases h : ℓ.user.writeLen dst n = n
  · rw [if_neg (by omega), if_pos h]
  · rw [if_pos (UserMem.writeLeft_ne_zero h), if_neg h]

/-- The request for a number. -/
theorem exec_dataAnswer (arg : ℕ) (fill : DeviceIoctrlData → DeviceIoctrlData) (m : Mutex) :
    exec (do
      let (left, bytes) ← copyFromUser arg sizeofDeviceIoctrlData
      if left ≠ 0 then
        mutexUnlock m
        return -EFAULT
      let left ← copyToUser arg (fill (DeviceIoctrlData.ofBytes bytes)).bytes
        sizeofDeviceIoctrlData
      mutexUnlock m
      return if left ≠ 0 then -EFAULT else 0) ℓ s =
      let a := dataAnswer ℓ.user arg fill
      ⟨(ℓ.user.answer arg a).1, { ℓ with user := (ℓ.user.answer arg a).2 }, s⟩ := by
  rw [exec_bind, exec_copyFromUser, next_mk]
  dsimp only
  unfold dataAnswer
  by_cases hcopy : ℓ.user.readLen arg sizeofDeviceIoctrlData = sizeofDeviceIoctrlData
  · rw [exec_ite, if_neg (by omega), if_pos hcopy]
    exact exec_ioctlAnswer _ _ _ _
  · rw [exec_ite, if_pos (UserMem.readLeft_ne_zero hcopy), if_neg hcopy, UserMem.answer_none]
    rfl

/-- The request for a part of the DMA bar. -/
theorem exec_dmaAnswer (arg : ℕ) :
    exec (do
      let (left, bytes) ← copyFromUser arg sizeofDeviceIoctrlDma
      if left ≠ 0 then
        mutexUnlock (.devMutex d)
        return -EFAULT
      let dmaStruct := DeviceIoctrlDma.ofBytes bytes
      if dmaStruct.dmaOffset + dmaStruct.dmaSize > BitVec.ofNat 32 dmaSize then
        mutexUnlock (.devMutex d)
        return -EFAULT
      if dmaStruct.dmaOffset.toNat % 4 ≠ 0 then
        mutexUnlock (.devMutex d)
        return -EFAULT
      let left ← copyToUserFrom B arg (B.dummyPrivateData d).dmaBar dmaSize
        (dmaStruct.dmaOffset.toNat / 4) dmaStruct.dmaSize.toNat
      mutexUnlock (.devMutex d)
      return if left ≠ 0 then -EFAULT else 0) ℓ s =
      let a := (B.seen d s).dmaAnswer ℓ.user arg
      ⟨(ℓ.user.answer arg a).1, { ℓ with user := (ℓ.user.answer arg a).2 }, s⟩ := by
  have hexit : exec (do
      mutexUnlock (.devMutex d)
      return -EFAULT) ℓ s = ⟨(ℓ.user.answer arg (.none (-EFAULT))).1,
        { ℓ with user := (ℓ.user.answer arg (.none (-EFAULT))).2 }, s⟩ := by
    rw [UserMem.answer_none]
    rfl
  rw [exec_bind, exec_copyFromUser, next_mk]
  unfold Bars.dmaAnswer
  dsimp only
  by_cases hcopy : ℓ.user.readLen arg sizeofDeviceIoctrlDma = sizeofDeviceIoctrlDma
  swap
  · rw [exec_ite, if_pos (UserMem.readLeft_ne_zero hcopy), hexit, if_neg fun h => hcopy h.1]
  rw [exec_ite, if_neg (by omega)]
  generalize DeviceIoctrlDma.ofBytes (ℓ.user.fetch arg sizeofDeviceIoctrlDma) = r
  by_cases hsum : r.dmaOffset + r.dmaSize > BitVec.ofNat 32 dmaSize
  · rw [exec_ite, if_pos hsum, hexit, if_neg fun h => h.2.1 hsum]
  by_cases halign : r.dmaOffset.toNat % 4 = 0
  swap
  · rw [exec_ite, if_neg hsum, exec_ite, if_pos halign, hexit, if_neg fun h => halign h.2.2]
  rw [exec_ite, if_neg hsum, exec_ite, if_neg (not_not.2 halign), if_pos ⟨hcopy, hsum, halign⟩]
  simp only [exec_bind, exec_copyToUserFrom, next_mk, exec_unlock, exec_pure, UserMem.answer]
  by_cases hall : ℓ.user.writeLen arg r.dmaSize.toNat = r.dmaSize.toNat
  · rw [if_neg (by omega), if_pos hall]
    rfl
  · rw [if_pos (UserMem.writeLeft_ne_zero hall), if_neg hall]
    rfl

theorem exec_ioctlLocked (c : IoctlConstants) (cmd : U32) (arg : ℕ) :
    exec (dummyIoctlLocked B c d cmd arg) ℓ s =
      let a := c.command (B.dummyPrivateData d).slotNr (B.seen d s) ℓ.user cmd arg
      ⟨(ℓ.user.answer arg a).1, { ℓ with user := (ℓ.user.answer arg a).2 }, s⟩ := by
  unfold dummyIoctlLocked IoctlConstants.command
  dsimp only
  rw [exec_ite]
  by_cases hslot : cmd = c.physicalSlot
  · rw [if_pos hslot, if_pos hslot]
    exact exec_dataAnswer arg
      (fun r => { r with data := (B.dummyPrivateData d).slotNr }) (.devMutex d)
  rw [if_neg hslot, if_neg hslot, exec_ite]
  by_cases hversion : cmd = c.driverVersion ∨ cmd = c.firmwareVersion
  · rw [if_pos hversion, if_pos hversion]
    exact exec_dataAnswer arg
      (fun r => { r with data := drvVersionMaj, offset := drvVersionMin }) (.devMutex d)
  rw [if_neg hversion, if_neg hversion, exec_ite]
  by_cases hdma : some cmd = c.readDma
  · rw [if_pos hdma, if_pos hdma]
    exact exec_dmaAnswer arg
  · rw [if_neg hdma, if_neg hdma, UserMem.answer_none]
    rfl

/-- **The answer of the ioctl**, for every command. -/
theorem exec_ioctl (c : IoctlConstants) (hℓ : ℓ.signals = []) (cmd : U32) (arg : ℕ) :
    exec (dummyIoctl B c d cmd arg) ℓ s =
      let a := c.answer (B.dummyPrivateData d).slotNr (B.seen d s) ℓ.user cmd arg
      ⟨(ℓ.user.answer arg a).1, { ℓ with user := (ℓ.user.answer arg a).2 }, s⟩ := by
  have hexit : ∀ v : ℤ, exec (pure v) ℓ s = ⟨(ℓ.user.answer arg (.none v)).1,
      { ℓ with user := (ℓ.user.answer arg (.none v)).2 }, s⟩ := fun v => by
    rw [UserMem.answer_none]
    rfl
  unfold dummyIoctl IoctlConstants.answer
  rw [exec_ite]
  by_cases htype : iocType cmd = c.ioc
  swap
  · rw [if_pos htype, if_pos (.inl htype), hexit]
  rw [if_neg (not_not.2 htype), exec_ite]
  cases hnr : c.wrongNr cmd with
  | true => rw [if_pos rfl, if_pos (.inr rfl), hexit]
  | false =>
    have hpass : ¬ (iocType cmd ≠ c.ioc ∨ false = true) := not_or.2 ⟨not_not.2 htype, by simp⟩
    rw [if_neg Bool.false_ne_true, if_neg hpass, exec_bind, exec_accessOk, next_mk, exec_ite]
    cases hok : ℓ.user.accessOk arg (iocSize cmd).toNat with
    | false => rw [if_pos (show (!false) = true from rfl), if_pos rfl, hexit]
    | true =>
      rw [if_neg (show ¬ (!true) = true from Bool.false_ne_true),
        if_neg (Ne.symm Bool.false_ne_true), exec_bind, exec_lock_free hℓ, next_mk, exec_ite,
        if_neg Bool.false_ne_true, exec_ioctlLocked]

/-- **A read by DMA through an ioctl.** -/
theorem exec_ioctlDma {c : IoctlConstants} {cmd : U32} (hc : c.ReadsDma cmd)
    (hℓ : ℓ.signals = []) (arg : ℕ) :
    exec (dummyIoctl B c d cmd arg) ℓ s =
      let a := (B.seen d s).dmaReply ℓ.user arg
      ⟨(ℓ.user.answer arg a).1, { ℓ with user := (ℓ.user.answer arg a).2 }, s⟩ := by
  rw [exec_ioctl c hℓ, hc.answer_eq]

/-- The range lies in bar 2, if the check accepts it and the sum does not
    wrap. -/
theorem dma_range {offset size : U32} (hsum : SumPasses offset size)
    (h : SumPasses offset size → offset.toNat + size.toNat < 2 ^ 32) :
    4 * (offset.toNat / 4) + size.toNat ≤ dmaSize := (range_inside_iff hsum).2 (h hsum)

/-- **A request in range is answered from the bars.** -/
theorem answer_structAnswer_seen {r : DeviceRw} (hin : r.modeRw = rwDma →
      SumPasses r.offsetRw r.sizeRw → r.offsetRw.toNat + r.sizeRw.toNat < 2 ^ 32)
    {u : UserMem} {slotNr : U32} (dst : ℕ) :
    u.answer dst ((B.seen d s).structAnswer slotNr r) =
      u.answer dst ((B.bars d s).structAnswer slotNr r) := by
  unfold Bars.structAnswer
  by_cases hinfo : r.modeRw = rwInfo
  · rw [if_pos hinfo, if_pos hinfo]
  rw [if_neg hinfo, if_neg hinfo]
  by_cases hword : r.modeRw = rwD32
  · rw [if_pos hword, if_pos hword]
    cases hr : r.word with
    | none => rfl
    | some x =>
      dsimp only
      rw [seen_word (DeviceRw.word_lt hr)]
  rw [if_neg hword, if_neg hword]
  by_cases hdma : r.modeRw = rwDma
  swap
  · rw [if_neg hdma, if_neg hdma]
  rw [if_pos hdma, if_pos hdma]
  split
  · rfl
  split
  · rfl
  rename_i hsum
  have hsum' : SumPasses r.offsetRw r.sizeRw := by
    rw [SumPasses, BitVec.add_comm]
    exact hsum
  have hrange := dma_range hsum' (hin hdma)
  exact UserMem.answer_congr fun j hj => seen_dma hrange hj

theorem answer_structReply_seen (slotNr : U32) (u : UserMem) {buf : ℕ} (count : ℕ)
    (hin : ∀ r, r = DeviceRw.ofBytes (u.fetch buf sizeofDeviceRw) → r.modeRw = rwDma →
      SumPasses r.offsetRw r.sizeRw → r.offsetRw.toNat + r.sizeRw.toNat < 2 ^ 32) (dst : ℕ) :
    u.answer dst ((B.seen d s).structReply slotNr u buf count) =
      u.answer dst ((B.bars d s).structReply slotNr u buf count) := by
  unfold Bars.structReply
  split
  · exact answer_structAnswer_seen (hin _ rfl) dst
  · rfl

/-- So is an ioctl in range. -/
theorem answer_dmaAnswer_seen {u : UserMem} {arg : ℕ}
    (hin : ∀ r, r = DeviceIoctrlDma.ofBytes (u.fetch arg sizeofDeviceIoctrlDma) →
      SumPasses r.dmaOffset r.dmaSize → r.dmaOffset.toNat + r.dmaSize.toNat < 2 ^ 32) (dst : ℕ) :
    u.answer dst ((B.seen d s).dmaAnswer u arg) = u.answer dst ((B.bars d s).dmaAnswer u arg) := by
  unfold Bars.dmaAnswer
  dsimp only
  split
  · rename_i hok
    exact UserMem.answer_congr fun j hj => seen_dma (dma_range hok.2.1 (hin _ rfl)) hj
  · rfl

theorem answer_dmaReply_seen {u : UserMem} {arg : ℕ}
    (hin : ∀ r, r = DeviceIoctrlDma.ofBytes (u.fetch arg sizeofDeviceIoctrlDma) →
      SumPasses r.dmaOffset r.dmaSize → r.dmaOffset.toNat + r.dmaSize.toNat < 2 ^ 32) (dst : ℕ) :
    u.answer dst ((B.seen d s).dmaReply u arg) = u.answer dst ((B.bars d s).dmaReply u arg) := by
  unfold Bars.dmaReply
  split
  · exact answer_dmaAnswer_seen hin dst
  · rfl

theorem answer_ioctl_seen (slotNr : U32) {c : IoctlConstants} {u : UserMem} {cmd : U32} {arg : ℕ}
    (hin : some cmd = c.readDma →
      ∀ r, r = DeviceIoctrlDma.ofBytes (u.fetch arg sizeofDeviceIoctrlDma) →
        SumPasses r.dmaOffset r.dmaSize → r.dmaOffset.toNat + r.dmaSize.toNat < 2 ^ 32) (dst : ℕ) :
    u.answer dst (c.answer slotNr (B.seen d s) u cmd arg) =
      u.answer dst (c.answer slotNr (B.bars d s) u cmd arg) := by
  unfold IoctlConstants.answer IoctlConstants.command
  split
  · rfl
  split
  · rfl
  split
  · rfl
  split
  · rfl
  split
  · exact answer_dmaAnswer_seen (hin ‹_›) dst
  · rfl

end

/-! ## The other interface -/

/-- What reading consecutive words comes to: the error that ended it, the
    number of words delivered, and the memory of the process. -/
structure Delivery where
  err : Option ℤ
  words : ℕ
  user : UserMem

/-- The number of bytes copied to `buf` by `k` copies of a word each, up to the
    first that is not whole. -/
def UserMem.wordsLen (u : UserMem) (buf : ℕ) : ℕ → ℕ
  | 0 => 0
  | k + 1 => if u.writeLen buf 4 = 4 then 4 + u.wordsLen (buf + 4) k else u.writeLen buf 4

theorem UserMem.wordsLen_of_writable {u : UserMem} {buf k : ℕ} (h : u.Writable buf (4 * k)) :
    u.wordsLen buf k = 4 * k := by
  induction k generalizing buf with
  | zero => rfl
  | succ k ih =>
    have hfirst : u.Writable buf 4 := fun j hj => h j (by omega)
    have hrest : u.Writable (buf + 4) (4 * k) := fun j hj => by
      rw [Nat.add_assoc]
      exact h (4 + j) (by omega)
    rw [wordsLen, if_pos (writeLen_eq_iff.2 hfirst), ih hrest]
    omega

@[simp] theorem UserMem.set_wordsLen {u : UserMem} (a n : ℕ) (src : ℕ → Byte) (buf k : ℕ) :
    (u.set a n src).wordsLen buf k = u.wordsLen buf k := by
  induction k generalizing buf with
  | zero => rfl
  | succ k ih => rw [wordsLen, wordsLen, set_writeLen, ih]

/-- The `k` words from word `w` of a bar on, delivered to `buf`, until one is
    broken or cannot be copied. -/
def Bars.deliver (b : Bars) (bar : Bar) (w k : ℕ) (u : UserMem) (buf : ℕ) : Delivery :=
  let good := okLen (fun i => !bar.rejectsRead i) w k
  let len := u.wordsLen buf k
  { err :=
      if len / 4 < good then some (-EFAULT) else if good < k then some (- EIO) else none
    words := min good (len / 4)
    user := u.set buf (min (4 * good) len) (wordBytes (b.word bar) w) }

/-- A read through this interface. -/
def Bars.noStructRead (b : Bars) (readFail : Bool) (u : UserMem) (buf count pos : ℕ) :
    ℤ × ℕ × UserMem :=
  if readFail then (-EFAULT, 0, u)
  else match span count pos with
  | .error e => (e, 0, u)
  | .ok t =>
    let r := b.deliver t.bar t.first t.words u buf
    (r.err.getD (4 * t.words), r.words, r.user)

namespace Bars
variable {b : Bars} {bar : Bar} {w k : ℕ} {u : UserMem} {buf : ℕ}

theorem noStructRead_error {e : ℤ} {count pos : ℕ} (h : span count pos = .error e) :
    b.noStructRead false u buf count pos = (e, 0, u) := by
  simp only [noStructRead, h, Bool.false_eq_true, if_false]

theorem noStructRead_ok {t : Span} {count pos : ℕ} (h : span count pos = .ok t) :
    b.noStructRead false u buf count pos =
      let r := b.deliver t.bar t.first t.words u buf
      (r.err.getD (4 * t.words), r.words, r.user) := by
  simp only [noStructRead, h, Bool.false_eq_true, if_false]

/-- A broken word ends the delivery. -/
theorem deliver_broken (h : bar.rejectsRead w = true) :
    b.deliver bar w (k + 1) u buf = ⟨some (- EIO), 0, u⟩ := by
  simp [deliver, okLen, h]

theorem okLen_good (h : bar.rejectsRead w = false) :
    okLen (fun i => !bar.rejectsRead i) w (k + 1) =
      okLen (fun i => !bar.rejectsRead i) (w + 1) k + 1 := by
  rw [okLen, if_pos (by simp [h])]

/-- So does one that cannot be copied. -/
theorem deliver_fault (h : bar.rejectsRead w = false) (hcopy : u.writeLen buf 4 ≠ 4) :
    b.deliver bar w (k + 1) u buf =
      ⟨some (-EFAULT), 0, u.set buf (u.writeLen buf 4) (byteOf (b.word bar w))⟩ := by
  have hle := u.writeLen_le buf 4
  have hgood := okLen_good (k := k) h
  have hlen : u.wordsLen buf (k + 1) = u.writeLen buf 4 := if_neg hcopy
  simp only [deliver, hgood, hlen, Delivery.mk.injEq]
  refine ⟨if_pos (by omega), by omega, ?_⟩
  rw [Nat.min_eq_right (by omega)]
  exact UserMem.set_congr fun j hj => wordBytes_of_lt (by omega)

/-- A word delivered, and the rest. -/
theorem deliver_succ (h : bar.rejectsRead w = false) (hcopy : u.writeLen buf 4 = 4) :
    b.deliver bar w (k + 1) u buf =
      let r := b.deliver bar (w + 1) k (u.set buf 4 (byteOf (b.word bar w))) (buf + 4)
      { r with words := r.words + 1 } := by
  have hlen : u.wordsLen buf (k + 1) = 4 + u.wordsLen (buf + 4) k := if_pos hcopy
  simp only [deliver, okLen_good h, hlen, UserMem.set_wordsLen, Delivery.mk.injEq]
  have herr : ∀ good len : ℕ,
      (if (4 + len) / 4 < good + 1 then some (-EFAULT)
        else if good + 1 < k + 1 then some (- EIO) else none) =
      if len / 4 < good then some (-EFAULT) else if good < k then some (- EIO) else none := by
    intro good len
    have hdiv : (4 + len) / 4 = len / 4 + 1 := Nat.add_div_left _ (by decide)
    split_ifs <;> first | rfl | omega
  refine ⟨herr _ _, by omega, ?_⟩
  rw [UserMem.set_set]
  have hmin : ∀ good len, min (4 * (good + 1)) (4 + len) = 4 + min (4 * good) len := by omega
  rw [hmin]
  refine UserMem.set_congr fun j hj => ?_
  split
  · rename_i hj4
    exact wordBytes_of_lt hj4
  · rename_i hj4
    exact (wordBytes_succ (Nat.le_of_not_lt hj4)).symm

/-- If all can be copied, only the broken register ends the delivery. -/
theorem deliver_of_writable (h : u.Writable buf (4 * k)) : b.deliver bar w k u buf =
    { err := if okLen (fun i => !bar.rejectsRead i) w k < k then some (- EIO) else none
      words := okLen (fun i => !bar.rejectsRead i) w k
      user := u.set buf (4 * okLen (fun i => !bar.rejectsRead i) w k) (wordBytes (b.word bar) w) } := by
  have hgood := okLen_le (fun i => !bar.rejectsRead i) w k
  rw [deliver, UserMem.wordsLen_of_writable h]
  simp only [Nat.mul_div_cancel_left k (by decide : 0 < 4), Nat.not_lt.2 hgood, if_false,
    Nat.min_eq_left hgood, Nat.min_eq_left (Nat.mul_le_mul_left 4 hgood)]

/-- The words delivered end before the last if they contain the broken
    register. -/
theorem good_lt_iff (hk : w + k ≤ bar.size / 4) :
    okLen (fun i => !bar.rejectsRead i) w k < k ↔ bar = .system ∧ w ≤ 18 ∧ 18 < w + k := by
  have hle := okLen_le (fun i => !bar.rejectsRead i) w k
  have hiff : okLen (fun i => !bar.rejectsRead i) w k = k ↔
      ∀ j < k, (!bar.rejectsRead (w + j)) = true := okLen_eq_iff
  rw [Nat.lt_iff_le_and_ne, and_iff_right hle, ne_eq, hiff]
  simp only [Bool.not_eq_true', not_forall, Bool.not_eq_false]
  constructor
  · rintro ⟨j, hj, hrej⟩
    obtain ⟨hbar, h18⟩ := (Bar.rejectsRead_iff (by omega)).1 hrej
    exact ⟨hbar, by omega, by omega⟩
  · rintro ⟨hbar, hlow, hhigh⟩
    exact ⟨18 - w, by omega, (Bar.rejectsRead_iff (by omega)).2 ⟨hbar, by omega⟩⟩

end Bars

section
variable {N : ℕ} {B : Board N} {d : ℕ} {ℓ : Local} {s : Store}

/-- **The loop of the read delivers the words.** -/
theorem exec_readLoop {t : Span} {buf k i : ℕ} (hk : t.first + i + k ≤ t.bar.size / 4) :
    exec (readNoStructLoop B d (t.information (B.dummyPrivateData d)) buf k i) ℓ s =
      let r := (B.bars d s).deliver t.bar (t.first + i) k ℓ.user (buf + 4 * i)
      ⟨r.err.getD (4 * t.words), { ℓ with user := r.user, fPos := ℓ.fPos + 4 * r.words }, s⟩ := by
  induction k generalizing i ℓ with
  | zero =>
    have hend : (B.bars d s).deliver t.bar (t.first + i) 0 ℓ.user (buf + 4 * i) =
        ⟨none, 0, ℓ.user⟩ := by
      simp [Bars.deliver, okLen]
    rw [hend]
    rfl
  | succ k ih =>
    have hdma : dmaSize = 4096 := rfl
    have hsize := t.bar.size_le
    have hloop : i * 4 % 2 ^ 32 = 4 * i := by omega
    have hfirst : 4 * t.first / 4 = t.first := by omega
    have hword : BitVec.ofNat 32 (4 * t.first + 4 * i) = BitVec.ofNat 32 (4 * (t.first + i)) := by
      rw [Nat.mul_add]
    have hpre := preRead_ne_zero t.bar (t.first + i) (B.dummyPrivateData d).slotNr
    rw [← hword] at hpre
    change mtcadummyPerformPreReadAction (BitVec.ofNat 32 ((t.information
      (B.dummyPrivateData d)).offset + 4 * i)) (t.information (B.dummyPrivateData d)).bar _ ≠ 0 ↔ _
      at hpre
    have hexit : ∀ (v : ℤ) (ℓ : Local), exec (do
        mutexUnlock (.devMutex d)
        return v) ℓ s = ⟨v, ℓ, s⟩ := fun _ _ => rfl
    rw [readNoStructLoop]
    dsimp only
    rw [hloop, exec_ite]
    by_cases hrej : t.bar.rejectsRead (t.first + i) = true
    · rw [if_pos (hpre.2 hrej), hexit, Bars.deliver_broken hrej]
      rfl
    have hgood : t.bar.rejectsRead (t.first + i) = false := eq_false_of_ne_true hrej
    rw [if_neg fun h => hrej (hpre.1 h)]
    dsimp only [Span.information]
    rw [hfirst, exec_bind, exec_copyToUserFrom, next_mk, exec_ite]
    have hbytes : ∀ n ≤ 4, ℓ.user.set (buf + 4 * i) n (wordBytes (fun j =>
          s (.word (B.locate (t.bar.base (B.dummyPrivateData d)) t.bar.size j).1
            (B.locate (t.bar.base (B.dummyPrivateData d)) t.bar.size j).2)) (t.first + i)) =
        ℓ.user.set (buf + 4 * i) n (byteOf ((B.bars d s).word t.bar (t.first + i))) :=
      fun n hn => UserMem.set_congr fun j hj => by
        rw [wordBytes_of_lt (by omega), Board.locate_of_lt (by omega), bars_word (s := s)]
    by_cases hcopy : ℓ.user.writeLen (buf + 4 * i) 4 = 4
    · rw [hcopy, if_neg (fun h => h rfl), exec_bind, exec_getPos, next_mk, exec_bind, exec_setPos,
        next_mk, Bars.deliver_succ hgood hcopy]
      refine (ih (by omega)).trans ?_
      dsimp only
      rw [hbytes 4 (Nat.le_refl 4), show t.first + (i + 1) = t.first + i + 1 by omega,
        show buf + 4 * (i + 1) = buf + 4 * i + 4 by omega]
      simp only [Nat.mul_add, Nat.mul_one, Nat.add_assoc, Nat.add_comm 4]
    · rw [if_pos (UserMem.writeLeft_ne_zero hcopy), hexit, Bars.deliver_fault hgood hcopy,
        hbytes _ (UserMem.writeLen_le _ _ _)]
      rfl

/-- **A read through the other interface.** -/
theorem exec_readNoStruct (hd : d < N) (hℓ : ℓ.signals = []) {buf count : ℕ}
    (hcount : count < 2 ^ 32) :
    exec (mtcaDummyReadNoStruct B d buf count) ℓ s =
      let r := (B.bars d s).noStructRead (s (.flag .readError)) ℓ.user buf count ℓ.fPos
      ⟨r.1, { ℓ with user := r.2.2, fPos := ℓ.fPos + 4 * r.2.1 }, s⟩ := by
  unfold mtcaDummyReadNoStruct Bars.noStructRead
  rw [exec_bind, exec_lock_free hℓ, next_mk]
  simp only [Bool.false_eq_true, if_false, exec_bind, exec_controlData, next_mk, exec_unlock,
    exec_ite, exec_getPos]
  cases s (.flag .readError) with
  | true => rfl
  | false =>
    simp only [Bool.false_eq_true, if_false]
    rw [check_eq_span hd hcount]
    cases ht : span count ℓ.fPos with
    | error e => rfl
    | ok t =>
      have hle := span_le ht
      have hsize := t.bar.size_le
      simp only [Except.map]
      rw [exec_bind, exec_lock_free hℓ, next_mk]
      simp only [Bool.false_eq_true, if_false]
      have hwords : (t.information (B.dummyPrivateData d)).nBytesToTransfer / 4 = t.words := by
        simp only [Span.information]
        omega
      rw [hwords]
      exact exec_readLoop (by omega)

end

end MtcaDummy

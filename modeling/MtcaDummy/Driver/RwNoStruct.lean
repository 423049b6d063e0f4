/-
  The entry points of the device file without the struct interface
  (mtcadummy_rw_no_struct.c): the bar number is in the bits 60 to 62 of the
  file position, and the words of a transfer are processed one by one.
-/
import MtcaDummy.Driver.Drv

namespace MtcaDummy

/-- `transfer_information`, less `barEnd`, which nothing reads. -/
structure TransferInformation where
  bar : U32
  offset : ℕ
  barSizeInBytes : ℕ
  barStart : Ptr
  nBytesToTransfer : ℕ

/-- The switch on the bar number: start and size of the bar. -/
def noStructBar (deviceData : MtcaDummyData) (bar : U32) : Option (Ptr × ℕ) :=
  if bar = 0#32 then some (deviceData.systemBar, nRegisters * 4)
  else if bar = 2#32 then some (deviceData.dmaBar, dmaSize)
  else if bar = 1#32 ∨ bar = 3#32 ∨ bar = 4#32 ∨ bar = 5#32 then some (NULL, 0)
  else none

/-- Checks the input and calculates the transfer information.  The sum of
    offset and count is one of 64 bit words, the number of bytes one of 32. -/
def checkAndCalculateTransferInformation (deviceData : MtcaDummyData) (count virtualOffset : ℕ) :
    Except ℤ TransferInformation :=
  if virtualOffset % 4 ≠ 0 then .error (-EFAULT)
  else if count % 4 ≠ 0 then .error (-EFAULT)
  else
    let bar := BitVec.ofNat 32 ((virtualOffset >>> 60) &&& 0x7)
    let offset := virtualOffset &&& 0x0FFFFFFFFFFFFFFF
    match noStructBar deviceData bar with
    | none => .error (-EFAULT)
    | some (barStart, barSizeInBytes) =>
      if barStart = NULL then .error (-EFAULT)
      else if offset > barSizeInBytes then .error (-EFAULT)
      else .ok
        { bar, offset, barSizeInBytes, barStart
          nBytesToTransfer :=
            (if barSizeInBytes < (offset + count) % 2 ^ 64 then barSizeInBytes - offset
             else count) % 2 ^ 32 }

/-- What the check establishes. -/
structure TransferInformation.Checked (deviceData : MtcaDummyData) (count virtualOffset : ℕ)
    (t : TransferInformation) : Prop where
  pos_mod : virtualOffset % 4 = 0
  count_mod : count % 4 = 0
  bar_eq : t.bar = BitVec.ofNat 32 ((virtualOffset >>> 60) &&& 0x7)
  offset_eq : t.offset = virtualOffset &&& 0x0FFFFFFFFFFFFFFF
  bar : noStructBar deviceData t.bar = some (t.barStart, t.barSizeInBytes)
  barStart_ne : t.barStart ≠ NULL
  offset_le : t.offset ≤ t.barSizeInBytes
  nBytes_eq : t.nBytesToTransfer =
    (if t.barSizeInBytes < (t.offset + count) % 2 ^ 64 then t.barSizeInBytes - t.offset
     else count) % 2 ^ 32

theorem check_ok {deviceData : MtcaDummyData} {count virtualOffset : ℕ} {t : TransferInformation}
    (h : checkAndCalculateTransferInformation deviceData count virtualOffset = .ok t) :
    t.Checked deviceData count virtualOffset := by
  unfold checkAndCalculateTransferInformation at h
  split at h
  · cases h
  split at h
  · cases h
  rename_i hpos hcount
  dsimp only at h
  split at h
  · cases h
  rename_i hbar
  split at h
  · cases h
  split at h
  · cases h
  rename_i hne hle
  cases h
  exact ⟨by simpa using hpos, by simpa using hcount, rfl, rfl, hbar, hne, by simpa using hle, rfl⟩

variable {N : ℕ} (B : Board N)

/-- The loop of the read for the `k` words from word `i` on, and what follows
    it. -/
def readNoStructLoop (privData : ℕ) (t : TransferInformation) (buf : ℕ) : ℕ → ℕ → KM ℤ
  | 0, _ => do
    mutexUnlock (.devMutex privData)
    return t.nBytesToTransfer
  | k + 1, i => do
    let offsetInLoop := i * 4 % 2 ^ 32
    if mtcadummyPerformPreReadAction (BitVec.ofNat 32 (t.offset + offsetInLoop)) t.bar
        (B.dummyPrivateData privData).slotNr ≠ 0 then
      mutexUnlock (.devMutex privData)
      return - EIO
    if (← copyToUserFrom B (buf + offsetInLoop) t.barStart t.barSizeInBytes (t.offset / 4 + i)
        4) ≠ 0 then
      mutexUnlock (.devMutex privData)
      return -EFAULT
    setPos ((← getPos) + 4)
    readNoStructLoop privData t buf k (i + 1)

def mtcaDummyReadNoStruct (privData buf count : ℕ) : KM ℤ := do
  if ← mutexLockInterruptible .controlMutex then
    return -ERESTARTSYS
  let readFail ← controlData .readError
  mutexUnlock .controlMutex
  if readFail then
    return -EFAULT
  match checkAndCalculateTransferInformation (B.dummyPrivateData privData) count (← getPos) with
  | .error transferInfoError => return transferInfoError
  | .ok transferInformation =>
    if ← mutexLockInterruptible (.devMutex privData) then
      return -ERESTARTSYS
    readNoStructLoop B privData transferInformation buf
      (transferInformation.nBytesToTransfer / 4) 0

/-- The loop of the write for the `k` words from word `i` on, and what follows
    it. -/
def writeNoStructLoop (privData : ℕ) (t : TransferInformation) (buf : ℕ) : ℕ → ℕ → KM ℤ
  | 0, _ => do
    mutexUnlock (.devMutex privData)
    return t.nBytesToTransfer
  | k + 1, i => do
    let offsetInLoop := i * 4 % 2 ^ 32
    -- the destination is the bar itself: it is written also when the copy fails
    let (left, bytes) ← copyFromUser (buf + offsetInLoop) 4
    storeWord t.barStart (t.offset / 4 + i) (wordAt bytes 0)
    if left ≠ 0 then
      mutexUnlock (.devMutex privData)
      return -EFAULT
    if (← mtcadummyPerformActionOnWrite B (BitVec.ofNat 32 (t.offset + offsetInLoop)) t.bar
        (B.dummyPrivateData privData).slotNr) ≠ 0 then
      mutexUnlock (.devMutex privData)
      return - EIO
    setPos ((← getPos) + 4)
    writeNoStructLoop privData t buf k (i + 1)

def mtcaDummyWriteNoStruct (privData buf count : ℕ) : KM ℤ := do
  if ← mutexLockInterruptible .controlMutex then
    return -ERESTARTSYS
  let writeFail ← controlData .writeError
  mutexUnlock .controlMutex
  if writeFail then
    return -EFAULT
  match checkAndCalculateTransferInformation (B.dummyPrivateData privData) count (← getPos) with
  | .error transferInfoError => return transferInfoError
  | .ok transferInformation =>
    if ← mutexLockInterruptible (.devMutex privData) then
      return -ERESTARTSYS
    writeNoStructLoop B privData transferInformation buf
      (transferInformation.nBytesToTransfer / 4) 0

end MtcaDummy

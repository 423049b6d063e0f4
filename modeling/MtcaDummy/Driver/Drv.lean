/-
  The entry points of the device files with the struct interface
  (mtcadummy_drv.c): open, release, read, write, and the three ioctls.

  `privData` is `filp->private_data`, an index of `dummyPrivateData`.
-/
import MtcaDummy.Driver.Firmware

namespace MtcaDummy

/-! ## The structs and constants of the interface (pciedev_io.h) -/

def rwD8 : U32 := 0#32
def rwD16 : U32 := 1#32
def rwD32 : U32 := 2#32
def rwDma : U32 := 3#32
def rwInfo : U32 := 4#32

/-- `device_rw`, of 24 bytes. -/
structure DeviceRw where
  offsetRw : U32
  dataRw : U32
  modeRw : U32
  barxRw : U32
  sizeRw : U32
  rsrvdRw : U32
  deriving DecidableEq

def sizeofDeviceRw : ℕ := 24

def DeviceRw.ofBytes (b : ℕ → Byte) : DeviceRw :=
  ⟨wordAt b 0, wordAt b 4, wordAt b 8, wordAt b 12, wordAt b 16, wordAt b 20⟩

def DeviceRw.bytes (r : DeviceRw) : ℕ → Byte :=
  bytesOf [r.offsetRw, r.dataRw, r.modeRw, r.barxRw, r.sizeRw, r.rsrvdRw]

/-- `device_ioctrl_data`, of 16 bytes. -/
structure DeviceIoctrlData where
  offset : U32
  data : U32
  cmd : U32
  reserved : U32

def sizeofDeviceIoctrlData : ℕ := 16

def DeviceIoctrlData.ofBytes (b : ℕ → Byte) : DeviceIoctrlData :=
  ⟨wordAt b 0, wordAt b 4, wordAt b 8, wordAt b 12⟩

def DeviceIoctrlData.bytes (r : DeviceIoctrlData) : ℕ → Byte :=
  bytesOf [r.offset, r.data, r.cmd, r.reserved]

/-- `device_ioctrl_dma`, of 24 bytes. -/
structure DeviceIoctrlDma where
  dmaOffset : U32
  dmaSize : U32
  dmaCmd : U32
  dmaPattern : U32
  dmaReserved1 : U32
  dmaReserved2 : U32

def sizeofDeviceIoctrlDma : ℕ := 24

def DeviceIoctrlDma.ofBytes (b : ℕ → Byte) : DeviceIoctrlDma :=
  ⟨wordAt b 0, wordAt b 4, wordAt b 8, wordAt b 12, wordAt b 16, wordAt b 20⟩

/-! ## The encoding of ioctl commands (linux/ioctl.h) -/

def iocNr (cmd : U32) : U32 := cmd &&& 0xFF#32
def iocType (cmd : U32) : U32 := (cmd >>> 8) &&& 0xFF#32
def iocSize (cmd : U32) : U32 := (cmd >>> 16) &&& 0x3FFF#32

/-- `_IOWR(type, nr, int)`. -/
def iowrInt (type nr : U32) : U32 := (3#32 <<< 30) ||| (4#32 <<< 16) ||| (type <<< 8) ||| nr

def pciedoocsIoc : U32 := 0x30#32
def pciedevPhysicalSlot : U32 := iowrInt pciedoocsIoc 60#32
def pciedevDriverVersion : U32 := iowrInt pciedoocsIoc 61#32
def pciedevFirmwareVersion : U32 := iowrInt pciedoocsIoc 62#32
def pciedevReadDma : U32 := iowrInt pciedoocsIoc 72#32
def pciedoocsIocMinnr : U32 := 60#32
def pciedoocsIocMaxnr : U32 := 63#32
def pciedoocsIocDmaMinnr : U32 := 70#32
def pciedoocsIocDmaMaxnr : U32 := 74#32

def llrfdrvIoc : U32 := 0x30#32
def llrfdrvPhysicalSlot : U32 := iowrInt llrfdrvIoc 20#32
def llrfdrvDriverVersion : U32 := iowrInt llrfdrvIoc 21#32
def llrfdrvFirmwareVersion : U32 := iowrInt llrfdrvIoc 22#32
def llrfdrvIocMinnr : U32 := 20#32
def llrfdrvIocMaxnr : U32 := 22#32

def pcieuniIoc : U32 := 0x55#32
def pcieuniPhysicalSlot : U32 := iowrInt pcieuniIoc 60#32
def pcieuniDriverVersion : U32 := iowrInt pcieuniIoc 61#32
def pcieuniFirmwareVersion : U32 := iowrInt pcieuniIoc 62#32
def pcieuniReadDma : U32 := iowrInt pcieuniIoc 72#32
def pcieuniIocMinnr : U32 := 60#32
def pcieuniIocMaxnr : U32 := 63#32
def pcieuniIocDmaMinnr : U32 := 70#32
def pcieuniIocDmaMaxnr : U32 := 74#32

variable {N : ℕ} (B : Board N)

/-! ## open and release -/

/-- `iCdev` is the device whose `cdev` the inode belongs to. -/
def mtcaDummyOpen (iCdev : ℕ) : KM ℤ := do
  if ← mutexLockInterruptible .controlMutex then
    return -ERESTARTSYS
  let openFail ← controlData .openError
  mutexUnlock .controlMutex
  if openFail then
    return -EINVAL
  setPrivateData iCdev
  atomicInc iCdev
  return 0

def mtcaDummyRelease (privData : ℕ) : KM ℤ := do
  atomicDec privData
  return 0

/-! ## read and write -/

/-- The switch on `barx_rw`: base address and size of the bar. -/
def structBar (data : MtcaDummyData) (barx : U32) : Option (Ptr × ℕ) :=
  if barx = 0#32 then some (data.systemBar, nRegisters * 4)
  else if barx = 2#32 then some (data.dmaBar, dmaSize)
  else none

/-- `mtcaDummy_read` from the locked device mutex on. -/
def mtcaDummyReadLocked (privData buf count : ℕ) : KM ℤ := do
  let data := B.dummyPrivateData privData
  if count < sizeofDeviceRw then
    mutexUnlock (.devMutex privData)
    return -EFAULT
  let (left, bytes) ← copyFromUser buf sizeofDeviceRw
  if left ≠ 0 then
    mutexUnlock (.devMutex privData)
    return -EFAULT
  let readReqInfo := DeviceRw.ofBytes bytes
  if readReqInfo.modeRw = rwInfo then
    let readReqInfo := { readReqInfo with
      offsetRw := drvVersionMin
      dataRw := drvVersionMaj
      barxRw := data.slotNr
      modeRw := drvVersionMaj + 1#32
      sizeRw := drvVersionMin + 1#32 }
    if (← copyToUser buf readReqInfo.bytes sizeofDeviceRw) ≠ 0 then
      mutexUnlock (.devMutex privData)
      return -EFAULT
    mutexUnlock (.devMutex privData)
    return sizeofDeviceRw
  else if readReqInfo.modeRw = rwD32 then
    match structBar data readReqInfo.barxRw with
    | none =>
      mutexUnlock (.devMutex privData)
      return -EFAULT
    | some (barBaseAddress, barSize) =>
      if readReqInfo.offsetRw.toNat % 4 ≠ 0 ∨ readReqInfo.offsetRw.toNat ≥ barSize then
        mutexUnlock (.devMutex privData)
        return -EFAULT
      if mtcadummyPerformPreReadAction readReqInfo.offsetRw readReqInfo.barxRw data.slotNr ≠ 0 then
        mutexUnlock (.devMutex privData)
        return - EIO
      let v ← loadWord barBaseAddress (readReqInfo.offsetRw.toNat / 4)
      let readReqInfo := { readReqInfo with dataRw := v }
      if (← copyToUser buf readReqInfo.bytes sizeofDeviceRw) ≠ 0 then
        mutexUnlock (.devMutex privData)
        return -EFAULT
      mutexUnlock (.devMutex privData)
      return sizeofDeviceRw
  else if readReqInfo.modeRw = rwD8 ∨ readReqInfo.modeRw = rwD16 then
    mutexUnlock (.devMutex privData)
    return -EFAULT
  else if readReqInfo.modeRw = rwDma then
    let dmaSize' := readReqInfo.sizeRw
    let dmaOffset := readReqInfo.offsetRw
    if dmaSize' = 0#32 then
      mutexUnlock (.devMutex privData)
      return 0
    -- the sum is one of 32 bit words: it wraps
    if dmaSize' + dmaOffset > BitVec.ofNat 32 dmaSize then
      mutexUnlock (.devMutex privData)
      return -EFAULT
    if (← copyToUserFrom B buf data.dmaBar dmaSize (dmaOffset.toNat / 4) dmaSize'.toNat) ≠ 0 then
      mutexUnlock (.devMutex privData)
      return -EFAULT
    mutexUnlock (.devMutex privData)
    return dmaSize'.toNat
  else
    mutexUnlock (.devMutex privData)
    return -EFAULT

def mtcaDummyRead (privData buf count : ℕ) : KM ℤ := do
  if ← mutexLockInterruptible .controlMutex then
    return -ERESTARTSYS
  let readFail ← controlData .readError
  mutexUnlock .controlMutex
  if readFail then
    return -EFAULT
  if ← mutexLockInterruptible (.devMutex privData) then
    return -ERESTARTSYS
  mtcaDummyReadLocked B privData buf count

/-- `mtcaDummy_write` from the locked device mutex on. -/
def mtcaDummyWriteLocked (privData buf count : ℕ) : KM ℤ := do
  let data := B.dummyPrivateData privData
  if count < sizeofDeviceRw then
    mutexUnlock (.devMutex privData)
    return -EFAULT
  let (left, bytes) ← copyFromUser buf sizeofDeviceRw
  if left ≠ 0 then
    mutexUnlock (.devMutex privData)
    return -EFAULT
  let writeReqInfo := DeviceRw.ofBytes bytes
  if writeReqInfo.modeRw = rwD32 then
    match structBar data writeReqInfo.barxRw with
    | none =>
      mutexUnlock (.devMutex privData)
      return -EFAULT
    | some (barBaseAddress, barSize) =>
      if writeReqInfo.offsetRw.toNat % 4 ≠ 0 ∨ writeReqInfo.offsetRw.toNat ≥ barSize then
        mutexUnlock (.devMutex privData)
        return -EFAULT
      storeWord barBaseAddress (writeReqInfo.offsetRw.toNat / 4) writeReqInfo.dataRw
      if (← mtcadummyPerformActionOnWrite B writeReqInfo.offsetRw writeReqInfo.barxRw
          data.slotNr) ≠ 0 then
        mutexUnlock (.devMutex privData)
        return - EIO
      mutexUnlock (.devMutex privData)
      return sizeofDeviceRw
  else
    -- `RW_D8`, `RW_D16`, `RW_DMA` and any other mode are not supported
    mutexUnlock (.devMutex privData)
    return -EFAULT

def mtcaDummyWrite (privData buf count : ℕ) : KM ℤ := do
  if ← mutexLockInterruptible .controlMutex then
    return -ERESTARTSYS
  let writeFail ← controlData .writeError
  mutexUnlock .controlMutex
  if writeFail then
    return -EFAULT
  if ← mutexLockInterruptible (.devMutex privData) then
    return -ERESTARTSYS
  mtcaDummyWriteLocked B privData buf count

/-! ## ioctl

The first and the third function are copies of each other that differ in their
constants.  The second has one range of commands and no DMA read; constants
that leave these out make it a copy as well (`llrfDummyIoctl_eq`).  The access
check is that of kernels from 5.0 on. -/

/-- The constants of one copy. -/
structure IoctlConstants where
  ioc : U32
  minnr : U32
  maxnr : U32
  dmaNrs : Option (U32 × U32)
  physicalSlot : U32
  driverVersion : U32
  firmwareVersion : U32
  readDma : Option U32

/-- The number of the command is outside the ranges. -/
def IoctlConstants.wrongNr (c : IoctlConstants) (cmd : U32) : Bool :=
  (iocNr cmd < c.minnr ∨ iocNr cmd > c.maxnr) ∧
    c.dmaNrs.all fun r => iocNr cmd < r.1 ∨ iocNr cmd > r.2

/-- The ioctl from the locked device mutex on. -/
def dummyIoctlLocked (c : IoctlConstants) (privData : ℕ) (cmd : U32) (arg : ℕ) : KM ℤ := do
  let data := B.dummyPrivateData privData
  if cmd = c.physicalSlot then
    let (left, bytes) ← copyFromUser arg sizeofDeviceIoctrlData
    if left ≠ 0 then
      mutexUnlock (.devMutex privData)
      return -EFAULT
    let dataStruct := { DeviceIoctrlData.ofBytes bytes with data := data.slotNr }
    let left ← copyToUser arg dataStruct.bytes sizeofDeviceIoctrlData
    mutexUnlock (.devMutex privData)
    return if left ≠ 0 then -EFAULT else 0
  else if cmd = c.driverVersion ∨ cmd = c.firmwareVersion then
    let (left, bytes) ← copyFromUser arg sizeofDeviceIoctrlData
    if left ≠ 0 then
      mutexUnlock (.devMutex privData)
      return -EFAULT
    let dataStruct := { DeviceIoctrlData.ofBytes bytes with
      data := drvVersionMaj
      offset := drvVersionMin }
    let left ← copyToUser arg dataStruct.bytes sizeofDeviceIoctrlData
    mutexUnlock (.devMutex privData)
    return if left ≠ 0 then -EFAULT else 0
  else if some cmd = c.readDma then
    let (left, bytes) ← copyFromUser arg sizeofDeviceIoctrlDma
    if left ≠ 0 then
      mutexUnlock (.devMutex privData)
      return -EFAULT
    let dmaStruct := DeviceIoctrlDma.ofBytes bytes
    -- the sum is one of 32 bit words: it wraps
    if dmaStruct.dmaOffset + dmaStruct.dmaSize > BitVec.ofNat 32 dmaSize then
      mutexUnlock (.devMutex privData)
      return -EFAULT
    if dmaStruct.dmaOffset.toNat % 4 ≠ 0 then
      mutexUnlock (.devMutex privData)
      return -EFAULT
    let left ← copyToUserFrom B arg data.dmaBar dmaSize (dmaStruct.dmaOffset.toNat / 4)
      dmaStruct.dmaSize.toNat
    mutexUnlock (.devMutex privData)
    return if left ≠ 0 then -EFAULT else 0
  else
    mutexUnlock (.devMutex privData)
    return -ENOTTY

def dummyIoctl (c : IoctlConstants) (privData : ℕ) (cmd : U32) (arg : ℕ) : KM ℤ := do
  if iocType cmd ≠ c.ioc then
    return -ENOTTY
  if c.wrongNr cmd then
    return -ENOTTY
  if !(← accessOk arg (iocSize cmd).toNat) then
    return -EFAULT
  if ← mutexLockInterruptible (.devMutex privData) then
    return -ERESTARTSYS
  dummyIoctlLocked B c privData cmd arg

def mtcaDummyConstants : IoctlConstants where
  ioc := pciedoocsIoc
  minnr := pciedoocsIocMinnr
  maxnr := pciedoocsIocMaxnr
  dmaNrs := some (pciedoocsIocDmaMinnr, pciedoocsIocDmaMaxnr)
  physicalSlot := pciedevPhysicalSlot
  driverVersion := pciedevDriverVersion
  firmwareVersion := pciedevFirmwareVersion
  readDma := some pciedevReadDma

def llrfDummyConstants : IoctlConstants where
  ioc := llrfdrvIoc
  minnr := llrfdrvIocMinnr
  maxnr := llrfdrvIocMaxnr
  dmaNrs := none
  physicalSlot := llrfdrvPhysicalSlot
  driverVersion := llrfdrvDriverVersion
  firmwareVersion := llrfdrvFirmwareVersion
  readDma := none

def pcieuniDummyConstants : IoctlConstants where
  ioc := pcieuniIoc
  minnr := pcieuniIocMinnr
  maxnr := pcieuniIocMaxnr
  dmaNrs := some (pcieuniIocDmaMinnr, pcieuniIocDmaMaxnr)
  physicalSlot := pcieuniPhysicalSlot
  driverVersion := pcieuniDriverVersion
  firmwareVersion := pcieuniFirmwareVersion
  readDma := some pcieuniReadDma

def mtcaDummyIoctl (privData : ℕ) (cmd : U32) (arg : ℕ) : KM ℤ :=
  dummyIoctl B mtcaDummyConstants privData cmd arg

def pcieuniDummyIoctl (privData : ℕ) (cmd : U32) (arg : ℕ) : KM ℤ :=
  dummyIoctl B pcieuniDummyConstants privData cmd arg

/-- `llrfDummy_ioctl` from the locked device mutex on. -/
def llrfDummyIoctlLocked (privData : ℕ) (cmd : U32) (arg : ℕ) : KM ℤ := do
  let data := B.dummyPrivateData privData
  if cmd = llrfdrvPhysicalSlot then
    let (left, bytes) ← copyFromUser arg sizeofDeviceIoctrlData
    if left ≠ 0 then
      mutexUnlock (.devMutex privData)
      return -EFAULT
    let dataStruct := { DeviceIoctrlData.ofBytes bytes with data := data.slotNr }
    let left ← copyToUser arg dataStruct.bytes sizeofDeviceIoctrlData
    mutexUnlock (.devMutex privData)
    return if left ≠ 0 then -EFAULT else 0
  else if cmd = llrfdrvDriverVersion ∨ cmd = llrfdrvFirmwareVersion then
    let (left, bytes) ← copyFromUser arg sizeofDeviceIoctrlData
    if left ≠ 0 then
      mutexUnlock (.devMutex privData)
      return -EFAULT
    let dataStruct := { DeviceIoctrlData.ofBytes bytes with
      data := drvVersionMaj
      offset := drvVersionMin }
    let left ← copyToUser arg dataStruct.bytes sizeofDeviceIoctrlData
    mutexUnlock (.devMutex privData)
    return if left ≠ 0 then -EFAULT else 0
  else
    mutexUnlock (.devMutex privData)
    return -ENOTTY

def llrfDummyIoctl (privData : ℕ) (cmd : U32) (arg : ℕ) : KM ℤ := do
  if iocType cmd ≠ llrfdrvIoc then
    return -ENOTTY
  if iocNr cmd < llrfdrvIocMinnr ∨ iocNr cmd > llrfdrvIocMaxnr then
    return -ENOTTY
  if !(← accessOk arg (iocSize cmd).toNat) then
    return -EFAULT
  if ← mutexLockInterruptible (.devMutex privData) then
    return -ERESTARTSYS
  llrfDummyIoctlLocked B privData cmd arg

/-- **The second function is a copy of the others** with one range of commands
    and no DMA read. -/
theorem llrfDummyIoctl_eq (d : ℕ) (cmd : U32) (arg : ℕ) :
    llrfDummyIoctl B d cmd arg = dummyIoctl B llrfDummyConstants d cmd arg := by
  have hnr : (llrfDummyConstants.wrongNr cmd = true) =
      (iocNr cmd < llrfdrvIocMinnr ∨ iocNr cmd > llrfdrvIocMaxnr) := by
    simp [IoctlConstants.wrongNr, llrfDummyConstants]
  have hlocked : dummyIoctlLocked B llrfDummyConstants d cmd arg =
      llrfDummyIoctlLocked B d cmd arg := by
    have hdma : ¬ some cmd = llrfDummyConstants.readDma := nofun
    unfold dummyIoctlLocked llrfDummyIoctlLocked
    dsimp only
    rw [if_neg hdma]
    rfl
  unfold llrfDummyIoctl dummyIoctl
  rw [hlocked]
  simp only [hnr]
  rfl

end MtcaDummy

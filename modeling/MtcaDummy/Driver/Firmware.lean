/-
  The emulated firmware (mtcadummy_firmware.c): the registers of bar 0, their
  initial values, and the actions on reads and writes.
-/
import MtcaDummy.Driver.Kernel

namespace MtcaDummy

/-! ## Registers (mtcadummy_firmware.h, mtcadummy.h, version.h) -/

def nRegisters : ℕ := 32
def dmaSize : ℕ := 4096
def dmmyAsAscii : U32 := 0x444D4D59#32

/-- `MTCADUMMY_DRV_VERSION_MAJ` and `_MIN`, from CMakeLists.txt. -/
def drvVersionMaj : U32 := 0#32
def drvVersionMin : U32 := 10#32

def wordFirmware : U32 := 0x00#32
def wordCompilation : U32 := 0x04#32
def wordStatus : U32 := 0x08#32
def wordUser : U32 := 0x0C#32
def wordClkCnt0 : U32 := 0x10#32
def wordClkCnt1 : U32 := 0x14#32
def wordClkMux0 : U32 := 0x20#32
def wordClkMux1 : U32 := 0x24#32
def wordClkMux2 : U32 := 0x28#32
def wordClkMux3 : U32 := 0x2C#32
def wordDummy : U32 := 0x3C#32
def wordClkRst : U32 := 0x40#32
def wordAdcEna : U32 := 0x44#32
def brokenRegister : U32 := 0x48#32
def brokenWrite : U32 := 0x4C#32
def wordSpiWrite : U32 := 0x50#32
def wordSpiRead : U32 := 0x54#32
def wordSpiSync : U32 := 0x58#32

def spiSyncOk : U32 := 0#32
def spiSyncRequested : U32 := 0xFF#32
def spiSyncError : U32 := 0xAA#32

/-- The macro `REG`, the word of `mem` at a byte address, as a value ... -/
def getReg (mem : Ptr) (addr : U32) : KM U32 := loadWord mem (addr.toNat / 4)

/-- ... and as the target of an assignment. -/
def setReg (mem : Ptr) (addr v : U32) : KM Unit := storeWord mem (addr.toNat / 4) v

/-! ## The functions -/

def mtcadummyInitialiseSystemBar (systemBar : Ptr) : KM Unit := do
  setReg systemBar wordFirmware drvVersionMaj
  setReg systemBar wordCompilation drvVersionMin
  setReg systemBar wordStatus 0#32
  setReg systemBar wordUser 0#32
  setReg systemBar wordDummy dmmyAsAscii
  setReg systemBar wordClkRst 1#32
  setReg systemBar brokenWrite brokenWrite

/-- The loop of the dummy sampling: `dmaBar[sample] = sample * sample` for the
    `k` samples from `sample` on. -/
def sampleLoop (dmaBar : Ptr) : ℕ → ℕ → KM Unit
  | 0, _ => pure ()
  | k + 1, sample => do
    storeWord dmaBar sample (BitVec.ofNat 32 (sample * sample))
    sampleLoop dmaBar k (sample + 1)

variable {N : ℕ} (B : Board N)

/-- The switch on the offset: negative if the register is broken. -/
def actionOnWriteSwitch (spiFail : Bool) (offset slotNumber : U32) : KM ℤ := do
  let systemBar := (B.dummyPrivateData slotNumber.toNat).systemBar
  let dmaBar := (B.dummyPrivateData slotNumber.toNat).dmaBar
  if offset = wordClkRst then
    if (← getReg systemBar wordClkRst) ≠ 0#32 then
      setReg systemBar wordClkCnt0 0#32
      setReg systemBar wordClkCnt1 0#32
      setReg systemBar wordClkMux0 0#32
      setReg systemBar wordClkMux1 0#32
      setReg systemBar wordClkMux2 0#32
      setReg systemBar wordClkMux3 0#32
    return 0
  else if offset = wordAdcEna then
    if (← getReg systemBar wordAdcEna) ≠ 0#32 then
      let nSamples := 25
      sampleLoop dmaBar nSamples 0
      setReg systemBar wordClkCnt0 (BitVec.ofNat 32 nSamples)
      setReg systemBar wordClkRst 0#32
    return 0
  else if offset = wordFirmware then
    setReg systemBar wordFirmware drvVersionMaj
    return 0
  else if offset = wordCompilation then
    setReg systemBar wordCompilation drvVersionMin
    return 0
  else if offset = wordDummy then
    setReg systemBar wordDummy dmmyAsAscii
    return 0
  else if offset = brokenRegister ∨ offset = brokenWrite then
    return -1
  else if offset = wordSpiWrite then
    -- `&&` evaluates `!spiFail` after the register was read
    if (← getReg systemBar wordSpiSync) = spiSyncRequested ∧ spiFail = false then
      setReg systemBar wordSpiRead (← getReg systemBar wordSpiWrite)
      setReg systemBar wordSpiSync spiSyncOk
    else
      setReg systemBar wordSpiSync spiSyncError
    return 0
  else
    return 0

/-- The action after word `offset` of a bar was written: `0`, or a negative
    value if the register is broken or the lock attempt was interrupted. -/
def mtcadummyPerformActionOnWrite (offset barNumber slotNumber : U32) : KM ℤ := do
  if barNumber ≠ 0#32 then
    return 0
  if ← mutexLockInterruptible .controlMutex then
    return -ERESTARTSYS
  let spiFail ← controlData .spiError
  mutexUnlock .controlMutex
  actionOnWriteSwitch B spiFail offset slotNumber

/-- Before a word is read: negative if the register is broken. -/
def mtcadummyPerformPreReadAction (offset barNumber _slotNumber : U32) : ℤ :=
  if barNumber ≠ 0#32 then 0
  else if offset = brokenRegister then -1
  else 0

end MtcaDummy

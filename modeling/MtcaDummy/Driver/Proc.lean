/-
  The proc file (mtcadummy_proc.c): the register dump of a device, and the
  write that sets the error flags.

  `strsep` and the `sscanf` with `%i` are those of the kernel: a literal has to
  match, white space before the number is skipped, the number may have a `-`,
  and its base is 16 after `0x` and a hex digit, 8 after any other `0`, and 10
  otherwise.  The value is cut to an `int`.

  `seqRead` stands for the kernel's `seq_read`, which hands out the bytes of a
  buffer.  Here a read ends between two devices, and each device is shown once:
  a `show` whose text does not fit into the buffer, which the kernel discards
  and repeats, prints and changes nothing else and is left out, and so are the
  rest of a text that is handed out later and `lseek`.
-/
import MtcaDummy.Driver.Drv

namespace MtcaDummy

/-! ## The dump -/

variable {N : ℕ} (B : Board N)

/-- The lines of the `k` registers from `reg` on. -/
def showSystemBar (systemBar : Ptr) : ℕ → ℕ → KM Unit
  | 0, _ => pure ()
  | k + 1, reg => do
    let v ← loadWord systemBar reg
    let v' ← loadWord systemBar reg
    seqPrintf "0x%08X\t0x%08X\t%d\n" [BitVec.ofNat 32 reg, v, v']
    showSystemBar systemBar k (reg + 1)

/-- The `k` lines of four words each from word `index` on. -/
def showDmaBar (dmaBar : Ptr) : ℕ → ℕ → KM Unit
  | 0, _ => pure ()
  | k + 1, index => do
    let v₀ ← loadWord dmaBar index
    let v₁ ← loadWord dmaBar (index + 1)
    let v₂ ← loadWord dmaBar (index + 2)
    let v₃ ← loadWord dmaBar (index + 3)
    seqPrintf "0x%08lX\t0x%08X\t0x%08X\t0x%08X\t0x%08X\n"
      [BitVec.ofNat 32 (index * 4), v₀, v₁, v₂, v₃]
    showDmaBar dmaBar k (index + 4)

/-- `v` is the device, as the sequence iterator gives it. -/
def mtcadummySeqShow (v : ℕ) : KM ℤ := do
  let dummyDeviceData := B.dummyPrivateData v
  let inUse ← atomicRead v
  if inUse = 0#32 then
    seqPrintf "Device %i not in use.\n\n" [dummyDeviceData.slotNr]
    return 0
  if ← mutexLockInterruptible (.devMutex v) then
    return -ERESTARTSYS
  seqPrintf "Device %i System Bar:\n" [dummyDeviceData.slotNr]
  seqPrintf "Register Content_hex Content_dec:\n" []
  showSystemBar dummyDeviceData.systemBar nRegisters 0
  seqPrintf "\nDevice %i DMA Bar:\n" [dummyDeviceData.slotNr]
  seqPrintf
    "Offset Content[offset]  Content[offset+0x4]  Content[offset+0x8] Content[offset+0xC]:\n" []
  showDmaBar dummyDeviceData.dmaBar (dmaSize / 4 / 4) 0
  seqPrintf "\n" []
  mutexUnlock (.devMutex v)
  return 0

/-! ## The iteration

The position is the number of the device. -/

def mtcadummySeqStart (N pos : ℕ) : Option ℕ := if pos ≥ N then none else some pos

/-- The next device and its position. -/
def mtcadummySeqNext (N pos : ℕ) : Option ℕ × ℕ :=
  if pos + 1 ≥ N then (none, pos + 1) else (some (pos + 1), pos + 1)

/-- The loop of one `seq_read` from device `v` on, which has room for `k`
    devices: an error, or `0`, and the position where the next one starts.
    `stop` does nothing. -/
def seqShowLoop : ℕ → Option ℕ → ℕ → KM (ℤ × ℕ)
  | 0, _, pos => pure (0, pos)
  | _ + 1, none, pos => pure (0, pos)
  | k + 1, some v, pos => do
    let err ← mtcadummySeqShow B v
    if err ≠ 0 then
      return (err, pos)
    seqShowLoop k (mtcadummySeqNext N pos).1 (mtcadummySeqNext N pos).2

def seqRead (k pos : ℕ) : KM (ℤ × ℕ) := seqShowLoop B k (mtcadummySeqStart N pos) pos

/-! ## Strings -/

abbrev Chars := List Byte

def isSpace (c : Byte) : Bool := (0x09#8 ≤ c ∧ c ≤ 0x0D#8) ∨ c = 0x20#8 ∨ c = 0xA0#8

/-- The value of a digit, letters counting from ten. -/
def digitVal (c : Byte) : Option ℕ :=
  if 0x30#8 ≤ c ∧ c ≤ 0x39#8 then some (c.toNat - 0x30)
  else if 0x41#8 ≤ c ∧ c ≤ 0x46#8 then some (c.toNat - 0x41 + 10)
  else if 0x61#8 ≤ c ∧ c ≤ 0x66#8 then some (c.toNat - 0x61 + 10)
  else none

/-- `c` is a digit of the base. -/
def isDigit (base : ℕ) (c : Byte) : Bool := (digitVal c).any (· < base)

/-- The base `_parse_integer_fixup_radix` finds, and the string after its
    prefix. -/
def fixupRadix : Chars → ℕ × Chars
  | 0x30#8 :: x :: d :: cs =>
    if (x = 0x78#8 ∨ x = 0x58#8) ∧ isDigit 16 d then (16, d :: cs) else (8, 0x30#8 :: x :: d :: cs)
  | 0x30#8 :: cs => (8, 0x30#8 :: cs)
  | cs => (10, cs)

/-- The number that the leading digits denote. -/
def parseInteger (base : ℕ) (acc : ℕ) : Chars → ℕ
  | [] => acc
  | c :: cs =>
    match digitVal c with
    | some d => if d < base then parseInteger base (acc * base + d) cs else acc
    | none => acc

/-- `simple_strtoull` with base `0`. -/
def simpleStrtoull (cs : Chars) : ℕ := parseInteger (fixupRadix cs).1 0 (fixupRadix cs).2

/-- The conversion `%i`. -/
def scanInt (cs : Chars) : Option ℤ :=
  match cs.dropWhile isSpace with
  | 0x2D#8 :: cs =>
    if cs.head?.any (isDigit 10) then some (BitVec.ofInt 32 (-simpleStrtoull cs)).toInt else none
  | cs => if cs.head?.any (isDigit 10) then some (BitVec.ofNat 32 (simpleStrtoull cs)).toInt else none

/-- The rest of a string that starts with the literal. -/
def matchLiteral : Chars → Chars → Option Chars
  | [], cs => some cs
  | f :: fmt, c :: cs => if f = c then matchLiteral fmt cs else none
  | _ :: _, [] => none

/-- `sscanf(token, "<literal>%i", &value)`. -/
def sscanf (token literal : Chars) : Option ℤ := (matchLiteral literal token).bind scanInt

def litOpen : Chars := [0x6F#8, 0x70#8, 0x65#8, 0x6E#8, 0x3A#8]
def litRead : Chars := [0x72#8, 0x65#8, 0x61#8, 0x64#8, 0x3A#8]
def litWrite : Chars := [0x77#8, 0x72#8, 0x69#8, 0x74#8, 0x65#8, 0x3A#8]
def litSpi : Chars := [0x73#8, 0x70#8, 0x69#8, 0x3A#8]

/-! ## The write -/

/-- The variables `open`, `read`, `write` and `spi`. -/
structure Options where
  opn : ℤ := -1
  read : ℤ := -1
  write : ℤ := -1
  spi : ℤ := -1
  deriving DecidableEq

/-- One turn of the loop over the tokens. -/
def Options.token (o : Options) (token : Chars) : Options :=
  match sscanf token litOpen with
  | some value => { o with opn := value }
  | none =>
    match sscanf token litRead with
    | some value => { o with read := value }
    | none =>
      match sscanf token litWrite with
      | some value => { o with write := value }
      | none =>
        match sscanf token litSpi with
        | some value => { o with spi := value }
        | none => o

/-- The loop over the tokens of the string in `cmd`, which ends at its first
    NUL. -/
def parseCommand (cmd : Chars) : Options :=
  ((cmd.takeWhile (· ≠ 0#8)).splitOn 0x20#8).foldl Options.token {}

/-- Set a flag that has a value, read one that has none. -/
def setOrRead (f : Flag) (value : ℤ) : KM Unit := do
  if value > -1 then
    store (.flag f) (value ≠ 0 : Bool)
  else
    let _ ← controlData f

def sizeofCmd : ℕ := 255

def mtcadummyProcWrite (ubuf count : ℕ) : KM ℤ := do
  let len := min count (sizeofCmd - 1)
  let (left, cmd) ← copyFromUser ubuf len
  if left ≠ 0 then
    return -EFAULT
  let o := parseCommand ((List.range len).map cmd)
  if ← mutexLockInterruptible .controlMutex then
    return -EWOULDBLOCK
  setOrRead .openError o.opn
  setOrRead .readError o.read
  setOrRead .writeError o.write
  setOrRead .spiError o.spi
  mutexUnlock .controlMutex
  return count

end MtcaDummy

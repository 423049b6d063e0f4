/-
  What the driver runs on: machine words, user memory, the shared state of the
  module, and the kernel calls of the entry points.

  * A pointer to kernel memory is the block that `kmalloc` returned; `Loc.word
    b i` is the `i`-th 32 bit word of block `b`.  Kernel memory is flat: what
    lies at an index behind the end of a block is found by its address, in the
    block the allocator placed there (`Layout`, `Board.locate`).  Only the
    reads by DMA look for words that way; all other accesses are checked
    against the size of the bar before they are made.
  * An entry point is a `KM` program: over its own `Local` state (the memory of
    the calling process, the file position, the signals to come) it executes
    the instructions of `Conc.Prog` on the shared cells.
  * User memory is byte addressed.  `copy_to_user` and `copy_from_user` copy
    nothing if `access_ok` refuses the range, and stop at the first byte that
    cannot be accessed; `copy_from_user` fills the rest of its destination with
    zeros, and both return the number of bytes not copied.
-/
import MtcaDummy.Conc.Prog
import Mathlib.Algebra.Group.Nat.Defs
import Mathlib.Data.Int.Notation

namespace MtcaDummy

/-! ## Words and error codes -/

abbrev U32 := BitVec 32
abbrev Byte := BitVec 8

/-- Byte `j` of a word; words are little endian. -/
def byteOf (w : U32) (j : ℕ) : Byte := w.extractLsb' (8 * j) 8

/-- The word stored in the bytes `o .. o + 3`. -/
def wordAt (b : ℕ → Byte) (o : ℕ) : U32 := b (o + 3) ++ b (o + 2) ++ b (o + 1) ++ b o

/-- The bytes of consecutive words. -/
def bytesOf (ws : List U32) (j : ℕ) : Byte := byteOf (ws.getD (j / 4) 0) (j % 4)

def EIO : ℤ := 5
def EBADF : ℤ := 9
def EWOULDBLOCK : ℤ := 11
def EFAULT : ℤ := 14
def EINVAL : ℤ := 22
def ENOTTY : ℤ := 25
def ERESTARTSYS : ℤ := 512

/-! ## User memory -/

/-- The memory of a process: its bytes, which of them may be read and written,
    and the outcome of `access_ok(addr, size)`, which refuses no range that the
    process can access. -/
structure UserMem where
  byte : ℕ → Byte
  readable : ℕ → Bool
  writable : ℕ → Bool
  accessOk : ℕ → ℕ → Bool
  accessOk_of_readable : ∀ a n, 0 < n → (∀ j < n, readable (a + j) = true) → accessOk a n = true
  accessOk_of_writable : ∀ a n, 0 < n → (∀ j < n, writable (a + j) = true) → accessOk a n = true

/-- The number of leading bytes of `a .. a + n - 1` that satisfy `ok`. -/
def okLen (ok : ℕ → Bool) (a : ℕ) : ℕ → ℕ
  | 0 => 0
  | n + 1 => if ok a then okLen ok (a + 1) n + 1 else 0

theorem okLen_le (ok : ℕ → Bool) (a n : ℕ) : okLen ok a n ≤ n := by
  induction n generalizing a with
  | zero => exact Nat.le_refl 0
  | succ n ih =>
    unfold okLen
    split
    · exact Nat.succ_le_succ (ih (a + 1))
    · exact Nat.zero_le _

namespace UserMem

/-- The number of bytes that `copy_from_user` copies of the `n` bytes from `a`
    on. -/
def readLen (u : UserMem) (a n : ℕ) : ℕ := if u.accessOk a n then okLen u.readable a n else 0

/-- The number of bytes that `copy_to_user` copies. -/
def writeLen (u : UserMem) (a n : ℕ) : ℕ := if u.accessOk a n then okLen u.writable a n else 0

end UserMem

/-- The bytes `a .. a + k - 1` set to `src`. -/
def UserMem.set (u : UserMem) (a k : ℕ) (src : ℕ → Byte) : UserMem :=
  { u with byte := fun x => if a ≤ x ∧ x < a + k then src (x - a) else u.byte x }

/-! ## The shared state -/

/-- The error flags of `controlData`. -/
inductive Flag where
  | openError
  | readError
  | writeError
  | spiError
  deriving DecidableEq

/-- A pointer to kernel memory; `0` is `NULL`. -/
abbrev Ptr := ℕ

def NULL : Ptr := 0

/-- The shared cells: the words of kernel memory, the flags, and the use
    counters of the devices, which are of type `atomic_t`. -/
inductive Loc where
  | word (b : Ptr) (i : ℕ)
  | flag (f : Flag)
  | inUse (slot : ℕ)
  deriving DecidableEq

/-- The contents of a cell. -/
abbrev Loc.Val : Loc → Type
  | word _ _ => U32
  | flag _ => Bool
  | inUse _ => U32

/-- The mutexes of the module. -/
inductive Mutex where
  | devMutex (slot : ℕ)
  | controlMutex
  deriving DecidableEq

/-- The notes of a trace: a copy of `n` bytes to user memory starts at word `w`
    of block `b`. -/
inductive Note where
  | copyToUser (b : Ptr) (w n : ℕ)

abbrev Store := (l : Loc) → l.Val

/-- The `file_operations` objects of the driver. -/
inductive FopsName where
  | mtcaDummyFileOps
  | llrfDummyFileOps
  | noIoctlDummyFileOps
  | noIocltDummyFileOps
  | pcieuniDummyFileOps
  deriving DecidableEq

/-- The fields of `mtcaDummyData` that no call changes once the module is
    loaded; `inUse` is a cell, `devMutex` a mutex.  `cdevOps` is `cdev.ops`. -/
structure MtcaDummyData where
  slotNr : U32
  systemBar : Ptr
  dmaBar : Ptr
  cdevOps : Option FopsName

/-- Where the allocator placed the blocks, counted in words: the address of a
    block, and the block and the index of the word at an address. -/
structure Layout where
  address : Ptr → ℕ
  wordAt : ℕ → Ptr × ℕ
  address_wordAt : ∀ a, address (wordAt a).1 + (wordAt a).2 = a

/-- The array `dummyPrivateData` of `N` devices as the loaded module has it,
    and where its blocks lie: `slotNr` is the index, and no two bars share a
    block. -/
@[ext] structure Board (N : ℕ) where
  dummyPrivateData : ℕ → MtcaDummyData
  layout : Layout
  slotNr_eq : ∀ d < N, (dummyPrivateData d).slotNr.toNat = d
  systemBar_ne : ∀ d < N, (dummyPrivateData d).systemBar ≠ NULL
  dmaBar_ne : ∀ d < N, (dummyPrivateData d).dmaBar ≠ NULL
  systemBar_inj : ∀ d < N, ∀ e < N,
    (dummyPrivateData d).systemBar = (dummyPrivateData e).systemBar → d = e
  dmaBar_inj : ∀ d < N, ∀ e < N,
    (dummyPrivateData d).dmaBar = (dummyPrivateData e).dmaBar → d = e
  systemBar_ne_dmaBar : ∀ d < N, ∀ e < N,
    (dummyPrivateData d).systemBar ≠ (dummyPrivateData e).dmaBar

/-- The word at index `i` of the block `b` of `size` bytes. -/
def Board.locate {N : ℕ} (B : Board N) (b : Ptr) (size i : ℕ) : Ptr × ℕ :=
  if i < size / 4 then (b, i) else B.layout.wordAt (B.layout.address b + i)

theorem Board.locate_of_lt {N : ℕ} {B : Board N} {b : Ptr} {size i : ℕ} (h : i < size / 4) :
    B.locate b size i = (b, i) := if_pos h

/-! ## Programs of the kernel -/

/-- A line printed to a `seq_file`. -/
structure SeqLine where
  fmt : String
  args : List U32

/-- What belongs to one call: the memory of the calling process, for each
    attempt to lock a mutex whether a signal interrupts it (none once the list
    is used up), `*f_pos`, `filp->private_data` as set by `open` (an index of
    `dummyPrivateData`), and the output of a `seq_file`. -/
structure Local where
  user : UserMem
  signals : List Bool := []
  fPos : ℕ := 0
  privateData : Option ℕ := none
  seq : List SeqLine := []

abbrev KProg := Conc.Prog Loc.Val Mutex Note
abbrev KInstr := Conc.Instr Loc.Val Mutex Note

/-- Kernel programs. -/
abbrev KM := StateT Local KProg

/-- Returns whether the attempt was interrupted. -/
def mutexLockInterruptible (m : Mutex) : KM Bool := fun ℓ =>
  let interrupted := ℓ.signals.headD false
  .op (.lock m interrupted) fun _ => .ret (interrupted, { ℓ with signals := ℓ.signals.tail })

def mutexUnlock (m : Mutex) : KM Unit := fun ℓ => .op (.unlock m) fun _ => .ret ((), ℓ)

def load (l : Loc) : KM l.Val := fun ℓ => .op (.load l) fun v => .ret (v, ℓ)

def store (l : Loc) (v : l.Val) : KM Unit := fun ℓ => .op (.store l v) fun _ => .ret ((), ℓ)

def loadWord (b : Ptr) (i : ℕ) : KM U32 := load (.word b i)

def storeWord (b : Ptr) (i : ℕ) (v : U32) : KM Unit := store (.word b i) v

/-- A flag of `controlData`. -/
def controlData (f : Flag) : KM Bool := load (.flag f)

def atomicInc (slot : ℕ) : KM Unit := fun ℓ =>
  .op (.modify (.inUse slot) (fun n : U32 => n + 1)) fun _ => .ret ((), ℓ)

def atomicDec (slot : ℕ) : KM Unit := fun ℓ =>
  .op (.modify (.inUse slot) (fun n : U32 => n - 1)) fun _ => .ret ((), ℓ)

def atomicRead (slot : ℕ) : KM U32 := load (.inUse slot)

def seqPrintf (fmt : String) (args : List U32) : KM Unit := fun ℓ =>
  .ret ((), { ℓ with seq := ℓ.seq ++ [⟨fmt, args⟩] })

/-- `*f_pos`. -/
def getPos : KM ℕ := fun ℓ => .ret (ℓ.fPos, ℓ)

def setPos (p : ℕ) : KM Unit := fun ℓ => .ret ((), { ℓ with fPos := p })

/-- `filp->private_data = &dummyPrivateData[slot]`. -/
def setPrivateData (slot : ℕ) : KM Unit := fun ℓ => .ret ((), { ℓ with privateData := some slot })

/-- `access_ok(addr, size)`. -/
def accessOk (addr size : ℕ) : KM Bool := fun ℓ => .ret (ℓ.user.accessOk addr size, ℓ)

/-- Copy `n` bytes from the user: the number of bytes not copied, and what the
    destination holds afterwards. -/
def copyFromUser (src n : ℕ) : KM (ℕ × (ℕ → Byte)) := fun ℓ =>
  let k := ℓ.user.readLen src n
  .ret ((n - k, fun j => if j < k then ℓ.user.byte (src + j) else 0), ℓ)

/-- Copy `n` bytes of the own stack to the user: the number of bytes not
    copied. -/
def copyToUser (dst : ℕ) (src : ℕ → Byte) (n : ℕ) : KM ℕ := fun ℓ =>
  let k := ℓ.user.writeLen dst n
  .ret (n - k, { ℓ with user := ℓ.user.set dst k src })

/-- The same without `access_ok`. -/
def rawCopyToUser (dst : ℕ) (src : ℕ → Byte) (n : ℕ) : KM ℕ := fun ℓ =>
  let k := okLen ℓ.user.writable dst n
  .ret (n - k, { ℓ with user := ℓ.user.set dst k src })

/-- The words of a copy from kernel memory, `k` of them for `n` bytes, where
    `cell` says which word is at an index. -/
def copyWords (cell : ℕ → Ptr × ℕ) : ℕ → ℕ → ℕ → ℕ → KM ℕ
  | 0, _, _, n => pure n
  | k + 1, dst, w, n => do
    let v ← loadWord (cell w).1 (cell w).2
    let left ← rawCopyToUser dst (byteOf v) (min n 4)
    if left ≠ 0 then
      return left + (n - min n 4)
    copyWords cell k (dst + 4) (w + 1) (n - 4)

/-- Copy `n` bytes from word `w` of the block `b` of `size` bytes on to the
    user, one word after the other: the number of bytes not copied. -/
def copyToUserFrom {N : ℕ} (B : Board N) (dst : ℕ) (b : Ptr) (size w n : ℕ) : KM ℕ := do
  (fun ℓ => .op (.note (.copyToUser b w n)) fun _ => .ret ((), ℓ) : KM Unit)
  if !(← accessOk dst n) then
    return n
  copyWords (B.locate b size) ((n + 3) / 4) dst w n

end MtcaDummy

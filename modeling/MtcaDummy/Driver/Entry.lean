/-
  The entry points of the module, as the kernel calls them, and the
  `file_operations` tables that hold them.

  The kernel cuts the count of a read or write to `MAX_RW_COUNT` before it
  calls the method.  A device is an index below `N`.
-/
import MtcaDummy.Driver.RwNoStruct
import MtcaDummy.Driver.Proc

namespace MtcaDummy

variable {N : ℕ}

/-- `MAX_RW_COUNT` for pages of 4096 bytes. -/
def maxRwCount : ℕ := 0x7FFFF000

/-- The calls of the entry points. -/
inductive Entry (N : ℕ) where
  | opn (iCdev : Fin N)
  | release (privData : Fin N)
  | read (privData : Fin N) (buf count : ℕ)
  | write (privData : Fin N) (buf count : ℕ)
  | readNoStruct (privData : Fin N) (buf count : ℕ)
  | writeNoStruct (privData : Fin N) (buf count : ℕ)
  | ioctl (privData : Fin N) (cmd : U32) (arg : ℕ)
  | llrfIoctl (privData : Fin N) (cmd : U32) (arg : ℕ)
  | pcieuniIoctl (privData : Fin N) (cmd : U32) (arg : ℕ)
  | seqShow (v : Fin N)
  | procWrite (ubuf count : ℕ)

/-- What the entry point does. -/
def Entry.body (B : Board N) : Entry N → KM ℤ
  | opn iCdev => mtcaDummyOpen iCdev
  | release privData => mtcaDummyRelease privData
  | read privData buf count => mtcaDummyRead B privData buf (min count maxRwCount)
  | write privData buf count => mtcaDummyWrite B privData buf (min count maxRwCount)
  | readNoStruct privData buf count => mtcaDummyReadNoStruct B privData buf (min count maxRwCount)
  | writeNoStruct privData buf count => mtcaDummyWriteNoStruct B privData buf (min count maxRwCount)
  | ioctl privData cmd arg => mtcaDummyIoctl B privData cmd arg
  | llrfIoctl privData cmd arg => llrfDummyIoctl B privData cmd arg
  | pcieuniIoctl privData cmd arg => pcieuniDummyIoctl B privData cmd arg
  | seqShow v => mtcadummySeqShow B v
  | procWrite ubuf count => mtcadummyProcWrite ubuf (min count maxRwCount)

/-- The device the entry point is called on. -/
def Entry.device : Entry N → Option (Fin N)
  | opn d | release d | read d _ _ | write d _ _ | readNoStruct d _ _ | writeNoStruct d _ _
  | ioctl d _ _ | llrfIoctl d _ _ | pcieuniIoctl d _ _ | seqShow d => some d
  | procWrite _ _ => none

/-! ## The `file_operations` -/

/-- A method that an initialiser leaves out is `NULL`. -/
structure FileOperations (N : ℕ) where
  read : Option (Fin N → ℕ → ℕ → Entry N) := none
  write : Option (Fin N → ℕ → ℕ → Entry N) := none
  unlockedIoctl : Option (Fin N → U32 → ℕ → Entry N) := none
  opn : Option (Fin N → Entry N) := none
  release : Option (Fin N → Entry N) := none

def mtcaDummyFileOps : FileOperations N where
  read := some .read
  write := some .write
  unlockedIoctl := some .ioctl
  opn := some .opn
  release := some .release

def llrfDummyFileOps : FileOperations N where
  read := some .read
  write := some .write
  unlockedIoctl := some .llrfIoctl
  opn := some .opn
  release := some .release

/-- Declared without initialiser at the top of the file, and never again. -/
def noIoctlDummyFileOps : FileOperations N where

def noIocltDummyFileOps : FileOperations N where
  read := some .read
  write := some .write
  opn := some .opn
  release := some .release

def pcieuniDummyFileOps : FileOperations N where
  read := some .readNoStruct
  write := some .writeNoStruct
  unlockedIoctl := some .pcieuniIoctl
  opn := some .opn
  release := some .release

/-- The object a name stands for. -/
def FopsName.ops : FopsName → FileOperations N
  | mtcaDummyFileOps => MtcaDummy.mtcaDummyFileOps
  | llrfDummyFileOps => MtcaDummy.llrfDummyFileOps
  | noIoctlDummyFileOps => MtcaDummy.noIoctlDummyFileOps
  | noIocltDummyFileOps => MtcaDummy.noIocltDummyFileOps
  | pcieuniDummyFileOps => MtcaDummy.pcieuniDummyFileOps

/-- The methods of a device. -/
def Board.ops (B : Board N) (d : Fin N) : FileOperations N :=
  match (B.dummyPrivateData d).cdevOps with
  | some name => name.ops
  | none => {}

end MtcaDummy

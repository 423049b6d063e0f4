/-
  What the module is for: a crate of devices.

  A `Crate` has the words of the bars of each device, the switches of the
  simulated errors, and the positions of the open files; it knows no memory
  besides the bars, no mutexes and no use counters.  `Crate.step` says what each system
  call answers and changes, by the `Interface` of the device; `exec_ioctl` is
  the answer of the ioctls for every command.
-/
import MtcaDummy.Conc.Refine
import MtcaDummy.Driver.ProcFile
import MtcaDummy.Driver.Reads
import MtcaDummy.Driver.Vfs

namespace MtcaDummy

open Conc

variable {N : ℕ}

/-! ## Devices -/

/-- What a transfer comes to: the return value, the memory of the process, the
    bars, and the words by which the position moves. -/
structure Transfer where
  ret : ℤ
  user : UserMem
  bars : Bars
  words : ℕ

/-- A word written through the struct interface. -/
def Bars.structPut (b : Bars) (fails : Flag → Bool) (u : UserMem) (buf count : ℕ) : ℤ × Bars :=
  if fails .writeError then (-EFAULT, b)
  else match structWord u buf count with
  | none => (-EFAULT, b)
  | some (bar, i, v) =>
    (if bar.rejects i then - EIO else sizeofDeviceRw, b.write (fails .spiError) bar i v)

/-- Words written at a position. -/
def Bars.plainPut (b : Bars) (fails : Flag → Bool) (u : UserMem) (buf count pos : ℕ) :
    ℤ × ℕ × Bars :=
  if fails .writeError then (-EFAULT, 0, b)
  else match span count pos with
  | .error e => (e, 0, b)
  | .ok t =>
    let r := Bars.block (fun _ => fails .spiError) t.bar t.first (u.copyWord buf) t.words 0 b
    (r.err.getD (4 * t.words), r.words, r.bars)

/-- How the file of a device is accessed: by requests in a struct, or by
    position, or not at all. -/
inductive Interface where
  | struct (ioctl : Option IoctlConstants)
  | plain (ioctl : IoctlConstants)
  | bare

namespace Interface

/-- The file has methods. -/
def HasMethods : Interface → Prop
  | bare => False
  | _ => True

instance : DecidablePred HasMethods
  | struct _ | plain _ => instDecidableTrue
  | bare => instDecidableFalse

/-- A read; `none` if the file has no such method. -/
def read (slotNr : U32) (fails : Flag → Bool) (b : Bars) (u : UserMem) (buf count pos : ℕ) :
    Interface → Option Transfer
  | struct _ =>
    if fails .readError then some ⟨-EFAULT, u, b, 0⟩
    else
      let a := u.answer buf (b.structReply slotNr u buf count)
      some ⟨a.1, a.2, b, 0⟩
  | plain _ =>
    let r := b.noStructRead (fails .readError) u buf count pos
    some ⟨r.1, r.2.2, b, r.2.1⟩
  | bare => none

def write (fails : Flag → Bool) (b : Bars) (u : UserMem) (buf count pos : ℕ) :
    Interface → Option Transfer
  | struct _ =>
    let r := b.structPut fails u buf count
    some ⟨r.1, u, r.2, 0⟩
  | plain _ =>
    let r := b.plainPut fails u buf count pos
    some ⟨r.1, u, r.2.2, r.2.1⟩
  | bare => none

/-- The copy of the ioctl. -/
def constants : Interface → Option IoctlConstants
  | struct c => c
  | plain c => some c
  | bare => none

def ioctl (slotNr : U32) (b : Bars) (u : UserMem) (cmd : U32) (arg : ℕ) (I : Interface) :
    Option Transfer :=
  I.constants.map fun c =>
    let a := u.answer arg (c.answer slotNr b u cmd arg)
    ⟨a.1, a.2, b, 0⟩

end Interface

/-! ## The crate -/

/-- The words of the bars of a device. -/
def Contents := (bar : Bar) → Fin (bar.size / 4) → U32

/-- Word `i` of a bar. -/
def Contents.word (c : Contents) (bar : Bar) (i : ℕ) : U32 :=
  if h : i < bar.size / 4 then c bar ⟨i, h⟩ else 0#32

/-- The bars with these words; behind them there is nothing. -/
def Contents.bars (c : Contents) : Bars where
  system := c.word .system
  dma := c.word .dma

/-- The words that lie in the bars. -/
def Bars.contents (b : Bars) : Contents := fun bar i => b.word bar i

theorem contents_bars_word (b : Bars) {bar : Bar} {i : ℕ} (hi : i < bar.size / 4) :
    b.contents.bars.word bar i = b.word bar i := by
  have hword : b.contents.word bar i = b.word bar i := dif_pos hi
  cases bar <;> exact hword

/-- The contents of the devices, the switches of the simulated errors, and the
    positions of the open files. -/
structure Crate (N : ℕ) where
  bars : Fin N → Contents
  fails : Flag → Bool
  files : Handle N → Option ℕ

namespace Crate

variable (k : Crate N)

def setFile (h : Handle N) (pos : Option ℕ) : Crate N :=
  { k with files := Function.update k.files h pos }

def setBars (d : Fin N) (b : Bars) : Crate N :=
  { k with bars := Function.update k.bars d b.contents }

/-- A call that changes nothing. -/
def refuse (u : UserMem) (ret : ℤ) : Reply × Crate N := (⟨ret, u⟩, k)

/-- The call ends with a transfer, or with the error `missing` if the file has
    no method for it.  A file that was read or written at its own position,
    `moved`, has a new one if the call succeeded. -/
def finish (u : UserMem) (missing : ℤ) (h : Handle N) (moved : Option ℕ) :
    Option Transfer → Reply × Crate N
  | none => k.refuse u missing
  | some t => (⟨t.ret, t.user⟩,
      match moved with
      | some p => if 0 ≤ t.ret then (k.setBars h.slot t.bars).setFile h (some (p + 4 * t.words))
        else k.setBars h.slot t.bars
      | none => k.setBars h.slot t.bars)

/-- What a system call answers and changes. -/
def step (I : Fin N → Interface) (r : Request (Handle N)) : Reply × Crate N :=
  match r.call with
  | .opn h =>
    match k.files h with
    | some _ => k.refuse r.user (-EBADF)
    | none =>
      if (I h.slot).HasMethods ∧ k.fails .openError then k.refuse r.user (-EINVAL)
      else (⟨0, r.user⟩, k.setFile h (some 0))
  | .release h =>
    match k.files h with
    | none => k.refuse r.user (-EBADF)
    | some _ => (⟨0, r.user⟩, k.setFile h none)
  | .read h buf count pos =>
    match k.files h with
    | none => k.refuse r.user (-EBADF)
    | some p =>
      k.finish r.user (-EINVAL) h (if pos = none then some p else none)
        ((I h.slot).read (BitVec.ofNat 32 h.slot) k.fails (k.bars h.slot).bars r.user buf
          (min count maxRwCount) (pos.getD p))
  | .write h buf count pos =>
    match k.files h with
    | none => k.refuse r.user (-EBADF)
    | some p =>
      k.finish r.user (-EINVAL) h (if pos = none then some p else none)
        ((I h.slot).write k.fails (k.bars h.slot).bars r.user buf (min count maxRwCount) (pos.getD p))
  | .ioctl h cmd arg =>
    match k.files h with
    | none => k.refuse r.user (-EBADF)
    | some _ =>
      k.finish r.user (-ENOTTY) h none
        ((I h.slot).ioctl (BitVec.ofNat 32 h.slot) (k.bars h.slot).bars r.user cmd arg)
  | .procWrite ubuf count =>
    match command r.user ubuf (min count maxRwCount) with
    | none => k.refuse r.user (-EFAULT)
    | some o => (⟨(min count maxRwCount : ℕ), r.user⟩,
      { k with fails := fun f => flagOf (o.value f) (k.fails f) })

end Crate

/-! ## The module as a crate -/

/-- The interface that a table gives a device. -/
def FopsName.interface : FopsName → Interface
  | mtcaDummyFileOps => .struct (some mtcaDummyConstants)
  | llrfDummyFileOps => .struct (some llrfDummyConstants)
  | noIoctlDummyFileOps => .bare
  | noIocltDummyFileOps => .struct none
  | pcieuniDummyFileOps => .plain pcieuniDummyConstants

def Board.interface (B : Board N) (d : Fin N) : Interface :=
  match (B.dummyPrivateData d).cdevOps with
  | some name => name.interface
  | none => .bare

/-- The crate that the store and the files stand for. -/
def World.crate (B : Board N) (w : World N) : Crate N where
  bars d := (B.bars d w.store).contents
  fails f := w.store (.flag f)
  files h := (w.files h).map File.fPos

end MtcaDummy

/-
  The system calls of the processes, one after the other, and how the kernel
  hands them to the driver.

  A call on a file goes through the `file_operations` of its device.  Where the
  method is missing, a read or a write is answered with `-EINVAL`, an ioctl
  with `-ENOTTY`, an open leaves `private_data` at `NULL`, and a release does
  nothing.  A `Request` has the memory of its process as it is when the call
  starts; its `Reply` tells the return value and the memory afterwards.  The
  checks of the arguments that the kernel makes itself have passed.

  `readv` and `writev` are left out.  They call the method once for each
  segment, and a segment that fails after another has passed leaves the
  position behind the bytes returned, as the driver has moved it by then.
-/
import MtcaDummy.Driver.Exec
import MtcaDummy.Driver.Entry

namespace MtcaDummy

/-! ## Files -/

/-- An open file. -/
structure File where
  fPos : ℕ
  privateData : Option ℕ

/-- A file descriptor of the file of a device. -/
structure Handle (N : ℕ) where
  slot : Fin N
  fd : ℕ
  deriving DecidableEq

/-- The shared cells and the open files. -/
structure World (N : ℕ) where
  store : Store
  files : Handle N → Option File

/-- The system calls, on files named by `H`.  A position makes a read a `pread`
    and a write a `pwrite`. -/
inductive Call (H : Type) where
  | opn (h : H)
  | release (h : H)
  | read (h : H) (buf count : ℕ) (pos : Option ℕ)
  | write (h : H) (buf count : ℕ) (pos : Option ℕ)
  | ioctl (h : H) (cmd : U32) (arg : ℕ)
  | procWrite (ubuf count : ℕ)

/-- The file of a call. -/
def Call.file {H : Type} : Call H → Option H
  | opn h | release h | read h _ _ _ | write h _ _ _ | ioctl h _ _ => some h
  | procWrite _ _ => none

/-- The call on other files. -/
def Call.map {H H' : Type} (f : H → H') : Call H → Call H'
  | opn h => opn (f h)
  | release h => release (f h)
  | read h buf count pos => read (f h) buf count pos
  | write h buf count pos => write (f h) buf count pos
  | ioctl h cmd arg => ioctl (f h) cmd arg
  | procWrite ubuf count => procWrite ubuf count

/-- A call of a process, and the signals that reach it meanwhile. -/
structure Request (H : Type) where
  call : Call H
  user : UserMem
  signals : List Bool := []

def Request.map {H H' : Type} (f : H → H') (r : Request H) : Request H' :=
  ⟨r.call.map f, r.user, r.signals⟩

structure Reply where
  ret : ℤ
  user : UserMem

/-! ## Dispatch -/

variable {N : ℕ} (B : Board N)

/-- The device `private_data` points to. -/
def toDevice (p : Option ℕ) : Option (Fin N) :=
  p.bind fun p => if h : p < N then some ⟨p, h⟩ else none

/-- The method a call reaches, as a function of the device its file points
    to. -/
def Request.method (r : Request (Handle N)) : Option (Fin N → Entry N) :=
  match r.call with
  | .opn h => (B.ops h.slot).opn
  | .release h => (B.ops h.slot).release
  | .read h buf count _ => (B.ops h.slot).read.map fun m p => m p buf count
  | .write h buf count _ => (B.ops h.slot).write.map fun m p => m p buf count
  | .ioctl h cmd arg => (B.ops h.slot).unlockedIoctl.map fun m p => m p cmd arg
  | .procWrite _ _ => none

namespace World

variable (w : World N) (r : Request (Handle N))

/-- A call that ends before it reaches the driver. -/
def refuse (ret : ℤ) : Reply × World N := (⟨ret, r.user⟩, w)

/-- The local state of a call of the driver. -/
def enter (pos : ℕ) (privateData : Option ℕ) : Local := ⟨r.user, r.signals, pos, privateData, []⟩

/-- A file replaced. -/
def setFile (h : Handle N) (f : Option File) : World N :=
  { w with files := Function.update w.files h f }

/-- Run the method of a call on an open file.  A file opened without an `open`
    method points to no device, but then there is no other method either. -/
def run₁ (f : File) (pos : ℕ) : Option (Outcome ℤ) :=
  (r.method B).bind fun m => (toDevice f.privateData).map fun p =>
    exec ((m p).body B) (enter r pos f.privateData) w.store

def chrdevOpen (h : Handle N) : Reply × World N :=
  match w.files h with
  | some _ => w.refuse r (-EBADF)
  | none =>
    match r.method B with
    | none => (⟨0, r.user⟩, w.setFile h (some ⟨0, none⟩))
    | some m =>
      let o := exec ((m h.slot).body B) (enter r 0 none) w.store
      if o.val < 0 then
        (⟨o.val, o.loc.user⟩, { w with store := o.store })
      else
        (⟨o.val, o.loc.user⟩, { w with store := o.store }.setFile h (some ⟨0, o.loc.privateData⟩))

def fput (h : Handle N) : Reply × World N :=
  match w.files h with
  | none => w.refuse r (-EBADF)
  | some f =>
    match w.run₁ B r f f.fPos with
    | none => (⟨0, r.user⟩, w.setFile h none)
    | some o => (⟨0, o.loc.user⟩, { w with store := o.store }.setFile h none)

/-- A read or a write.  The position is written back if the call used it and
    did not fail. -/
def vfsTransfer (h : Handle N) (pos : Option ℕ) : Reply × World N :=
  match w.files h with
  | none => w.refuse r (-EBADF)
  | some f =>
    match w.run₁ B r f (pos.getD f.fPos) with
    | none => w.refuse r (-EINVAL)
    | some o =>
      (⟨o.val, o.loc.user⟩,
        if pos = none ∧ 0 ≤ o.val then
          { w with store := o.store }.setFile h (some { f with fPos := o.loc.fPos })
        else { w with store := o.store })

def vfsIoctl (h : Handle N) : Reply × World N :=
  match w.files h with
  | none => w.refuse r (-EBADF)
  | some f =>
    match w.run₁ B r f f.fPos with
    | none => w.refuse r (-ENOTTY)
    | some o => (⟨o.val, o.loc.user⟩, { w with store := o.store })

def procWrite (ubuf count : ℕ) : Reply × World N :=
  let o := exec ((Entry.procWrite ubuf count).body B) (enter r 0 none) w.store
  (⟨o.val, o.loc.user⟩, { w with store := o.store })

/-- One system call. -/
def step : Reply × World N :=
  match r.call with
  | .opn h => w.chrdevOpen B r h
  | .release h => w.fput B r h
  | .read h _ _ pos | .write h _ _ pos => w.vfsTransfer B r h pos
  | .ioctl h _ _ => w.vfsIoctl B r h
  | .procWrite ubuf count => w.procWrite B r ubuf count

end World

/-! ## Runs -/

/-- The calls of a run with their replies, and the world it leaves. -/
def World.run (w : World N) : List (Request (Handle N)) → List (Request (Handle N) × Reply) × World N
  | [] => ([], w)
  | r :: rs =>
    let (x, w') := w.step B r
    let (xs, w'') := run w' rs
    ((r, x) :: xs, w'')

/-- No file is open. -/
def World.start (s : Store) : World N := ⟨s, fun _ => none⟩

section
variable {B : Board N} {w : World N}

@[simp] theorem run_nil : w.run B [] = ([], w) := rfl

@[simp] theorem run_cons (r : Request (Handle N)) (rs : List (Request (Handle N))) :
    w.run B (r :: rs) =
      ((r, (w.step B r).1) :: ((w.step B r).2.run B rs).1, ((w.step B r).2.run B rs).2) := rfl

/-- What `open` does. -/
theorem exec_open (d : ℕ) (ℓ : Local) (s : Store) : exec (mtcaDummyOpen d) ℓ s =
    if ℓ.signals.headD false then ⟨-ERESTARTSYS, { ℓ with signals := ℓ.signals.tail }, s⟩
    else if s (.flag .openError) then ⟨-EINVAL, { ℓ with signals := ℓ.signals.tail }, s⟩
    else ⟨0, { ℓ with signals := ℓ.signals.tail, privateData := some d },
      Function.update s (.inUse d) (s (.inUse d) + 1 : U32)⟩ := by
  simp only [mtcaDummyOpen, exec_bind, exec_lock, next_mk, exec_ite, exec_pure, exec_controlData,
    exec_unlock, exec_setPrivateData, exec_atomicInc]

/-- What `release` does. -/
theorem exec_release (d : ℕ) (ℓ : Local) (s : Store) : exec (mtcaDummyRelease d) ℓ s =
    ⟨0, ℓ, Function.update s (.inUse d) (s (.inUse d) - 1 : U32)⟩ := rfl

/-- Opening a file that is not open, with the `open` method. -/
theorem chrdevOpen_eq {r : Request (Handle N)} {h : Handle N} (hm : r.method B = some .opn)
    (hf : w.files h = none) : w.chrdevOpen B r h =
      if r.signals.headD false then (⟨-ERESTARTSYS, r.user⟩, w)
      else if w.store (.flag .openError) then (⟨-EINVAL, r.user⟩, w)
      else (⟨0, r.user⟩, World.setFile
        ⟨Function.update w.store (.inUse h.slot) (w.store (.inUse h.slot) + 1 : U32), w.files⟩ h
        (some ⟨0, some h.slot⟩)) := by
  unfold World.chrdevOpen
  rw [hf, hm]
  simp only [Entry.body, exec_open, World.enter]
  have hintr : -ERESTARTSYS < 0 := by decide
  have hinval : -EINVAL < 0 := by decide
  cases r.signals.headD false with
  | true => simp only [if_true, hintr]
  | false =>
    cases w.store (.flag .openError) with
    | true => simp only [Bool.false_eq_true, if_false, if_true, hinval]
    | false => simp only [Bool.false_eq_true, if_false, Int.lt_irrefl]

/-- Releasing an open file, with the `release` method. -/
theorem fput_eq {r : Request (Handle N)} {h : Handle N} {f : File}
    (hm : r.method B = some .release) (hf : w.files h = some f)
    (hp : toDevice f.privateData = some h.slot) : w.fput B r h =
      (⟨0, r.user⟩, World.setFile
        ⟨Function.update w.store (.inUse h.slot) (w.store (.inUse h.slot) - 1 : U32), w.files⟩ h
        none) := by
  unfold World.fput
  rw [hf]
  simp only [World.run₁, hm, hp, Option.bind_some, Option.map_some, Entry.body, exec_release,
    World.enter]

/-- A counter of 32 bits that has counted `n` things is 0 again after `2 ^ 32`
    of them. -/
theorem ofNat_eq_zero_iff {n : ℕ} : BitVec.ofNat 32 n = 0#32 ↔ 2 ^ 32 ∣ n := by
  rw [← BitVec.toNat_inj, BitVec.toNat_ofNat, Nat.dvd_iff_mod_eq_zero]
  rfl

/-- One thing less. -/
theorem ofNat_succ_sub_one (n : ℕ) : BitVec.ofNat 32 (n + 1) - 1 = BitVec.ofNat 32 n := by
  rw [BitVec.ofNat_add]
  exact BitVec.add_sub_cancel _ _

/-- There is one `open` method. -/
theorem opn_eq {d : Fin N} {m : Fin N → Entry N} (h : (B.ops d).opn = some m) : m = .opn := by
  unfold Board.ops at h
  split at h
  · rename_i name _
    cases name <;> cases h <;> rfl
  · cases h

/-- What every call keeps holds after every run. -/
theorem World.run_invariant {I : World N → Prop} (hstep : ∀ w r, I w → I (w.step B r).2)
    (hw : I w) (rs : List (Request (Handle N))) : I (w.run B rs).2 := by
  induction rs generalizing w with
  | nil => exact hw
  | cons r rs ih => exact ih (hstep w r hw)

end

end MtcaDummy

/-
  Loading and unloading the module (mtcaDummy_init_module and
  mtcaDummy_cleanup_module in mtcadummy_drv.c), for any number `N` of devices
  in place of `MTCADUMMY_NR_DEVS`.

  The kernel calls succeed or fail as `Outcomes` says.  `Setup` is what the
  module has built so far, and the log of what it acquired, failed to acquire,
  used and released.  A `goto` is a returned `Label`; `unwind` is the code after
  the labels, where each one falls through to the next.

  `loaded_ready`: if the initialisation returns 0, the data of the devices, the
  store and the sizes of the blocks are `readyData`, `readyStore` and
  `readySize`; `Board.loaded` is the board of such a module.
-/
import MtcaDummy.Conc.Ledger
import MtcaDummy.Driver.Exec
import MtcaDummy.Driver.Firmware
import Mathlib.Control.Monad.Basic
import Mathlib.Tactic.SplitIfs

namespace MtcaDummy

/-- `MTCADUMMY_NR_DEVS`. -/
abbrev nrDevs : ℕ := 7

theorem nrDevs_pos : 0 < nrDevs := by decide

theorem nrDevs_le : nrDevs ≤ 2 ^ 32 := by decide

/-- The slots whose devices have tables of their own: the ioctl of `llrfdrv`,
    no ioctl, and the interface without struct. -/
def llrfSlot : Fin nrDevs := ⟨4, by decide⟩
def noIoctlSlot : Fin nrDevs := ⟨5, by decide⟩
def pcieuniSlot : Fin nrDevs := ⟨6, by decide⟩

/-- Which of the kernel calls succeed, those in the loop by device, and where
    `kmalloc` places the blocks. -/
structure Outcomes where
  allocChrdevRegion : Bool
  classCreate : Bool
  kmallocSystemBar : ℕ → Bool
  kmallocDmaBar : ℕ → Bool
  cdevAdd : ℕ → Bool
  deviceCreate : ℕ → Bool
  layout : Layout

/-- The pointers `class_create` and `device_create` return: an `ERR_PTR` on
    failure. -/
inductive KPtr where
  | null
  | errPtr
  | valid
  deriving DecidableEq

inductive Resource where
  | region
  | cls
  | block (p : Ptr)
  | mutex (i : ℕ)
  | cdev (i : ℕ)
  | node (i : ℕ)
  deriving DecidableEq

abbrev Act := Conc.Ledger.Act Resource

/-- The log, the block the next `kmalloc` returns, the sizes in bytes of the
    blocks handed out, the shared cells, and the array `dummyPrivateData`. -/
structure Setup where
  log : List Act
  next : ℕ
  size : Ptr → ℕ
  store : Store
  dummyPrivateData : ℕ → MtcaDummyData

abbrev SetupM := StateM Setup

/-! ## The kernel calls -/

def logAct (a : Act) : SetupM Unit := modify fun m => { m with log := m.log ++ [a] }

def allocChrdevRegion (k : Outcomes) : SetupM Bool := do
  if k.allocChrdevRegion then
    logAct (.acquire .region)
  else
    logAct (.refuse .region)
  return k.allocChrdevRegion

def classCreate (k : Outcomes) : SetupM KPtr := do
  if k.classCreate then
    logAct (.acquire .cls)
    return .valid
  logAct (.refuse .cls)
  return .errPtr

/-- A block that was never handed out before, or `NULL`. -/
def kmalloc (ok : Bool) (size : ℕ) : SetupM Ptr := do
  if ok then
    let p := (← get).next
    modify fun m => { m with next := p + 1, size := Function.update m.size p size }
    logAct (.acquire (.block p))
    return p
  logAct (.refuse (.block NULL))
  return NULL

/-- The first `n` words of a block set to `0`. -/
def memsetStore (p : Ptr) (n : ℕ) (s : Store) : Store
  | .word b i => if b = p ∧ i < n then 0#32 else s (.word b i)
  | l => s l

def memset (p : Ptr) (size : ℕ) : SetupM Unit := do
  modify fun m => { m with store := memsetStore p (size / 4) m.store }
  logAct (.use (.block p))

/-- Run code of the driver that needs no process. -/
def runKernel (x : KM Unit) : SetupM Unit := modify fun m =>
  { m with store := (exec x { user := noUser } m.store).store }

/-- The device number is one of the region. -/
def cdevAdd (k : Outcomes) (i : ℕ) : SetupM Bool := do
  logAct (.use .region)
  if k.cdevAdd i then
    logAct (.acquire (.cdev i))
  else
    logAct (.refuse (.cdev i))
  return k.cdevAdd i

def deviceCreate (k : Outcomes) (i : ℕ) : SetupM KPtr := do
  logAct (.use .cls)
  logAct (.use .region)
  if k.deviceCreate i then
    logAct (.acquire (.node i))
    return .valid
  logAct (.refuse (.node i))
  return .errPtr

def kfree (p : Ptr) : SetupM Unit := logAct (.release (.block p))

def dataOf (i : ℕ) : SetupM MtcaDummyData := return (← get).dummyPrivateData i

def updateData (i : ℕ) (f : MtcaDummyData → MtcaDummyData) : SetupM Unit := modify fun m =>
  { m with dummyPrivateData :=
      Function.update m.dummyPrivateData i (f (m.dummyPrivateData i)) }

/-! ## Initialisation -/

/-- The labels the loop jumps to. -/
inductive Label where
  | errDeviceCreate
  | errCdevInit
  | errAllocateDmaBar
  | errAllocateSystemBar

/-- The `file_operations` the switch on the slot gives the device. -/
def slotOps (i : ℕ) : FopsName :=
  if i = 4 then .llrfDummyFileOps
  else if i = 5 then .noIoctlDummyFileOps
  else if i = 6 then .pcieuniDummyFileOps
  else .mtcaDummyFileOps

/-- The body of the loop for device `i`: the label it jumps to, if it does. -/
def initDevice (k : Outcomes) (i : ℕ) : SetupM (Option Label) := do
  let p ← kmalloc (k.kmallocSystemBar i) (nRegisters * 4)
  updateData i fun d => { d with systemBar := p }
  if p = NULL then
    return some .errAllocateSystemBar
  memset p (nRegisters * 4)
  let q ← kmalloc (k.kmallocDmaBar i) dmaSize
  updateData i fun d => { d with dmaBar := q }
  if q = NULL then
    return some .errAllocateDmaBar
  memset q dmaSize
  runKernel (mtcadummyInitialiseSystemBar p)
  logAct (.use (.block p))
  logAct (.acquire (.mutex i))
  modify fun m => { m with store := Function.update m.store (.inUse i) 0#32 }
  updateData i fun d => { d with slotNr := BitVec.ofNat 32 i }
  updateData i fun d => { d with cdevOps := some (slotOps i) }
  if !(← cdevAdd k i) then
    return some .errCdevInit
  if (← deviceCreate k i) = .null then
    return some .errDeviceCreate
  return none

/-- The loop for the `n` devices from `i` on: where it jumped to, and the `i`
    it stopped at. -/
def initLoop (k : Outcomes) : ℕ → ℕ → SetupM (Option (Label × ℕ))
  | 0, _ => pure none
  | n + 1, i => do
    match ← initDevice k i with
    | some l => return some (l, i)
    | none => initLoop k n (i + 1)

/-- The loop body that takes device `j` down. -/
def destroyDevice (j : ℕ) : SetupM Unit := do
  logAct (.use .cls)
  logAct (.release (.node j))
  logAct (.release (.cdev j))
  logAct (.release (.mutex j))
  kfree (← dataOf j).systemBar
  kfree (← dataOf j).dmaBar

def destroyDevices : ℕ → ℕ → SetupM Unit
  | 0, _ => pure ()
  | n + 1, j => do
    destroyDevice j
    destroyDevices n (j + 1)

/-! The code after each label, for the `i` at which the loop stopped. -/

def errClassCreate : SetupM Unit := logAct (.release .region)

def errAllocateSystemBar (i : ℕ) : SetupM Unit := do
  destroyDevices i 0
  logAct (.release .cls)
  errClassCreate

def errAllocateDmaBar (i : ℕ) : SetupM Unit := do
  kfree (← dataOf i).systemBar
  errAllocateSystemBar i

def errCdevInit (i : ℕ) : SetupM Unit := do
  logAct (.release (.mutex i))
  kfree (← dataOf i).dmaBar
  errAllocateDmaBar i

def errDeviceCreate (i : ℕ) : SetupM Unit := do
  logAct (.release (.cdev i))
  errCdevInit i

def unwind (i : ℕ) : Label → SetupM Unit
  | .errDeviceCreate => errDeviceCreate i
  | .errCdevInit => errCdevInit i
  | .errAllocateDmaBar => errAllocateDmaBar i
  | .errAllocateSystemBar => errAllocateSystemBar i

/-- `memset(dummyPrivateData, 0, sizeof(dummyPrivateData))`; the counters are
    part of the array. -/
def clearPrivateData : SetupM Unit := modify fun m => { m with
  dummyPrivateData := fun _ => ⟨0#32, NULL, NULL, none⟩
  store := fun
    | .inUse _ => 0#32
    | l => m.store l }

def mtcaDummyInitModule (N : ℕ) (k : Outcomes) : SetupM ℤ := do
  if !(← allocChrdevRegion k) then
    return -1
  if (← classCreate k) = .errPtr then
    errClassCreate
    return -1
  clearPrivateData
  match ← initLoop k N 0 with
  | some (l, i) =>
    unwind i l
    return -1
  | none => return 0

def mtcaDummyCleanupModule (N : ℕ) : SetupM Unit := do
  destroyDevices N 0
  logAct (.release .cls)
  logAct (.release .region)

/-! ## The module after a successful initialisation -/

/-- Nothing is done yet; the flags are clear, and memory holds `mem`. -/
def Setup.start (mem : Ptr → ℕ → U32) : Setup where
  log := []
  next := 1
  size := fun _ => 0
  store := fun
    | .word b i => mem b i
    | .flag _ => false
    | .inUse _ => 0#32
  dummyPrivateData := fun _ => ⟨0#32, NULL, NULL, none⟩

/-- The return value of the initialisation and what it leaves. -/
def loaded (N : ℕ) (k : Outcomes) (mem : Ptr → ℕ → U32) : ℤ × Setup :=
  (mtcaDummyInitModule N k).run (.start mem)

/-- The words of bar 0 after its initialisation. -/
def initialSystemBar (i : ℕ) : U32 :=
  if i = wordFirmware.toNat / 4 then drvVersionMaj
  else if i = wordCompilation.toNat / 4 then drvVersionMin
  else if i = wordDummy.toNat / 4 then dmmyAsAscii
  else if i = wordClkRst.toNat / 4 then 1#32
  else if i = brokenWrite.toNat / 4 then brokenWrite
  else 0#32

/-- The device in slot `j`; its bars are the blocks `2 j + 1` and `2 j + 2`. -/
def readyDevice (j : ℕ) : MtcaDummyData :=
  ⟨BitVec.ofNat 32 j, 2 * j + 1, 2 * j + 2, some (slotOps j)⟩

/-- The array with `n` devices ready. -/
def readyData (n j : ℕ) : MtcaDummyData :=
  if j < n then readyDevice j else ⟨0#32, NULL, NULL, none⟩

/-- The store with `n` devices ready. -/
def readyStore (mem : Ptr → ℕ → U32) (n : ℕ) : Store
  | .word b i =>
    if b ≠ 0 ∧ b ≤ 2 * n then
      if b % 2 = 1 then if i < nRegisters then initialSystemBar i else mem b i
      else if i < dmaSize / 4 then 0#32 else mem b i
    else mem b i
  | .flag _ => false
  | .inUse _ => 0#32

/-- The store after device `i` was set up with the bars `p` and `q`. -/
def deviceStore (p q : Ptr) (i : ℕ) (s : Store) : Store
  | .word b j =>
    if b = p ∧ j < nRegisters then initialSystemBar j
    else if b = q ∧ j < dmaSize / 4 then 0#32
    else s (.word b j)
  | .flag f => s (.flag f)
  | .inUse n => if n = i then 0#32 else s (.inUse n)

/-- The memory and counter of a device after its set-up. -/
theorem initialise_store (p q : Ptr) (i : ℕ) (ℓ : Local) (s : Store) (hpq : p ≠ q) :
    Function.update (exec (mtcadummyInitialiseSystemBar p) ℓ
      (memsetStore q (dmaSize / 4) (memsetStore p nRegisters s))).store (.inUse i) 0#32 =
      deviceStore p q i s := by
  funext l
  cases l with
  | word b j =>
    simp [mtcadummyInitialiseSystemBar, setReg, initialSystemBar, wordFirmware, wordCompilation,
      wordStatus, wordUser, wordDummy, wordClkRst, brokenWrite, memsetStore, deviceStore, nRegisters]
    by_cases hb : b = p
    · subst hb
      simp only [hpq, true_and, false_and, if_false]
      by_cases hset : j = 19 ∨ j = 16 ∨ j = 15 ∨ j = 3 ∨ j = 2 ∨ j = 1 ∨ j = 0
      · rcases hset with rfl | rfl | rfl | rfl | rfl | rfl | rfl <;> rfl
      · simp only [not_or] at hset
        simp only [hset, if_false]
    · simp [hb]
  | flag f => simp [mtcadummyInitialiseSystemBar, setReg, memsetStore, deviceStore]
  | inUse n => simp [mtcadummyInitialiseSystemBar, setReg, memsetStore, deviceStore]

/-- What a body that gets as far as `cdev_add` has done, with the bars `p` and
    `q`. -/
def deviceActs (p q : Ptr) (i : ℕ) : List Act :=
  [.acquire (.block p), .use (.block p), .acquire (.block q), .use (.block q), .use (.block p),
    .acquire (.mutex i), .use .region]

/-- What the loop body does for device `i`, and where it jumps. -/
inductive DeviceStep (k : Outcomes) (i : ℕ) (m m' : Setup) : Option Label → Prop
  | errAllocateSystemBar (hsystem : k.kmallocSystemBar i = false)
      (hlog : m'.log = m.log ++ ([.refuse (.block NULL)] : List Act)) :
      DeviceStep k i m m' (some .errAllocateSystemBar)
  | errAllocateDmaBar (hdma : k.kmallocDmaBar i = false)
      (hbar : (m'.dummyPrivateData i).systemBar = m.next)
      (hlog : m'.log = m.log ++ ([.acquire (.block m.next), .use (.block m.next),
        .refuse (.block NULL)] : List Act)) :
      DeviceStep k i m m' (some .errAllocateDmaBar)
  | errCdevInit (hcdev : k.cdevAdd i = false)
      (hbar : (m'.dummyPrivateData i).systemBar = m.next)
      (hbar' : (m'.dummyPrivateData i).dmaBar = m.next + 1)
      (hlog : m'.log = m.log ++ deviceActs m.next (m.next + 1) i ++
        ([.refuse (.cdev i)] : List Act)) :
      DeviceStep k i m m' (some .errCdevInit)
  | done (hsystem : k.kmallocSystemBar i = true) (hdma : k.kmallocDmaBar i = true)
      (hcdev : k.cdevAdd i = true) (hnext : m'.next = m.next + 2)
      (hsize : m'.size = Function.update (Function.update m.size m.next (nRegisters * 4))
        (m.next + 1) dmaSize)
      (hstore : m'.store = deviceStore m.next (m.next + 1) i m.store)
      (hdata : m'.dummyPrivateData = Function.update m.dummyPrivateData i
        ⟨BitVec.ofNat 32 i, m.next, m.next + 1, some (slotOps i)⟩)
      (hlog : m'.log = m.log ++ deviceActs m.next (m.next + 1) i ++
        ([.acquire (.cdev i), .use .cls, .use .region,
          if k.deviceCreate i then .acquire (.node i) else .refuse (.node i)] : List Act)) :
      DeviceStep k i m m' none

/-- The loop body does one of these, and changes the data of its device only. -/
theorem initDevice_step {k : Outcomes} {i : ℕ} {m m' : Setup} {r : Option Label}
    (hm : m.next ≠ 0) (h : (initDevice k i).run m = (r, m')) :
    DeviceStep k i m m' r ∧ ∀ j ≠ i, m'.dummyPrivateData j = m.dummyPrivateData j := by
  cases h₁ : k.kmallocSystemBar i with
  | false =>
    simp [initDevice, kmalloc, updateData, logAct, h₁] at h
    cases h
    exact ⟨.errAllocateSystemBar h₁ rfl, fun j hj => Function.update_of_ne hj _ _⟩
  | true =>
    cases h₂ : k.kmallocDmaBar i with
    | false =>
      simp [initDevice, kmalloc, updateData, logAct, memset, h₁, h₂, NULL, hm] at h
      cases h
      refine ⟨.errAllocateDmaBar h₂ ?_ ?_, fun j hj => ?_⟩
      · simp
      · simp [NULL]
      · simp [hj]
    | true =>
      cases h₃ : k.cdevAdd i with
      | false =>
        simp [initDevice, kmalloc, updateData, logAct, memset, runKernel, cdevAdd, h₁, h₂, h₃,
          NULL, hm] at h
        cases h
        refine ⟨.errCdevInit h₃ ?_ ?_ ?_, fun j hj => ?_⟩
        · simp
        · simp
        · simp [deviceActs]
        · simp [hj]
      | true =>
        have hstore := initialise_store m.next (m.next + 1) i
          { user := noUser } m.store (Nat.succ_ne_self _).symm
        cases h₄ : k.deviceCreate i with
        | false =>
          simp [initDevice, kmalloc, updateData, logAct, memset, runKernel, cdevAdd, deviceCreate,
            h₁, h₂, h₃, h₄, NULL, hm] at h
          cases h
          refine ⟨.done h₁ h₂ h₃ rfl rfl hstore rfl ?_, fun j hj => ?_⟩
          · simp [deviceActs, h₄]
          · simp [hj]
        | true =>
          simp [initDevice, kmalloc, updateData, logAct, memset, runKernel, cdevAdd, deviceCreate,
            h₁, h₂, h₃, h₄, NULL, hm] at h
          cases h
          refine ⟨.done h₁ h₂ h₃ rfl rfl hstore rfl ?_, fun j hj => ?_⟩
          · simp [deviceActs, h₄]
          · simp [hj]

/-- The blocks of `n` devices are those of their bars. -/
def readySize (n : ℕ) (p : Ptr) : ℕ :=
  if p ≠ 0 ∧ p ≤ 2 * n then if p % 2 = 1 then nRegisters * 4 else dmaSize else 0

/-- The store and the data with `n` devices ready, and room for the next. -/
structure Setup.Ready (mem : Ptr → ℕ → U32) (n : ℕ) (m : Setup) : Prop where
  next : m.next = 2 * n + 1
  size : m.size = readySize n
  store : m.store = readyStore mem n
  data : m.dummyPrivateData = readyData n

theorem Setup.Ready.next_ne {mem : Ptr → ℕ → U32} {n : ℕ} {m : Setup} (hm : m.Ready mem n) :
    m.next ≠ 0 := by
  rw [hm.next]
  exact Nat.succ_ne_zero _

theorem Setup.Ready.device {mem : Ptr → ℕ → U32} {k : Outcomes} {i : ℕ} {m m' : Setup}
    (hm : m.Ready mem i) (h : DeviceStep k i m m' none) : m'.Ready mem (i + 1) := by
  cases h with
  | done _ _ _ hnext hsize hstore hdata _ =>
    refine ⟨?_, ?_, ?_, ?_⟩
    · rw [hnext, hm.next]
      omega
    · rw [hsize, hm.next, hm.size]
      funext p
      simp only [Function.update_apply, readySize, Ptr]
      split_ifs <;> first | rfl | omega
    · rw [hstore, hm.next, hm.store]
      funext l
      cases l with
      | word b j =>
        dsimp only [deviceStore, readyStore, Ptr]
        split_ifs <;> first | rfl | omega
      | flag f => rfl
      | inUse n => simp [deviceStore, readyStore]
    · rw [hdata, hm.next, hm.data]
      funext j
      by_cases hj : j = i
      · subst hj
        simp [readyData, readyDevice]
      · simp only [Function.update_of_ne hj, readyData]
        have : j < i ↔ j < i + 1 := by omega
        simp only [this]

theorem initLoop_succ (k : Outcomes) (n i : ℕ) (m : Setup) :
    (initLoop k (n + 1) i).run m =
      (match ((initDevice k i).run m).1 with
        | some l => ((some (l, i), ((initDevice k i).run m).2) : _ × Setup)
        | none => (initLoop k n (i + 1)).run ((initDevice k i).run m).2) := by
  simp only [initLoop, StateT.run_bind]
  change (match ((initDevice k i).run m).1 with | some l => _ | none => _ : SetupM _).run
    ((initDevice k i).run m).2 = _
  cases ((initDevice k i).run m).1 <;> rfl

/-- The rule of the loop: `I i` holds whenever the loop begins with device `i`,
    and `S i l` when it jumps to `l` there. -/
theorem initLoop_rule {k : Outcomes} {I : ℕ → Setup → Prop} {S : ℕ → Label → Setup → Prop}
    (hnone : ∀ i m m', I i m → (initDevice k i).run m = (none, m') → I (i + 1) m')
    (hsome : ∀ i l m m', I i m → (initDevice k i).run m = (some l, m') → S i l m')
    (n : ℕ) {i : ℕ} {m : Setup} (hm : I i m) :
    (∀ m', (initLoop k n i).run m = (none, m') → I (i + n) m') ∧
      ∀ l j m', (initLoop k n i).run m = (some (l, j), m') → j < i + n ∧ S j l m' := by
  induction n generalizing i m with
  | zero =>
    constructor
    · intro m' h
      cases h
      exact hm
    · intro l j m' h
      cases h
  | succ n ih =>
    rw [initLoop_succ]
    cases hr : ((initDevice k i).run m).1 with
    | some l =>
      constructor
      · intro m' h
        cases h
      · intro l' j m' h
        cases h
        exact ⟨by omega, hsome _ _ _ _ hm (Prod.ext hr rfl)⟩
    | none =>
      have hrest := ih (hnone _ _ _ hm (Prod.ext hr rfl))
      rw [Nat.add_right_comm] at hrest
      exact hrest

theorem Setup.Ready.loop {mem : Ptr → ℕ → U32} {k : Outcomes} (n : ℕ) {i : ℕ} {m m' : Setup}
    (hm : m.Ready mem i) (h : (initLoop k n i).run m = (none, m')) : m'.Ready mem (i + n) :=
  (initLoop_rule (fun _ _ _ hm h => hm.device (initDevice_step hm.next_ne h).1)
    (fun _ _ _ _ _ _ => trivial) n hm).1 m' h

/-- What is zeroed before the loop is zero already. -/
theorem clearPrivateData_start (mem : Ptr → ℕ → U32) (log : List Act) :
    clearPrivateData.run { Setup.start mem with log := log } =
      pure ((), { Setup.start mem with log := log }) := by
  have hs : (fun l => match l with
      | .inUse _ => 0#32
      | l => (Setup.start mem).store l : Store) = (Setup.start mem).store := by
    funext l
    cases l <;> rfl
  exact congrArg (fun s => ((), ({ Setup.start mem with log := log, store := s } : Setup))) hs

/-- The set-up when the loop begins. -/
def Setup.begun (mem : Ptr → ℕ → U32) : Setup :=
  { Setup.start mem with log := [.acquire .region, .acquire .cls] }

theorem Setup.ready_begun (mem : Ptr → ℕ → U32) : (Setup.begun mem).Ready mem 0 :=
  ⟨rfl, by funext p; simp [Setup.begun, Setup.start, readySize],
    by funext l; cases l <;> simp [Setup.begun, Setup.start, readyStore],
    by funext j; simp [Setup.begun, Setup.start, readyData]⟩

/-- What happens from the loop on. -/
theorem loaded_eq_loop {N : ℕ} {k : Outcomes} {mem : Ptr → ℕ → U32}
    (hr : k.allocChrdevRegion = true) (hc : k.classCreate = true) :
    loaded N k mem = (do
      match ← initLoop k N 0 with
      | some (l, i) =>
        unwind i l
        return -1
      | none => return 0 : SetupM ℤ).run (.begun mem) := by
  have hclear := clearPrivateData_start mem [.acquire .region, .acquire .cls]
  simp only [Setup.start] at hclear
  simp [loaded, mtcaDummyInitModule, allocChrdevRegion, classCreate, logAct, hr, hc, Setup.start,
    Setup.begun, hclear]

/-- How the initialisation can end, and what it leaves. -/
inductive LoadResult (N : ℕ) (k : Outcomes) (mem : Ptr → ℕ → U32) : ℤ × Setup → Prop
  | errAllocChrdevRegion (hr : k.allocChrdevRegion = false) :
      LoadResult N k mem (-1, { Setup.start mem with log := [.refuse .region] })
  | errClassCreate (hr : k.allocChrdevRegion = true) (hc : k.classCreate = false) :
      LoadResult N k mem (-1, { Setup.start mem with
        log := [.acquire .region, .refuse .cls, .release .region] })
  | stopped (hr : k.allocChrdevRegion = true) (hc : k.classCreate = true) {l : Label} {i : ℕ}
      {m : Setup} (hloop : (initLoop k N 0).run (.begun mem) = (some (l, i), m)) :
      LoadResult N k mem (-1, ((unwind i l).run m).2)
  | done (hr : k.allocChrdevRegion = true) (hc : k.classCreate = true) {m : Setup}
      (hloop : (initLoop k N 0).run (.begun mem) = (none, m)) : LoadResult N k mem (0, m)

theorem loaded_result (N : ℕ) (k : Outcomes) (mem : Ptr → ℕ → U32) :
    LoadResult N k mem (loaded N k mem) := by
  cases hr : k.allocChrdevRegion with
  | false =>
    have h : loaded N k mem = (-1, { Setup.start mem with log := [.refuse .region] }) := by
      simp [loaded, mtcaDummyInitModule, allocChrdevRegion, logAct, hr]
      rfl
    rw [h]
    exact .errAllocChrdevRegion hr
  | true =>
    cases hc : k.classCreate with
    | false =>
      have h : loaded N k mem = (-1, { Setup.start mem with
          log := [.acquire .region, .refuse .cls, .release .region] }) := by
        simp [loaded, mtcaDummyInitModule, allocChrdevRegion, classCreate, errClassCreate, logAct,
          hr, hc]
        rfl
      rw [h]
      exact .errClassCreate hr hc
    | true =>
      rw [loaded_eq_loop hr hc]
      simp only [StateT.run_bind]
      cases hloop : (initLoop k N 0).run (.begun mem) with
      | mk r m =>
        cases r with
        | some li => exact .stopped hr hc hloop
        | none => exact .done hr hc hloop

/-- **A successful initialisation leaves all devices ready.** -/
theorem loaded_ready {N : ℕ} {k : Outcomes} {mem : Ptr → ℕ → U32} (h : (loaded N k mem).1 = 0) :
    (loaded N k mem).2.Ready mem N := by
  have hresult := loaded_result N k mem
  generalize loaded N k mem = r at h hresult ⊢
  cases hresult with
  | errAllocChrdevRegion => cases h
  | errClassCreate => cases h
  | stopped => cases h
  | done _ _ hloop =>
    have hready := (Setup.ready_begun mem).loop N hloop
    rwa [Nat.zero_add] at hready

/-- The board with all devices ready. -/
def Board.ready {N : ℕ} (hN : N ≤ 2 ^ 32) (layout : Layout) : Board N where
  dummyPrivateData := readyData N
  layout := layout
  slotNr_eq d hd := by
    rw [readyData, if_pos hd]
    exact Nat.mod_eq_of_lt (by omega)
  systemBar_ne d hd := by
    rw [readyData, if_pos hd]
    exact Nat.succ_ne_zero _
  dmaBar_ne d hd := by
    rw [readyData, if_pos hd]
    exact Nat.succ_ne_zero _
  systemBar_inj d hd e he := by
    rw [readyData, readyData, if_pos hd, if_pos he]
    dsimp only [readyDevice, Ptr]
    omega
  dmaBar_inj d hd e he := by
    rw [readyData, readyData, if_pos hd, if_pos he]
    dsimp only [readyDevice, Ptr]
    omega
  systemBar_ne_dmaBar d hd e he := by
    rw [readyData, readyData, if_pos hd, if_pos he]
    dsimp only [readyDevice, Ptr]
    omega

/-- The board of a module whose initialisation succeeded. -/
def Board.loaded {N : ℕ} {k : Outcomes} {mem : Ptr → ℕ → U32}
    (h : (MtcaDummy.loaded N k mem).1 = 0) (hN : N ≤ 2 ^ 32) : Board N where
  dummyPrivateData := (MtcaDummy.loaded N k mem).2.dummyPrivateData
  layout := k.layout
  slotNr_eq := (loaded_ready h).data ▸ (Board.ready hN k.layout).slotNr_eq
  systemBar_ne := (loaded_ready h).data ▸ (Board.ready hN k.layout).systemBar_ne
  dmaBar_ne := (loaded_ready h).data ▸ (Board.ready hN k.layout).dmaBar_ne
  systemBar_inj := (loaded_ready h).data ▸ (Board.ready hN k.layout).systemBar_inj
  dmaBar_inj := (loaded_ready h).data ▸ (Board.ready hN k.layout).dmaBar_inj
  systemBar_ne_dmaBar := (loaded_ready h).data ▸ (Board.ready hN k.layout).systemBar_ne_dmaBar

theorem Board.loaded_data {N : ℕ} {k : Outcomes} {mem : Ptr → ℕ → U32}
    (h : (MtcaDummy.loaded N k mem).1 = 0) (hN : N ≤ 2 ^ 32) :
    (Board.loaded h hN).dummyPrivateData = readyData N :=
  (loaded_ready h).data

/-- A successful initialisation leaves all devices ready on the board, too. -/
theorem Board.loaded_eq {N : ℕ} {k : Outcomes} {mem : Ptr → ℕ → U32}
    (h : (MtcaDummy.loaded N k mem).1 = 0) (hN : N ≤ 2 ^ 32) :
    Board.loaded h hN = Board.ready hN k.layout :=
  Board.ext (loaded_ready h).data rfl

/-! ### Every call succeeds -/

/-- The blocks lie one page of 4096 bytes after the other. -/
def Layout.pages : Layout where
  address p := 1024 * p
  wordAt a := (a / 1024, a % 1024)
  address_wordAt a := Nat.div_add_mod a 1024

def Outcomes.success : Outcomes :=
  ⟨true, true, fun _ => true, fun _ => true, fun _ => true, fun _ => true, .pages⟩

theorem initLoop_success {mem : Ptr → ℕ → U32} (n : ℕ) {i : ℕ} {m : Setup}
    (hm : m.Ready mem i) : ((initLoop .success n i).run m).1 = none := by
  induction n generalizing i m with
  | zero => rfl
  | succ n ih =>
    rw [initLoop_succ]
    rcases hrun : (initDevice .success i).run m with ⟨r, m'⟩
    obtain ⟨hstep, -⟩ := initDevice_step hm.next_ne hrun
    cases r with
    | none => exact ih (hm.device hstep)
    | some l =>
      cases hstep with
      | errAllocateSystemBar hsystem => cases hsystem
      | errAllocateDmaBar hdma => cases hdma
      | errCdevInit hcdev => cases hcdev

theorem loaded_success (N : ℕ) (mem : Ptr → ℕ → U32) : (loaded N .success mem).1 = 0 := by
  have hl := initLoop_success N (Setup.ready_begun mem)
  have hresult := loaded_result N .success mem
  generalize loaded N .success mem = r at hresult ⊢
  cases hresult with
  | errAllocChrdevRegion hr => cases hr
  | errClassCreate _ hc => cases hc
  | stopped _ _ hloop =>
    rw [hloop] at hl
    cases hl
  | done => rfl

/-- The seven devices of a module that was loaded without a failure. -/
def loadedBoard : Board nrDevs := Board.loaded (loaded_success nrDevs fun _ _ => 0#32) nrDevs_le

theorem loadedBoard_data : loadedBoard.dummyPrivateData = readyData nrDevs := Board.loaded_data _ _

theorem loadedBoard_eq : loadedBoard = Board.ready nrDevs_le .pages := Board.loaded_eq _ _

/-- The store of this module. -/
theorem loaded_success_store (N : ℕ) (mem : Ptr → ℕ → U32) :
    (loaded N .success mem).2.store = readyStore mem N :=
  (loaded_ready (loaded_success N mem)).store

end MtcaDummy

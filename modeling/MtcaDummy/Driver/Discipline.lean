/-
  The lock discipline of the entry points.

  `devMutex` of a device guards the words of its bars, `controlMutex` the error
  flags; device mutexes are taken first.  `Keeps` and `Ends` judge a part of an
  entry point called on device `d`: it keeps the discipline, it takes no mutex
  of another device and touches no cell of another device (`Scope`), and it
  leaves the mutexes held as they were (`Keeps`), or holds none when it returns
  (`Ends`).  The rules follow the code; `Entry.disciplined`, `Entry.scope` and
  `Entry.cells` are the results for all entry points.

  A read by DMA whose sum wraps leaves its bar.  So the words are guarded, and
  the words read are those of the device, on an assumption: `words` is any
  proposition that puts the request in range (`Entry.InRange`).  What has
  nothing to do with the words is had with `False`.
-/
import MtcaDummy.Conc.Locking
import MtcaDummy.Driver.Bars
import MtcaDummy.Driver.Dma

namespace MtcaDummy

open Conc

variable {N : ℕ} (B : Board N)

/-! ## What the mutexes guard -/

/-- A block is one of the bars of a device. -/
def Board.IsBar (d : ℕ) (b : Ptr) : Prop :=
  b = (B.dummyPrivateData d).systemBar ∨ b = (B.dummyPrivateData d).dmaBar

theorem Board.IsBar.unique {B : Board N} {d e : ℕ} {b : Ptr} (hd : d < N) (he : e < N)
    (h : B.IsBar d b) (h' : B.IsBar e b) : d = e := by
  rcases h with rfl | rfl <;> rcases h' with h' | h'
  · exact B.systemBar_inj d hd e he h'
  · exact absurd h' (B.systemBar_ne_dmaBar d hd e he)
  · exact absurd h'.symm (B.systemBar_ne_dmaBar e he d hd)
  · exact B.dmaBar_inj d hd e he h'

/-- Word `i` of block `b` is a word of a bar of device `d`. -/
def Board.InBar (d : ℕ) (b : Ptr) (i : ℕ) : Prop :=
  ∃ bar : Bar, b = bar.base (B.dummyPrivateData d) ∧ i < bar.size / 4

theorem Board.InBar.isBar {B : Board N} {d : ℕ} {b : Ptr} {i : ℕ} (h : B.InBar d b i) :
    B.IsBar d b := by
  obtain ⟨bar, rfl, -⟩ := h
  cases bar with
  | system => exact .inl rfl
  | dma => exact .inr rfl

/-- The cells a mutex guards; the words of the bars if `words`. -/
def Board.Guards (words : Prop) : Mutex → Loc → Prop
  | .devMutex d, .word b i => words ∧ d < N ∧ B.InBar d b i
  | .controlMutex, .flag _ => True
  | _, _ => False

/-- Device mutexes are taken first. -/
def Mutex.level : Mutex → ℕ
  | devMutex _ => 0
  | controlMutex => 1

/-- The protection of the cells by the mutexes. -/
def Board.protection (words : Prop) : Protection Loc Mutex where
  Guards := B.Guards words
  level := Mutex.level
  unique {m m' l} h h' := by
    cases m with
    | devMutex d =>
      cases l with
      | word b i =>
        cases m' with
        | devMutex e => rw [h.2.2.isBar.unique h.2.1 h'.2.1 h'.2.2.isBar]
        | controlMutex => cases h'
      | _ => cases h
    | controlMutex =>
      cases l with
      | flag f =>
        cases m' with
        | devMutex e => cases h'
        | controlMutex => rfl
      | _ => cases h

/-- The cells a call on a device may change: none, the use counter, or the
    words of the bars. -/
inductive Effect where
  | none
  | counter
  | bars
  deriving DecidableEq

/-- What a call on device `d` with effect `eff` may do. -/
def Board.Scope (words : Prop) (d : ℕ) (eff : Effect) : KInstr → Prop
  | .lock m _ => m = .devMutex d ∨ m = .controlMutex
  | .unlock m => m = .devMutex d ∨ m = .controlMutex
  | .load (.word b i) => words → B.InBar d b i
  | .load (.flag _) => True
  | .load (.inUse n) => n = d
  | .store (.word b i) _ => B.InBar d b i ∧ eff = .bars
  | .store (.flag _) _ => False
  | .store (.inUse _) _ => False
  | .modify (.word _ _) _ => False
  | .modify (.flag _) _ => False
  | .modify (.inUse n) _ => n = d ∧ eff = .counter
  | .note _ => True

/-- A call on a device does not set the flags. -/
theorem Board.Scope.writes_flag {B : Board N} {words : Prop} {d : ℕ} {eff : Effect} {i : KInstr}
    (hi : B.Scope words d eff i) {f : Flag} (h : i.Writes (.flag f)) : False := by
  cases h with
  | store => exact hi
  | modify => exact hi

/-! ## The judgements -/

/-- The scope and the discipline, for single instructions. -/
def Board.callT (words : Prop) (d : ℕ) (eff : Effect) (i : KInstr)
    (Q : i.Resp → Held Mutex → Prop) (st : Held Mutex) : Prop :=
  B.Scope words d eff i ∧ lockT (B.protection words) i Q st

theorem Board.callT_mono (words : Prop) (d : ℕ) (eff : Effect) :
    Prog.Mono (B.callT words d eff) :=
  fun i Q Q' st h hT => ⟨hT.1, lockT_mono (B.protection words) i Q Q' st h hT.2⟩

/-- The part stays in the scope of `d`, keeps the discipline, and leaves the
    mutexes held as they are. -/
def Keeps (words : Prop) (d : ℕ) (eff : Effect) (st : Held Mutex) (x : KM α) : Prop :=
  ∀ ℓ, wp (B.callT words d eff) x (fun _ _ st' => st' = st) ℓ st

/-- Run by a process with memory `u`, the part stays in the scope of `d`, keeps
    the discipline, and returns with no mutex held. -/
def Ends (words : Prop) (d : ℕ) (eff : Effect) (st : Held Mutex) (x : KM α) (u : UserMem) : Prop :=
  ∀ ℓ, ℓ.user = u → wp (B.callT words d eff) x (fun _ _ st' => st'.stack = []) ℓ st

section
variable {B : Board N} {α β : Type} {words : Prop} {d : ℕ} {eff : Effect} {st : Held Mutex}
  {u : UserMem}

theorem keeps_pure (a : α) : Keeps B words d eff st (pure a) := fun _ => rfl

theorem Keeps.bind {x : KM α} {f : α → KM β} (hx : Keeps B words d eff st x)
    (hf : ∀ a, Keeps B words d eff st (f a)) : Keeps B words d eff st (x >>= f) := by
  intro ℓ
  rw [wp_bind]
  refine wp_consequence (B.callT_mono words d eff) ?_ (hx ℓ)
  rintro a ℓ' st' rfl
  exact hf a ℓ'

theorem Keeps.ite {c : Prop} [Decidable c] {x y : KM α} (hx : Keeps B words d eff st x)
    (hy : Keeps B words d eff st y) : Keeps B words d eff st (if c then x else y) := by
  split
  · exact hx
  · exact hy

theorem ends_pure (a : α) (h : st.stack = []) : Ends B words d eff st (pure a) u := fun _ _ => h

theorem Ends.bind {x : KM α} {f : α → KM β} (hx : Keeps B words d eff st x)
    (hf : ∀ a u, Ends B words d eff st (f a) u) : Ends B words d eff st (x >>= f) u := by
  intro ℓ _
  rw [wp_bind]
  refine wp_consequence (B.callT_mono words d eff) ?_ (hx ℓ)
  rintro a ℓ' st' rfl
  exact hf a _ ℓ' rfl

theorem Ends.ite {c : Prop} [Decidable c] {x y : KM α} (hx : c → Ends B words d eff st x u)
    (hy : ¬ c → Ends B words d eff st y u) : Ends B words d eff st (if c then x else y) u := by
  split
  · exact hx ‹_›
  · exact hy ‹_›

/-- What is copied from the memory of the process. -/
theorem Ends.fetch {a n : ℕ} {f : ℕ × (ℕ → Byte) → KM β}
    (hf : Ends B words d eff st (f (n - u.readLen a n, u.fetch a n)) u) :
    Ends B words d eff st (copyFromUser a n >>= f) u := by
  rintro ℓ rfl
  rw [wp_bind, wp_copyFromUser]
  exact hf ℓ rfl

theorem Ends.accessOk {a n : ℕ} {f : Bool → KM β} (hf : ∀ ok, Ends B words d eff st (f ok) u) :
    Ends B words d eff st (accessOk a n >>= f) u := by
  rintro ℓ rfl
  rw [wp_bind, wp_accessOk]
  exact hf _ ℓ rfl

/-! ### The kernel calls -/

theorem keeps_copyToUser (a : ℕ) (src : ℕ → Byte) (n : ℕ) :
    Keeps B words d eff st (copyToUser a src n) := fun _ => rfl

theorem keeps_copyFromUser (a n : ℕ) : Keeps B words d eff st (copyFromUser a n) := fun _ => rfl

theorem keeps_getPos : Keeps B words d eff st getPos := fun _ => rfl

theorem keeps_setPos (p : ℕ) : Keeps B words d eff st (setPos p) := fun _ => rfl

theorem keeps_setPrivateData (n : ℕ) : Keeps B words d eff st (setPrivateData n) := fun _ => rfl

theorem keeps_seqPrintf (fmt : String) (args : List U32) :
    Keeps B words d eff st (seqPrintf fmt args) := fun _ => rfl

theorem not_guards_inUse (m : Mutex) (n : ℕ) : ¬ B.Guards words m (.inUse n) := by
  cases m <;> exact id

theorem keeps_atomicInc : Keeps B words d .counter st (atomicInc d) :=
  fun _ => ⟨⟨rfl, rfl⟩, And.intro (fun m hm => absurd hm (not_guards_inUse m d)) fun _ => rfl⟩

theorem keeps_atomicDec : Keeps B words d .counter st (atomicDec d) :=
  fun _ => ⟨⟨rfl, rfl⟩, And.intro (fun m hm => absurd hm (not_guards_inUse m d)) fun _ => rfl⟩

theorem keeps_atomicRead : Keeps B words d eff st (atomicRead d) :=
  fun _ => ⟨rfl, And.intro (fun m hm => absurd hm (not_guards_inUse m d)) fun _ => rfl⟩

/-- A word of a bar is accessed under the mutex of its device. -/
theorem mem_of_guards {b : Ptr} {i : ℕ} (hd : d < N) (hb : words → B.InBar d b i)
    (hm : .devMutex d ∈ st.stack) (m : Mutex) (h : B.Guards words m (.word b i)) :
    m ∈ st.stack := by
  cases m with
  | devMutex e => rwa [← (hb h.1).isBar.unique hd h.2.1 h.2.2.isBar]
  | controlMutex => cases h

theorem keeps_loadWord {b : Ptr} {i : ℕ} (hd : d < N) (hb : words → B.InBar d b i)
    (hm : .devMutex d ∈ st.stack) : Keeps B words d eff st (loadWord b i) :=
  fun _ => ⟨hb, mem_of_guards hd hb hm, fun _ => rfl⟩

theorem keeps_storeWord {b : Ptr} {i : ℕ} (v : U32) (hd : d < N) (hb : B.InBar d b i)
    (hm : .devMutex d ∈ st.stack) : Keeps B words d .bars st (storeWord b i v) :=
  fun _ => ⟨⟨hb, rfl⟩, mem_of_guards hd (fun _ => hb) hm, rfl⟩

/-! ### The mutexes -/

/-- The mutexes held leave the control mutex to be taken. -/
def OnlyDevices (st : Held Mutex) : Prop := ∀ m ∈ st.stack, ∃ d, m = .devMutex d

/-- The control mutex is taken to read a flag: `y` is what an interrupted
    attempt does, `k` what follows the release. -/
theorem wp_flag {f : Flag} {y : KM β} {k : Bool → KM β} {Q : β → Local → Held Mutex → Prop}
    {ℓ : Local} (hst : OnlyDevices st)
    (hy : wp (B.callT words d eff) y Q { ℓ with signals := ℓ.signals.tail } st)
    (hk : ∀ v, wp (B.callT words d eff) (k v) Q { ℓ with signals := ℓ.signals.tail } st) :
    wp (B.callT words d eff) (do
      if ← mutexLockInterruptible .controlMutex then
        y
      else
        let v ← controlData f
        mutexUnlock .controlMutex
        k v) Q ℓ st := by
  have hnot : Mutex.controlMutex ∉ st.stack := fun h => by
    obtain ⟨e, he⟩ := hst _ h
    cases he
  have hlt : ∀ m ∈ st.stack, m.level < 1 := fun m h => by
    obtain ⟨e, rfl⟩ := hst m h
    exact Nat.zero_lt_one
  have hspent : (st.spent || Mutex.level .controlMutex == 0) = st.spent := by simp [Mutex.level]
  rw [wp_bind, wp_lock]
  refine ⟨Or.inr rfl, And.intro hnot (And.intro hlt (And.intro (fun h => nomatch h) ?_))⟩
  cases ℓ.signals.headD false with
  | true => exact hy
  | false =>
    refine ⟨trivial, And.intro (fun m hm => ?_) fun v => ?_⟩
    · cases m with
      | devMutex e => cases hm
      | controlMutex => exact List.mem_cons_self
    · refine ⟨Or.inr rfl, st.stack, rfl, ?_⟩
      change wp _ (k v) Q _ ⟨st.stack, st.spent || Mutex.level .controlMutex == 0⟩
      rw [hspent]
      exact hk v

theorem Keeps.flag {f : Flag} {y : KM β} {k : Bool → KM β} (hst : OnlyDevices st)
    (hy : Keeps B words d eff st y) (hk : ∀ v, Keeps B words d eff st (k v)) :
    Keeps B words d eff st (do
      if ← mutexLockInterruptible .controlMutex then
        y
      else
        let v ← controlData f
        mutexUnlock .controlMutex
        k v) :=
  fun _ => wp_flag hst (hy _) fun v => hk v _

theorem Ends.flag {f : Flag} {y : KM β} {k : Bool → KM β} (hst : OnlyDevices st)
    (hy : Ends B words d eff st y u) (hk : ∀ v, Ends B words d eff st (k v) u) :
    Ends B words d eff st (do
      if ← mutexLockInterruptible .controlMutex then
        y
      else
        let v ← controlData f
        mutexUnlock .controlMutex
        k v) u :=
  fun _ hu => wp_flag hst (hy _ hu) fun v => hk v _ hu

/-- Only the mutex of the device is held. -/
def heldDev (d : ℕ) : Held Mutex := ⟨[.devMutex d], true⟩

theorem onlyDevices_none : OnlyDevices Held.none := fun _ hm => nomatch hm

theorem onlyDevices_dev : OnlyDevices (heldDev d) := fun m hm => ⟨d, by simpa [heldDev] using hm⟩

theorem mem_heldDev : .devMutex d ∈ (heldDev d).stack := List.mem_cons_self

/-- The mutex of the device is taken for the rest of the call. -/
theorem Ends.device {y x : KM β} (hy : Ends B words d eff Held.none y u)
    (hx : Ends B words d eff (heldDev d) x u) : Ends B words d eff Held.none (do
      if ← mutexLockInterruptible (.devMutex d) then
        y
      else
        x) u := by
  intro ℓ hu
  rw [wp_bind, wp_lock]
  refine ⟨Or.inl rfl, And.intro (fun h => nomatch h)
    (And.intro (fun m h => nomatch h) (And.intro (fun _ => rfl) ?_))⟩
  cases ℓ.signals.headD false with
  | true => exact hy _ hu
  | false => exact hx _ hu

/-- The way out: the mutex of the device is released, and a value returned. -/
theorem ends_exit (a : β) : Ends B words d eff (heldDev d) (do
    mutexUnlock (.devMutex d)
    return a) u :=
  fun _ _ => ⟨Or.inl rfl, [], rfl, rfl⟩

/-- A part that either way returns at once. -/
theorem ends_exits (c : Prop) [Decidable c] (a a' : β) : Ends B words d eff (heldDev d)
    (if c then do
      mutexUnlock (.devMutex d)
      return a
    else do
      mutexUnlock (.devMutex d)
      return a') u :=
  Ends.ite (fun _ => ends_exit a) fun _ => ends_exit a'

end

/-! ## The functions -/

/-- The word of a request through the struct interface. -/
theorem word_lt {bar : Bar} {offset : ℕ} (h : ¬ (offset % 4 ≠ 0 ∨ offset ≥ bar.size)) :
    offset / 4 < bar.size / 4 := by
  have hsize : bar.size % 4 = 0 := by cases bar <;> rfl
  omega

section
variable {B : Board N} {words : Prop} {d : ℕ} {eff : Effect} {u : UserMem} (hd : d < N)
include hd

theorem keeps_copyWords {cell : ℕ → Ptr × ℕ} (k dst w n : ℕ)
    (hcell : words → ∀ i, w ≤ i → i < w + k → B.InBar d (cell i).1 (cell i).2) :
    Keeps B words d eff (heldDev d) (copyWords cell k dst w n) := by
  induction k generalizing dst w n with
  | zero => exact keeps_pure _
  | succ k ih =>
    refine (keeps_loadWord hd (fun hw => hcell hw w le_rfl (by omega)) mem_heldDev).bind
      fun v => ?_
    have hleft : Keeps B words d eff (heldDev d) (rawCopyToUser dst (byteOf v) (min n 4)) :=
      fun _ => rfl
    refine hleft.bind fun left => (keeps_pure _).ite (ih _ _ _ fun hw i hi hk => ?_)
    exact hcell hw i (by omega) (by omega)

/-- A copy that ends in its bar reads only words of the bar. -/
theorem keeps_copyToUserFrom (bar : Bar) (dst w n : ℕ) (hn : words → 4 * w + n ≤ bar.size) :
    Keeps B words d eff (heldDev d)
      (copyToUserFrom B dst (bar.base (B.dummyPrivateData d)) bar.size w n) := by
  have hsize : bar.size % 4 = 0 := by cases bar <;> rfl
  have hnote : Keeps B words d eff (heldDev d)
      (fun ℓ => .op (.note (.copyToUser (bar.base (B.dummyPrivateData d)) w n))
        fun _ => .ret ((), ℓ) : KM Unit) := fun _ => ⟨trivial, rfl⟩
  have hok : Keeps B words d eff (heldDev d) (accessOk dst n) := fun _ => rfl
  refine hnote.bind fun _ => hok.bind fun ok => (keeps_pure _).ite ?_
  refine keeps_copyWords hd _ _ _ _ fun hw i _ hi => ?_
  have hlt : i < bar.size / 4 := by
    have := hn hw
    omega
  rw [Board.locate_of_lt hlt]
  exact ⟨bar, rfl, hlt⟩

theorem keeps_sampleLoop (k sample : ℕ) (hk : sample + k ≤ dmaSize / 4) :
    Keeps B words d .bars (heldDev d) (sampleLoop (B.dummyPrivateData d).dmaBar k sample) := by
  induction k generalizing sample with
  | zero => exact keeps_pure _
  | succ k ih =>
    have hlt : sample < Bar.dma.size / 4 := Nat.lt_of_lt_of_le (by omega) hk
    exact (keeps_storeWord _ hd ⟨.dma, rfl, hlt⟩ mem_heldDev).bind fun _ => ih _ (by omega)

omit hd in
theorem inBar_reg {addr : U32} (h : addr.toNat < nRegisters * 4) :
    B.InBar d (B.dummyPrivateData d).systemBar (addr.toNat / 4) :=
  ⟨.system, rfl, Nat.div_lt_div_of_lt_of_dvd (by decide) h⟩

theorem keeps_getReg {addr : U32} (h : addr.toNat < nRegisters * 4) :
    Keeps B words d eff (heldDev d) (getReg (B.dummyPrivateData d).systemBar addr) :=
  keeps_loadWord hd (fun _ => inBar_reg h) mem_heldDev

theorem keeps_setReg {addr : U32} (v : U32) (h : addr.toNat < nRegisters * 4) :
    Keeps B words d .bars (heldDev d) (setReg (B.dummyPrivateData d).systemBar addr v) :=
  keeps_storeWord _ hd (inBar_reg h) mem_heldDev

/-- The firmware finds the bars of the device by its slot number. -/
theorem keeps_actionOnWriteSwitch (spiFail : Bool) (offset : U32) :
    Keeps B words d .bars (heldDev d)
      (actionOnWriteSwitch B spiFail offset (B.dummyPrivateData d).slotNr) := by
  simp only [actionOnWriteSwitch, B.slotNr_eq d hd]
  repeat' first
    | exact keeps_pure _
    | exact keeps_getReg hd (by decide)
    | exact keeps_setReg hd _ (by decide)
    | exact keeps_sampleLoop hd _ _ (by decide)
    | refine Keeps.ite ?_ ?_
    | refine Keeps.bind ?_ fun _ => ?_

theorem keeps_performActionOnWrite (offset barNumber : U32) :
    Keeps B words d .bars (heldDev d)
      (mtcadummyPerformActionOnWrite B offset barNumber (B.dummyPrivateData d).slotNr) := by
  unfold mtcadummyPerformActionOnWrite
  refine Keeps.ite (keeps_pure _) ?_
  exact Keeps.flag onlyDevices_dev (keeps_pure _) fun v => keeps_actionOnWriteSwitch hd v offset

theorem ends_readLocked {buf count : ℕ}
    (hdma : words → ∀ r, r = DeviceRw.ofBytes (u.fetch buf sizeofDeviceRw) → r.modeRw = rwDma →
      SumPasses r.offsetRw r.sizeRw → r.offsetRw.toNat + r.sizeRw.toNat < 2 ^ 32) :
    Ends B words d eff (heldDev d) (mtcaDummyReadLocked B d buf count) u := by
  unfold mtcaDummyReadLocked
  refine Ends.ite (fun _ => ends_exit _) fun _ => Ends.fetch ?_
  refine Ends.ite (fun _ => ends_exit _) fun _ => Ends.ite (fun _ => ?_) fun _ =>
    Ends.ite (fun _ => ?_) fun _ => Ends.ite (fun _ => ends_exit _) fun _ =>
      Ends.ite (fun hmode => ?_) fun _ => ends_exit _
  · -- `RW_INFO`
    exact Ends.bind (keeps_copyToUser _ _ _) fun left _ => ends_exits _ _ _
  · -- `RW_D32`
    split
    · exact ends_exit _
    · rename_i barBaseAddress barSize hbar
      obtain ⟨bar, -, rfl, rfl⟩ := structBar_eq_some hbar
      refine Ends.ite (fun _ => ends_exit _) fun hoff => Ends.ite (fun _ => ends_exit _) fun _ => ?_
      refine Ends.bind (keeps_loadWord hd (fun _ => ⟨bar, rfl, word_lt hoff⟩) mem_heldDev)
        fun v _ => ?_
      exact Ends.bind (keeps_copyToUser _ _ _) fun left _ => ends_exits _ _ _
  · -- `RW_DMA`
    refine Ends.ite (fun _ => ends_exit _) fun _ => Ends.ite (fun _ => ends_exit _) fun hsum => ?_
    have hpass : SumPasses (DeviceRw.ofBytes (u.fetch buf sizeofDeviceRw)).offsetRw
        (DeviceRw.ofBytes (u.fetch buf sizeofDeviceRw)).sizeRw := by
      rwa [SumPasses, BitVec.add_comm]
    refine Ends.bind (keeps_copyToUserFrom hd .dma _ _ _ fun hw => ?_) fun left _ =>
      ends_exits _ _ _
    exact (range_inside_iff hpass).2 (hdma hw _ rfl hmode hpass)

theorem ends_writeLocked (buf count : ℕ) :
    Ends B words d .bars (heldDev d) (mtcaDummyWriteLocked B d buf count) u := by
  unfold mtcaDummyWriteLocked
  refine Ends.ite (fun _ => ends_exit _) fun _ => Ends.fetch ?_
  refine Ends.ite (fun _ => ends_exit _) fun _ => Ends.ite (fun _ => ?_) fun _ => ends_exit _
  split
  · exact ends_exit _
  · rename_i barBaseAddress barSize hbar
    obtain ⟨bar, -, rfl, rfl⟩ := structBar_eq_some hbar
    refine Ends.ite (fun _ => ends_exit _) fun hoff => ?_
    refine Ends.bind (keeps_storeWord _ hd ⟨bar, rfl, word_lt hoff⟩ mem_heldDev) fun _ _ => ?_
    exact Ends.bind (keeps_performActionOnWrite hd _ _) fun r _ => ends_exits _ _ _

theorem ends_ioctlLocked {c : IoctlConstants} {cmd : U32} {arg : ℕ}
    (hdma : words → ∀ r, r = DeviceIoctrlDma.ofBytes (u.fetch arg sizeofDeviceIoctrlDma) →
      c.readDma = some cmd → SumPasses r.dmaOffset r.dmaSize →
        r.dmaOffset.toNat + r.dmaSize.toNat < 2 ^ 32) :
    Ends B words d eff (heldDev d) (dummyIoctlLocked B c d cmd arg) u := by
  have hreply : ∀ left : ℕ, ∀ u, Ends B words d eff (heldDev d) (do
      mutexUnlock (.devMutex d)
      return if left ≠ 0 then -EFAULT else (0 : ℤ)) u := fun _ _ => ends_exit _
  unfold dummyIoctlLocked
  refine Ends.ite (fun _ => ?_) fun _ => Ends.ite (fun _ => ?_) fun _ =>
    Ends.ite (fun hcmd => ?_) fun _ => ends_exit _
  · refine Ends.fetch (Ends.ite (fun _ => ends_exit _) fun _ => ?_)
    exact Ends.bind (keeps_copyToUser _ _ _) fun left _ => ends_exit _
  · refine Ends.fetch (Ends.ite (fun _ => ends_exit _) fun _ => ?_)
    exact Ends.bind (keeps_copyToUser _ _ _) fun left _ => ends_exit _
  · refine Ends.fetch (Ends.ite (fun _ => ends_exit _) fun _ =>
      Ends.ite (fun _ => ends_exit _) fun hsum => Ends.ite (fun _ => ends_exit _) fun _ => ?_)
    refine Ends.bind (keeps_copyToUserFrom hd .dma _ _ _ fun hw => ?_) fun left _ => ends_exit _
    exact (range_inside_iff hsum).2 (hdma hw _ rfl hcmd.symm hsum)

theorem ends_readNoStructLoop {t : TransferInformation} {bar : Bar} {buf : ℕ}
    (hbase : t.barStart = bar.base (B.dummyPrivateData d)) (hsize : t.barSizeInBytes = bar.size)
    (hmod : t.offset % 4 = 0) {k i : ℕ} (hk : t.offset + 4 * (i + k) ≤ bar.size) :
    Ends B words d eff (heldDev d) (readNoStructLoop B d t buf k i) u := by
  induction k generalizing i u with
  | zero => exact ends_exit _
  | succ k ih =>
    rw [readNoStructLoop, hbase, hsize]
    refine Ends.ite (fun _ => ends_exit _) fun _ => ?_
    refine Ends.bind (keeps_copyToUserFrom hd _ _ _ _ fun _ => by omega) fun left _ => ?_
    refine Ends.ite (fun _ => ends_exit _) fun _ => ?_
    exact Ends.bind keeps_getPos fun p _ => Ends.bind (keeps_setPos _) fun _ _ => ih (by omega)

theorem ends_writeNoStructLoop {t : TransferInformation} {bar : Bar} {buf : ℕ}
    (hbase : t.barStart = bar.base (B.dummyPrivateData d)) (hmod : t.offset % 4 = 0) {k i : ℕ}
    (hk : t.offset + 4 * (i + k) ≤ bar.size) :
    Ends B words d .bars (heldDev d) (writeNoStructLoop B d t buf k i) u := by
  induction k generalizing i u with
  | zero => exact ends_exit _
  | succ k ih =>
    have hlt : t.offset / 4 + i < bar.size / 4 := by omega
    rw [writeNoStructLoop, hbase]
    refine Ends.bind (keeps_copyFromUser _ _) fun r _ => ?_
    refine Ends.bind (keeps_storeWord _ hd ⟨bar, rfl, hlt⟩ mem_heldDev) fun _ _ => ?_
    refine Ends.ite (fun _ => ends_exit _) fun _ => ?_
    refine Ends.bind (keeps_performActionOnWrite hd _ _) fun r _ => ?_
    refine Ends.ite (fun _ => ends_exit _) fun _ => ?_
    exact Ends.bind keeps_getPos fun p _ => Ends.bind (keeps_setPos _) fun _ _ => ih (by omega)

theorem keeps_showSystemBar (k reg : ℕ) (hk : reg + k ≤ nRegisters) :
    Keeps B words d eff (heldDev d) (showSystemBar (B.dummyPrivateData d).systemBar k reg) := by
  induction k generalizing reg with
  | zero => exact keeps_pure _
  | succ k ih =>
    have hlt : reg < Bar.system.size / 4 := show reg < nRegisters * 4 / 4 by omega
    refine (keeps_loadWord hd (fun _ => ⟨.system, rfl, hlt⟩) mem_heldDev).bind fun v => ?_
    refine (keeps_loadWord hd (fun _ => ⟨.system, rfl, hlt⟩) mem_heldDev).bind fun v' => ?_
    exact (keeps_seqPrintf _ _).bind fun _ => ih _ (by omega)

theorem keeps_showDmaBar (k index : ℕ) (hk : index + 4 * k ≤ dmaSize / 4) :
    Keeps B words d eff (heldDev d) (showDmaBar (B.dummyPrivateData d).dmaBar k index) := by
  induction k generalizing index with
  | zero => exact keeps_pure _
  | succ k ih =>
    have hload : ∀ j < 4, Keeps B words d eff (heldDev d)
        (loadWord (B.dummyPrivateData d).dmaBar (index + j)) := fun j hj =>
      keeps_loadWord hd (fun _ => ⟨.dma, rfl, show index + j < dmaSize / 4 by omega⟩) mem_heldDev
    refine (hload 0 (by decide)).bind fun v₀ => (hload 1 (by decide)).bind fun v₁ => ?_
    refine (hload 2 (by decide)).bind fun v₂ => (hload 3 (by decide)).bind fun v₃ => ?_
    exact (keeps_seqPrintf _ _).bind fun _ => ih _ (by omega)

theorem ends_seqShow : Ends B words d eff Held.none (mtcadummySeqShow B d) u := by
  refine Ends.bind keeps_atomicRead fun n _ => Ends.ite (fun _ => ?_) fun _ => ?_
  · exact Ends.bind (keeps_seqPrintf _ _) fun _ _ => ends_pure _ rfl
  refine Ends.device (ends_pure _ rfl) ?_
  refine Ends.bind (keeps_seqPrintf _ _) fun _ _ => Ends.bind (keeps_seqPrintf _ _) fun _ _ => ?_
  refine Ends.bind (keeps_showSystemBar hd _ _ (by decide)) fun _ _ => ?_
  refine Ends.bind (keeps_seqPrintf _ _) fun _ _ => Ends.bind (keeps_seqPrintf _ _) fun _ _ => ?_
  refine Ends.bind (keeps_showDmaBar hd _ _ (by decide)) fun _ _ => ?_
  exact Ends.bind (keeps_seqPrintf _ _) fun _ _ => ends_exit _

theorem ends_read {buf count : ℕ}
    (hdma : words → ∀ r, r = DeviceRw.ofBytes (u.fetch buf sizeofDeviceRw) → r.modeRw = rwDma →
      SumPasses r.offsetRw r.sizeRw → r.offsetRw.toNat + r.sizeRw.toNat < 2 ^ 32) :
    Ends B words d eff Held.none (mtcaDummyRead B d buf count) u :=
  Ends.flag onlyDevices_none (ends_pure _ rfl) fun _ => Ends.ite (fun _ => ends_pure _ rfl)
    fun _ => Ends.device (ends_pure _ rfl) (ends_readLocked hd hdma)

theorem ends_write (buf count : ℕ) :
    Ends B words d .bars Held.none (mtcaDummyWrite B d buf count) u :=
  Ends.flag onlyDevices_none (ends_pure _ rfl) fun _ => Ends.ite (fun _ => ends_pure _ rfl)
    fun _ => Ends.device (ends_pure _ rfl) (ends_writeLocked hd _ _)

omit hd in
/-- What both transfers through the other interface share. -/
theorem ends_transfer {f : Flag} {count : ℕ} {x : TransferInformation → KM ℤ}
    (hcount : count < 2 ^ 32)
    (hx : ∀ t (bar : Bar), t.barStart = bar.base (B.dummyPrivateData d) →
      t.barSizeInBytes = bar.size → t.offset % 4 = 0 →
      t.offset + 4 * (0 + t.nBytesToTransfer / 4) ≤ bar.size →
      ∀ u, Ends B words d eff (heldDev d) (x t) u) :
    Ends B words d eff Held.none (do
      if ← mutexLockInterruptible .controlMutex then
        return -ERESTARTSYS
      else
        let fail ← controlData f
        mutexUnlock .controlMutex
        if fail then
          return -EFAULT
        else
          match checkAndCalculateTransferInformation (B.dummyPrivateData d) count (← getPos) with
          | .error transferInfoError => return transferInfoError
          | .ok t =>
            if ← mutexLockInterruptible (.devMutex d) then
              return -ERESTARTSYS
            x t) u := by
  refine Ends.flag onlyDevices_none (ends_pure _ rfl) fun v => Ends.ite (fun _ => ends_pure _ rfl)
    fun _ => Ends.bind keeps_getPos fun pos _ => ?_
  cases hcheck : checkAndCalculateTransferInformation (B.dummyPrivateData d) count pos with
  | error transferInfoError => exact ends_pure _ rfl
  | ok t =>
    have ht := check_ok hcheck
    obtain ⟨bar, -, hbase, hsize⟩ := ht.exists_bar
    refine Ends.device (ends_pure _ rfl) (hx t bar hbase hsize ht.offset_mod ?_ _)
    have := ht.nBytes_le hcount
    omega

theorem ends_readNoStruct {buf count : ℕ} (hcount : count < 2 ^ 32) :
    Ends B words d eff Held.none (mtcaDummyReadNoStruct B d buf count) u :=
  ends_transfer hcount fun _ _ hbase hsize hmod hk _ =>
    ends_readNoStructLoop hd hbase hsize hmod hk

theorem ends_writeNoStruct {buf count : ℕ} (hcount : count < 2 ^ 32) :
    Ends B words d .bars Held.none (mtcaDummyWriteNoStruct B d buf count) u :=
  ends_transfer hcount fun _ _ hbase _ hmod hk _ => ends_writeNoStructLoop hd hbase hmod hk

theorem ends_ioctl {c : IoctlConstants} {cmd : U32} {arg : ℕ}
    (hdma : words → ∀ r, r = DeviceIoctrlDma.ofBytes (u.fetch arg sizeofDeviceIoctrlDma) →
      c.readDma = some cmd → SumPasses r.dmaOffset r.dmaSize →
        r.dmaOffset.toNat + r.dmaSize.toNat < 2 ^ 32) :
    Ends B words d eff Held.none (dummyIoctl B c d cmd arg) u := by
  refine Ends.ite (fun _ => ends_pure _ rfl) fun _ => Ends.ite (fun _ => ends_pure _ rfl)
    fun _ => ?_
  refine Ends.accessOk fun ok => Ends.ite (fun _ => ends_pure _ rfl) fun _ => ?_
  exact Ends.device (ends_pure _ rfl) (ends_ioctlLocked hd hdma)

omit hd in
theorem ends_open : Ends B words d .counter Held.none (mtcaDummyOpen d) u := by
  refine Ends.flag onlyDevices_none (ends_pure _ rfl) fun _ => Ends.ite (fun _ => ends_pure _ rfl)
    fun _ => ?_
  refine Ends.bind (keeps_setPrivateData _) fun _ _ => ?_
  exact Ends.bind keeps_atomicInc fun _ _ => ends_pure _ rfl

omit hd in
theorem ends_release : Ends B words d .counter Held.none (mtcaDummyRelease d) u :=
  Ends.bind keeps_atomicDec fun _ _ => ends_pure _ rfl

end

/-! ## The entry points -/

section
variable {B : Board N}

/-- What the entry point changes on its device. -/
def Entry.effect : Entry N → Effect
  | opn _ | release _ => .counter
  | write _ _ _ | writeNoStruct _ _ _ => .bars
  | _ => .none

/-- **An entry point called on a device ends with no mutex held.** -/
theorem Entry.ends {words : Prop} {e : Entry N} {d : Fin N} (h : e.device = some d) {ℓ : Local}
    (hin : words → e.InRange ℓ) : Ends B words d e.effect Held.none (e.body B) ℓ.user := by
  have hclamp : ∀ count, min count maxRwCount < 2 ^ 32 := fun count =>
    (Nat.min_le_right _ _).trans_lt (by decide)
  cases e with
  | procWrite ubuf count => cases h
  | opn e => cases h; exact ends_open
  | release e => cases h; exact ends_release
  | read e buf count =>
    cases h
    refine ends_read d.isLt fun hw r hr hmode => hin hw _ _ ?_
    rw [Entry.dmaRequest, ← hr, if_pos hmode]
  | write e buf count => cases h; exact ends_write d.isLt _ _
  | readNoStruct e buf count => cases h; exact ends_readNoStruct d.isLt (hclamp _)
  | writeNoStruct e buf count => cases h; exact ends_writeNoStruct d.isLt (hclamp _)
  | ioctl e cmd arg =>
    cases h
    refine ends_ioctl d.isLt fun hw r hr hcmd => hin hw _ _ ?_
    rw [Entry.dmaRequest, ← hr, if_pos (Option.some.inj hcmd).symm]
  | llrfIoctl e cmd arg =>
    cases h
    rw [Entry.body, llrfDummyIoctl_eq]
    exact ends_ioctl d.isLt fun hw r hr hcmd => by cases hcmd
  | pcieuniIoctl e cmd arg =>
    cases h
    refine ends_ioctl d.isLt fun hw r hr hcmd => hin hw _ _ ?_
    rw [Entry.dmaRequest, ← hr, if_pos (Option.some.inj hcmd).symm]
  | seqShow e => cases h; exact ends_seqShow d.isLt

/-- A flag is set or read under the control mutex. -/
theorem wp_setOrRead {words : Prop} {f : Flag} {value : ℤ} {Q : Unit → Local → Held Mutex → Prop}
    {ℓ : Local} {st : Held Mutex} (hc : .controlMutex ∈ st.stack) (hQ : Q () ℓ st) :
    wp (lockT (B.protection words)) (setOrRead f value) Q ℓ st := by
  have hguard : ∀ m, B.Guards words m (.flag f) → m ∈ st.stack := fun m hm => by
    cases m with
    | devMutex e => cases hm
    | controlMutex => exact hc
  unfold setOrRead
  split
  · exact And.intro hguard hQ
  · exact And.intro hguard fun _ => hQ

theorem procWrite_ends (words : Prop) (ubuf count : ℕ) (ℓ : Local) :
    wp (lockT (B.protection words)) (mtcadummyProcWrite ubuf count) (fun _ _ st => st.stack = [])
      ℓ Held.none := by
  unfold mtcadummyProcWrite
  rw [wp_bind, wp_copyFromUser, wp_ite]
  refine ⟨fun _ => rfl, fun _ => ?_⟩
  rw [wp_bind, wp_lock]
  refine And.intro (fun h => nomatch h) (And.intro (fun m h => nomatch h)
    (And.intro (fun h => nomatch h) ?_))
  cases ℓ.signals.headD false with
  | true => rfl
  | false =>
    have hc : Mutex.controlMutex ∈ [Mutex.controlMutex] := List.mem_cons_self
    simp only [Bool.false_eq_true, if_false]
    iterate 4
      rw [wp_bind]
      refine wp_setOrRead hc ?_
    exact ⟨[], rfl, rfl⟩

/-- **Every entry point keeps the lock discipline**, for every input and every
    outcome of its lock attempts and user copies. -/
theorem Entry.disciplined {words : Prop} {e : Entry N} {ℓ : Local} (hin : words → e.InRange ℓ) :
    Disciplined (B.protection words) (e.body B ℓ) := by
  cases hd : e.device with
  | some d =>
    exact Prog.wp_weaken (fun i Q st h => h.2) (B.callT_mono words d e.effect)
      (Entry.ends hd hin ℓ rfl)
  | none =>
    cases e with
    | procWrite ubuf count => exact procWrite_ends words ubuf _ ℓ
    | _ => cases hd

/-- As far as locks and flags go, whatever its range. -/
theorem Entry.disciplined_any (e : Entry N) (ℓ : Local) :
    Disciplined (B.protection False) (e.body B ℓ) :=
  Entry.disciplined False.elim

/-- An entry point stays in the scope of its device. -/
theorem Entry.scope {words : Prop} {e : Entry N} {d : Fin N} (h : e.device = some d) {ℓ : Local}
    (hin : words → e.InRange ℓ) : (e.body B ℓ).All (B.Scope words d e.effect) := by
  exact Prog.all_of_wp (fun i Q st hT => ⟨hT.1, lockT_resp hT.2⟩) (Entry.ends h hin ℓ rfl)

/-- A call in range also accesses no words but those of its device. -/
theorem Entry.scope_inRange {e : Entry N} {d : Fin N} (h : e.device = some d) {ℓ : Local}
    (hin : e.InRange ℓ) : (e.body B ℓ).All (B.Scope True d e.effect) :=
  Entry.scope h fun _ => hin

/-- What it takes, sets and stores has nothing to do with its range. -/
theorem Entry.scope_any {e : Entry N} {d : Fin N} (h : e.device = some d) (ℓ : Local) :
    (e.body B ℓ).All (B.Scope False d e.effect) :=
  Entry.scope h False.elim

/-- A call on another device, or one that changes no bars, writes no word of
    the bars of device `d`. -/
theorem Entry.writes_no_bar {e : Entry N} {d : ℕ} (hd : d < N) {d' : Fin N}
    (hd' : e.device = some d') (hne : d ≠ d' ∨ e.effect ≠ .bars) (ℓ : Local) :
    (e.body B ℓ).All fun i => ∀ l, i.Writes l → ¬ ∃ b j, l = .word b j ∧ B.IsBar d b := by
  refine (Entry.scope_any hd' ℓ).mono fun i hi l hl => ?_
  rintro ⟨b, j, rfl, hb⟩
  cases hl with
  | store =>
    have hb' : B.IsBar d' b := hi.1.isBar
    rcases hne with hne | hne
    · exact hne (hb.unique hd d'.isLt hb')
    · exact hne hi.2
  | modify => exact hi

/-- A write of the proc file accesses only the flags. -/
theorem every_procWrite (ubuf count : ℕ) :
    Every (fun i => ∀ l, i.Touches l → ∃ f, l = .flag f) (mtcadummyProcWrite ubuf count) := by
  have hset : ∀ f value, Every (fun i => ∀ l, i.Touches l → ∃ f, l = .flag f)
      (setOrRead f value) := by
    intro f value
    unfold setOrRead
    split
    · exact fun _ => ⟨fun l hl => ⟨f, (Instr.touches_store.1 hl).symm⟩, fun _ => trivial⟩
    · exact fun _ => ⟨fun l hl => ⟨f, (Instr.touches_load.1 hl).symm⟩, fun _ => trivial⟩
  unfold mtcadummyProcWrite
  refine Every.bind (fun _ => trivial) fun r => Every.ite (every_pure _) ?_
  dsimp only
  refine Every.bind (fun _ => ⟨fun l hl => (nomatch hl), fun _ => trivial⟩) fun intr => ?_
  refine Every.ite (every_pure _) ?_
  iterate 4 refine Every.bind (hset _ _) fun _ => ?_
  exact Every.bind (fun _ => ⟨fun l hl => (nomatch hl), fun _ => trivial⟩) fun _ => every_pure _

end

/-! ## The cells of a device -/

/-- The words of the bars of device `d`, its use counter, and the flags. -/
def Board.Cell (d : ℕ) : Loc → Prop
  | .word p i => ∃ bar : Bar, p = bar.base (B.dummyPrivateData d) ∧ i < bar.size / 4
  | .flag _ => True
  | .inUse n => n = d

/-- The instruction accesses only cells of device `d`. -/
def Board.Within (d : ℕ) (i : KInstr) : Prop := ∀ l, i.Touches l → B.Cell d l

/-- **The calls on a device access only its cells**, if the range of a read by
    DMA does not wrap. -/
theorem Entry.cells {B : Board N} {e : Entry N} {d : Fin N} (hd : e.device = some d) {ℓ : Local}
    (hin : e.InRange ℓ) : (e.body B ℓ).All (B.Within d) := by
  refine (Entry.scope_inRange hd hin).mono fun i hi l hl => ?_
  cases hl with
  | @load l =>
    cases l with
    | word b i => exact hi trivial
    | flag f => trivial
    | inUse n => exact hi
  | @store l v =>
    cases l with
    | word b i => exact hi.1
    | flag f => trivial
    | inUse n => exact hi.elim
  | @modify l f =>
    cases l with
    | word b i => exact hi.elim
    | flag f => trivial
    | inUse n => exact hi.1

end MtcaDummy

/-
  The calls of all entry points are linearisable.

  Opens, releases, transfers, ioctls, dumps and writes of the proc file may run
  at once on any devices, their lock attempts may be interrupted and their
  copies may fault.  `calls_linearise`: if they are in range, then as far as
  the words of the bars are concerned, they happen one after the other; the
  flags and the use counters, which may change in the middle of a call, a call
  finds as they are at successive moments while it is in progress.

  `calls_act_at_once`: a call that looks at no flag twice, that is any but a
  write without struct, replies what it replies alone in a store with the words
  that the calls before it leave.
-/
import MtcaDummy.Conc.Linear
import MtcaDummy.Driver.Calls

namespace MtcaDummy

open Conc

variable {N : ℕ}

/-- The cell is a flag or a use counter. -/
def Loc.IsStatus : Loc → Prop
  | .word _ _ => False
  | _ => True

instance : DecidablePred Loc.IsStatus
  | .word _ _ => instDecidableFalse
  | .flag _ | .inUse _ => instDecidableTrue

/-! ## Parts that access only words -/

/-- The part accesses neither flags nor use counters. -/
def WordsOnly {α : Type} (x : KM α) : Prop := Every (fun i => ¬ i.Meets Loc.IsStatus) x

section
variable {B : Board N}

theorem words_lock (m : Mutex) : WordsOnly (mutexLockInterruptible m) :=
  fun _ => ⟨id, fun _ => trivial⟩

theorem words_unlock (m : Mutex) : WordsOnly (mutexUnlock m) := fun _ => ⟨id, fun _ => trivial⟩

theorem words_load (b : Ptr) (i : ℕ) : WordsOnly (loadWord b i) := fun _ => ⟨id, fun _ => trivial⟩

theorem words_store (b : Ptr) (i : ℕ) (v : U32) : WordsOnly (storeWord b i v) :=
  fun _ => ⟨id, fun _ => trivial⟩

theorem words_exit {α : Type} (m : Mutex) (a : α) : WordsOnly (do
    mutexUnlock m
    return a) :=
  (words_unlock m).bind fun _ => every_pure a

theorem words_copyToUserFrom (dst : ℕ) (b : Ptr) (size w n : ℕ) :
    WordsOnly (copyToUserFrom B dst b size w n) := by
  have hcopy : ∀ k dst w n, WordsOnly (copyWords (B.locate b size) k dst w n) := by
    intro k
    induction k with
    | zero => exact fun _ _ _ => every_pure _
    | succ k ih =>
      intro dst w n
      refine (words_load _ _).bind fun v => Every.bind (fun _ => trivial) fun left => ?_
      exact (every_pure _).ite (ih _ _ _)
  refine Every.bind (fun _ => ⟨id, fun _ => trivial⟩) fun _ => ?_
  exact Every.bind (fun _ => trivial) fun ok => (every_pure _).ite (hcopy _ _ _ _)

theorem words_readLocked (d buf count : ℕ) : WordsOnly (mtcaDummyReadLocked B d buf count) := by
  unfold mtcaDummyReadLocked
  refine (words_exit _ _).ite (Every.bind (fun _ => trivial) fun r => (words_exit _ _).ite ?_)
  refine Every.ite ?_ (Every.ite ?_ (Every.ite (words_exit _ _) (Every.ite ?_ (words_exit _ _))))
  · exact Every.bind (fun _ => trivial) fun left => (words_exit _ _).ite (words_exit _ _)
  · split
    · exact words_exit _ _
    · refine (words_exit _ _).ite ((words_exit _ _).ite ((words_load _ _).bind fun v => ?_))
      exact Every.bind (fun _ => trivial) fun left => (words_exit _ _).ite (words_exit _ _)
  · refine (words_exit _ _).ite ((words_exit _ _).ite ?_)
    exact (words_copyToUserFrom _ _ _ _ _).bind fun left => (words_exit _ _).ite (words_exit _ _)

theorem words_readNoStructLoop (d : ℕ) (t : TransferInformation) (buf k i : ℕ) :
    WordsOnly (readNoStructLoop B d t buf k i) := by
  induction k generalizing i with
  | zero => exact words_exit _ _
  | succ k ih =>
    refine (words_exit _ _).ite ((words_copyToUserFrom _ _ _ _ _).bind fun left => ?_)
    refine (words_exit _ _).ite (Every.bind (fun _ => trivial) fun pos => ?_)
    exact Every.bind (fun _ => trivial) fun _ => ih (i + 1)

theorem words_ioctl (c : IoctlConstants) (d : ℕ) (cmd : U32) (arg : ℕ) :
    WordsOnly (dummyIoctl B c d cmd arg) := by
  unfold dummyIoctl dummyIoctlLocked
  refine (every_pure _).ite ((every_pure _).ite (Every.bind (fun _ => trivial) fun ok => ?_))
  refine (every_pure _).ite ((words_lock _).bind fun intr => (every_pure _).ite ?_)
  refine Every.ite ?_ (Every.ite ?_ (Every.ite ?_ (words_exit _ _)))
  · refine Every.bind (fun _ => trivial) fun r => (words_exit _ _).ite ?_
    exact Every.bind (fun _ => trivial) fun left => words_exit _ _
  · refine Every.bind (fun _ => trivial) fun r => (words_exit _ _).ite ?_
    exact Every.bind (fun _ => trivial) fun left => words_exit _ _
  · refine Every.bind (fun _ => trivial) fun r => (words_exit _ _).ite ((words_exit _ _).ite ?_)
    refine (words_exit _ _).ite ((words_copyToUserFrom _ _ _ _ _).bind fun left => ?_)
    exact words_exit _ _

theorem words_showSystemBar (systemBar : Ptr) (k reg : ℕ) :
    WordsOnly (showSystemBar systemBar k reg) := by
  induction k generalizing reg with
  | zero => exact every_pure _
  | succ k ih =>
    refine (words_load _ _).bind fun v => (words_load _ _).bind fun v' => ?_
    exact Every.bind (fun _ => trivial) fun _ => ih _

theorem words_showDmaBar (dmaBar : Ptr) (k index : ℕ) : WordsOnly (showDmaBar dmaBar k index) := by
  induction k generalizing index with
  | zero => exact every_pure _
  | succ k ih =>
    refine (words_load _ _).bind fun v₀ => (words_load _ _).bind fun v₁ => ?_
    refine (words_load _ _).bind fun v₂ => (words_load _ _).bind fun v₃ => ?_
    exact Every.bind (fun _ => trivial) fun _ => ih _

theorem words_sampleLoop (dmaBar : Ptr) (k sample : ℕ) :
    WordsOnly (sampleLoop dmaBar k sample) := by
  induction k generalizing sample with
  | zero => exact every_pure _
  | succ k ih => exact (words_store _ _ _).bind fun _ => ih _

theorem words_actionOnWriteSwitch (spiFail : Bool) (offset slotNumber : U32) :
    WordsOnly (actionOnWriteSwitch B spiFail offset slotNumber) := by
  unfold actionOnWriteSwitch getReg setReg
  dsimp only
  repeat' first
    | exact every_pure _
    | exact words_load _ _
    | exact words_store _ _ _
    | exact words_sampleLoop _ _ _
    | refine Every.ite ?_ ?_
    | refine Every.bind ?_ fun _ => ?_

end

/-! ## Looking once -/

/-- The part accesses, of the flags and use counters, only those in `S`, and
    none of them twice. -/
def LooksOnce {α : Type} (S : Set Loc) (x : KM α) : Prop :=
  ∀ ℓ met, (∀ l ∈ met, l.IsStatus ∧ l ∉ S) → wp (onceT Loc.IsStatus) x
    (fun _ _ met' => ∀ l ∈ met', l.IsStatus ∧ (l ∈ met ∨ l ∈ S)) ℓ met

theorem onceT_mono : Prog.Mono (onceT (V := Loc.Val) (M := Mutex) (E := Note) Loc.IsStatus) :=
  fun _ _ _ _ h hT => ⟨hT.1, fun r => h r _ (hT.2 r)⟩

section
variable {α β : Type} {S S' : Set Loc} {B : Board N}

theorem WordsOnly.looksOnce {x : KM α} (hx : WordsOnly x) : LooksOnce S x := by
  intro ℓ met hmet
  have key : ∀ p : KProg (α × Local), (p.All fun i => ¬ i.Meets Loc.IsStatus) →
      p.wp (onceT Loc.IsStatus) (fun _ met' => ∀ l ∈ met', l.IsStatus ∧ (l ∈ met ∨ l ∈ S)) met := by
    intro p
    induction p with
    | ret a => exact fun _ l hl => ⟨(hmet l hl).1, .inl hl⟩
    | op i k ih =>
      intro hp
      have hno : ∀ l, i.Touches l → ¬ l.IsStatus := fun l hl hs =>
        hp.1 (Instr.meets_iff.2 ⟨l, hl, hs⟩)
      have hsame : {l | l ∈ met ∨ l.IsStatus ∧ i.Touches l} = met := Set.ext fun l =>
        ⟨fun h => h.elim id fun h => absurd h.1 (hno l h.2), .inl⟩
      refine ⟨fun l hl ht => hno l ht (hmet l hl).1, fun r => ?_⟩
      rw [hsame]
      exact ih r (hp.2 r)
  exact key _ (hx ℓ)

theorem LooksOnce.bind {x : KM α} {f : α → KM β} (hx : LooksOnce S x)
    (hf : ∀ a, LooksOnce S' (f a)) (hdisj : ∀ l ∈ S, l ∉ S') : LooksOnce (S ∪ S') (x >>= f) := by
  intro ℓ met hmet
  rw [wp_bind]
  have hx' := hx ℓ met fun l hl => ⟨(hmet l hl).1, fun hS => (hmet l hl).2 (.inl hS)⟩
  refine wp_consequence onceT_mono (fun a ℓ' met' hmet' => ?_) hx'
  have hf' := hf a ℓ' met' fun l hl => ⟨(hmet' l hl).1, fun hS =>
    (hmet' l hl).2.elim (fun h => (hmet l h).2 (.inr hS)) fun h => hdisj l h hS⟩
  refine wp_consequence onceT_mono (fun b ℓ'' met'' hmet'' l hl => ?_) hf'
  refine ⟨(hmet'' l hl).1, (hmet'' l hl).2.elim (fun h => ?_) fun h => .inr (.inr h)⟩
  exact (hmet' l h).2.imp id .inl

theorem LooksOnce.ite {c : Prop} [Decidable c] {x y : KM α} (hx : LooksOnce S x)
    (hy : LooksOnce S y) : LooksOnce S (if c then x else y) := by
  split
  · exact hx
  · exact hy

/-- A part that accesses only words may come first. -/
theorem LooksOnce.after {x : KM α} {f : α → KM β} (hx : WordsOnly x)
    (hf : ∀ a, LooksOnce S (f a)) : LooksOnce S (x >>= f) := by
  have h := (hx.looksOnce (S := ∅)).bind hf fun l hl => absurd hl (Set.notMem_empty l)
  rwa [Set.empty_union] at h

/-- ... or last. -/
theorem LooksOnce.before {x : KM α} {f : α → KM β} (hx : LooksOnce S x)
    (hf : ∀ a, WordsOnly (f a)) : LooksOnce S (x >>= f) := by
  have hnone : ∀ a, LooksOnce ∅ (f a) := fun a => (hf a).looksOnce
  have h := hx.bind hnone fun l _ => Set.notMem_empty l
  rwa [Set.union_empty] at h

/-- One access to a flag or a use counter. -/
theorem looksOnce_access {i : KInstr} {l : Loc} (hi : ∀ l', i.Touches l' ↔ l' = l)
    (f : i.Resp → Local → α × Local) :
    LooksOnce {l} ((fun ℓ => .op i fun r => .ret (f r ℓ)) : KM α) := by
  refine fun ℓ met hmet => ⟨fun l' hl' ht => (hmet l' hl').2 ((hi l').1 ht), fun r l' hl' => ?_⟩
  rcases hl' with hl' | ⟨hs, ht⟩
  · exact ⟨(hmet l' hl').1, .inl hl'⟩
  · exact ⟨hs, .inr ((hi l').1 ht)⟩

theorem looksOnce_controlData (f : Flag) : LooksOnce {.flag f} (controlData f) :=
  looksOnce_access (i := .load (.flag f)) (fun _ => Instr.touches_load.trans eq_comm)
    fun v ℓ => (v, ℓ)

theorem looksOnce_setOrRead (f : Flag) (value : ℤ) : LooksOnce {.flag f} (setOrRead f value) := by
  unfold setOrRead
  split
  · exact looksOnce_access (i := .store (.flag f) _) (fun _ => Instr.touches_store.trans eq_comm)
      fun _ ℓ => ((), ℓ)
  · exact looksOnce_access (i := .load (.flag f)) (fun _ => Instr.touches_load.trans eq_comm)
      fun _ ℓ => ((), ℓ)

theorem looksOnce_inUse {g : U32 → U32} (d : ℕ) :
    LooksOnce {.inUse d} (fun ℓ => .op (.modify (.inUse d) g) fun _ => .ret ((), ℓ) : KM Unit) :=
  looksOnce_access (i := .modify (.inUse d) g) (fun _ => Instr.touches_modify.trans eq_comm)
    fun _ ℓ => ((), ℓ)

/-- The control mutex is taken to read a flag. -/
theorem LooksOnce.flag {f : Flag} {y : KM α} {k : Bool → KM α} (hy : WordsOnly y)
    (hk : ∀ v, LooksOnce S (k v)) (hf : .flag f ∉ S) : LooksOnce ({.flag f} ∪ S) (do
      if ← mutexLockInterruptible .controlMutex then
        y
      else
        let v ← controlData f
        mutexUnlock .controlMutex
        k v) := by
  refine .after (words_lock _) fun intr => LooksOnce.ite hy.looksOnce ?_
  refine (looksOnce_controlData f).bind (fun v => .after (words_unlock _) fun _ => hk v) ?_
  rintro l rfl
  exact hf

theorem looksOnce_performActionOnWrite (offset barNumber slotNumber : U32) :
    LooksOnce {.flag .spiError}
      (mtcadummyPerformActionOnWrite B offset barNumber slotNumber) := by
  unfold mtcadummyPerformActionOnWrite
  refine LooksOnce.ite (WordsOnly.looksOnce (every_pure _)) ?_
  have h := LooksOnce.flag (S := ∅) (f := .spiError) (y := pure (-ERESTARTSYS)) (every_pure _)
    (fun v => (words_actionOnWriteSwitch (B := B) v offset slotNumber).looksOnce) (by simp)
  rwa [Set.union_empty] at h

theorem looksOnce_writeLocked (d buf count : ℕ) :
    LooksOnce {.flag .spiError} (mtcaDummyWriteLocked B d buf count) := by
  have hexit : ∀ v, LooksOnce {.flag .spiError} (do
      mutexUnlock (.devMutex d)
      return v : KM ℤ) := fun v => (words_exit _ v).looksOnce
  unfold mtcaDummyWriteLocked
  refine (hexit _).ite
    (.after (fun _ => trivial) fun r => (hexit _).ite (LooksOnce.ite ?_ (hexit _)))
  split
  · exact hexit _
  · refine (hexit _).ite (.after (words_store _ _ _) fun _ => ?_)
    exact (looksOnce_performActionOnWrite _ _ _).before fun r =>
      (words_exit _ _).ite (words_exit _ _)

theorem looksOnce_procWrite (ubuf count : ℕ) :
    ∃ S, LooksOnce S (mtcadummyProcWrite ubuf count) := by
  have hset : ∀ {S : Set Loc} f value {x : KM ℤ}, LooksOnce S x → .flag f ∉ S →
      LooksOnce ({.flag f} ∪ S) (setOrRead f value >>= fun _ => x) := fun f value x hx hf => by
    refine (looksOnce_setOrRead f value).bind (fun _ => hx) ?_
    rintro l rfl
    exact hf
  refine ⟨{.flag .openError} ∪ ({.flag .readError} ∪ ({.flag .writeError} ∪
    ({.flag .spiError} ∪ ∅))), .after (fun _ => trivial) fun r => ?_⟩
  refine LooksOnce.ite (WordsOnly.looksOnce (every_pure _)) (.after (words_lock _) fun intr => ?_)
  refine LooksOnce.ite (WordsOnly.looksOnce (every_pure _)) ?_
  refine hset _ _ (hset _ _ (hset _ _ (hset _ _ (words_exit _ _).looksOnce ?_) ?_) ?_) ?_
  all_goals simp

/-- The call is a write without struct. -/
def Entry.IsWriteNoStruct : Entry N → Prop
  | .writeNoStruct _ _ _ => True
  | _ => False

/-- **Any entry point but the write without struct** looks at no flag twice. -/
theorem Entry.looksOnce {e : Entry N} (he : ¬ e.IsWriteNoStruct) :
    ∃ S, LooksOnce S (e.body B) := by
  have hread : ∀ {d : ℕ} {f : Flag} {a b : ℤ} {x : KM ℤ} {S : Set Loc}, LooksOnce S x →
      .flag f ∉ S → LooksOnce ({.flag f} ∪ S) (do
        if ← mutexLockInterruptible .controlMutex then
          return a
        let v ← controlData f
        mutexUnlock .controlMutex
        if v then
          return b
        x) := fun hx hf =>
    LooksOnce.flag (every_pure _)
      (fun _ => LooksOnce.ite (WordsOnly.looksOnce (every_pure _)) hx) hf
  have hlock : ∀ {d : ℕ} {a : ℤ} {x : KM ℤ} {S : Set Loc}, LooksOnce S x → LooksOnce S (do
        if ← mutexLockInterruptible (.devMutex d) then
          return a
        x) := fun hx =>
    .after (words_lock _) fun _ => LooksOnce.ite (WordsOnly.looksOnce (every_pure _)) hx
  cases e with
  | opn d =>
    refine ⟨_, hread (d := d) (S := {.inUse d}) (.after (fun _ => trivial) fun _ => ?_) (by simp)⟩
    exact (looksOnce_inUse (d : ℕ)).before fun _ => every_pure _
  | release d => exact ⟨_, (looksOnce_inUse (d : ℕ)).before fun _ => every_pure _⟩
  | read d buf count =>
    exact ⟨_, hread (d := d) (hlock (words_readLocked _ _ _).looksOnce) (Set.notMem_empty _)⟩
  | write d buf count =>
    exact ⟨_, hread (d := d) (hlock (looksOnce_writeLocked _ _ _)) (by simp)⟩
  | readNoStruct d buf count =>
    refine ⟨_, hread (d := d) (S := ∅) (.after (fun _ => trivial) fun pos => ?_)
      (Set.notMem_empty _)⟩
    split
    · exact WordsOnly.looksOnce (every_pure _)
    · exact hlock (words_readNoStructLoop _ _ _ _ _).looksOnce
  | writeNoStruct d buf count => exact absurd trivial he
  | ioctl d cmd arg => exact ⟨∅, (words_ioctl _ _ _ _).looksOnce⟩
  | llrfIoctl d cmd arg =>
    rw [Entry.body, llrfDummyIoctl_eq]
    exact ⟨∅, (words_ioctl _ _ _ _).looksOnce⟩
  | pcieuniIoctl d cmd arg => exact ⟨∅, (words_ioctl _ _ _ _).looksOnce⟩
  | seqShow d =>
    have hlook : LooksOnce {.inUse (d : ℕ)} (atomicRead d) :=
      looksOnce_access (i := .load (.inUse (d : ℕ)))
        (fun _ => Instr.touches_load.trans eq_comm) fun v ℓ => (v, ℓ)
    refine ⟨_, hlook.before fun n => ?_⟩
    refine Every.ite (Every.bind (fun _ => trivial) fun _ => every_pure _) ?_
    refine (words_lock _).bind fun intr => (every_pure _).ite ?_
    refine Every.bind (fun _ => trivial) fun _ => Every.bind (fun _ => trivial) fun _ => ?_
    refine (words_showSystemBar _ _ _).bind fun _ => ?_
    refine Every.bind (fun _ => trivial) fun _ => Every.bind (fun _ => trivial) fun _ => ?_
    refine (words_showDmaBar _ _ _).bind fun _ => ?_
    exact Every.bind (fun _ => trivial) fun _ => words_exit _ _
  | procWrite ubuf count => exact looksOnce_procWrite _ _

end

/-! ## Linearisability -/

/-- An entry point writes words of the bars, flags and use counters. -/
theorem Entry.writes {B : Board N} (e : Entry N) (ℓ : Local) :
    (e.body B ℓ).All fun i => ∀ l, i.Writes l → (B.protection True).Resource l ∨ l.IsStatus := by
  have hword : ∀ {i : KInstr}, (∀ b j, i.Writes (.word b j) → ∃ d < N, B.InBar d b j) →
      ∀ l, i.Writes l → (B.protection True).Resource l ∨ l.IsStatus := fun h l hl => by
    cases l with
    | word b j =>
      obtain ⟨d, hd, hb⟩ := h b j hl
      exact .inl ⟨.devMutex d, ⟨trivial, hd, hb⟩, rfl⟩
    | _ => exact .inr trivial
  cases hd : e.device with
  | some d =>
    refine (Entry.scope_any hd ℓ).mono fun i hi => hword fun b j hw => ⟨d, d.isLt, ?_⟩
    cases hw with
    | store => exact hi.1
    | modify => exact hi.elim
  | none =>
    cases e with
    | procWrite ubuf count =>
      refine (every_procWrite ubuf (min count maxRwCount) ℓ).mono fun i hi => hword fun b j hw => ?_
      obtain ⟨f, hf⟩ := hi _ hw.touches
      cases hf
    | _ => cases hd

theorem not_resource_of_isStatus {B : Board N} {l : Loc} (hl : l.IsStatus) :
    ¬ (B.protection True).Resource l := by
  rintro ⟨m, hg, h0⟩
  cases m with
  | devMutex d =>
    cases l with
    | word b i => exact hl
    | _ => exact hg
  | controlMutex => cases h0

section
variable {B : Board N} {ι : Type} [DecidableEq ι] {e : ι → Entry N} {ℓ : ι → Local} {s : Store}
  {h : List (Event ι)} {cfg : Config ι Loc.Val Mutex Note (ℤ × Local)}

/-- The calls, told what they find in the flags and the use counters. -/
def Board.toldCalls (B : Board N) (e : ι → Entry N) (ℓ : ι → Local) (seen : ι → ℕ → Store)
    (t : ι) : KProg (ℤ × Local) :=
  (B.calls e ℓ t).told Loc.IsStatus (seen t) 0

/-- **The calls of all entry points are linearisable**, if they are in range.
    In every run there is an order of calls, among them all that replied, that
    keeps the order of calls that did not overlap.  The replies are those of
    executing the calls one after the other in this order, each told the flags
    and use counters it finds at successive moments while it is in progress; and
    so are the bars of every device whose mutex is free. -/
theorem calls_linearise (hin : ∀ t, (e t).InRange (ℓ t)) (hr : Run (B.calls e ℓ) s h cfg) :
    ∃ (seen : ι → ℕ → Store) (order : List ι),
      (∀ t, cfg.thread t ≠ .idle → Moments (B.calls e ℓ) s h t (seen t)) ∧
      order.Nodup ∧ (∀ t ∈ order, cfg.thread t ≠ .idle) ∧
      (∀ t u, Precedes h t u → u ∈ order → [t, u].Sublist order) ∧
      (∀ t a, cfg.thread t = .done a → t ∈ order ∧
        (serial (B.toldCalls e ℓ seen) order s).1 t = some a) ∧
      ∀ d < N, cfg.owner (.devMutex d) = none →
        ∀ b i, B.InBar d b i →
          cfg.store (.word b i) = (serial (B.toldCalls e ℓ seen) order s).2 (.word b i) := by
  obtain ⟨seen, order, hseen, hn, hmem, htime, hdone, hfree⟩ :=
    hr.linearises (P := B.protection True) (K := Loc.IsStatus)
      (fun t => Entry.disciplined fun _ => hin t) (fun t => (e t).writes (ℓ t))
      fun l => not_resource_of_isStatus
  exact ⟨seen, order, hseen, hn, hmem, htime, hdone,
    fun d hd ho b i hb => hfree (.devMutex d) (.word b i) rfl ⟨trivial, hd, hb⟩ ho⟩

/-- The read is called while the write is in its section, and waits. -/
theorem calls_linearise_beside : ∃ h cfg seen, ∃ order : List Bool,
    Run (sparseBoard.calls readBesideWrite besideLocal) (readyStore (fun _ _ => 0#32) nrDevs) h
      cfg ∧
    order.Nodup ∧ (∀ t, t ∈ order) ∧
    (cfg.thread true).result.map (answerWords 2) = some (0, [17#32, 34#32]) ∧
    ((serial (sparseBoard.toldCalls readBesideWrite besideLocal seen) order
      (readyStore (fun _ _ => 0#32) nrDevs)).1 true).map (answerWords 2) =
        some (0, [17#32, 34#32]) := by
  obtain ⟨h, hr⟩ := sparseRun_run readBesideWrite besideLocal besideSchedule
  obtain ⟨seen, order, -, hn, -, -, hdone, -⟩ := calls_linearise readBesideWrite_inRange hr
  refine ⟨h, _, seen, order, hr, hn, fun t => ?_, besideRun_read, ?_⟩
  · obtain ⟨a, ha⟩ := besideRun_done t
    exact (hdone t a ha).1
  · obtain ⟨a, ha⟩ := besideRun_done true
    have hsome := besideRun_read
    rw [ha] at hsome
    rw [(hdone true a ha).2]
    exact hsome

/-- **A call acts at one point of its time**, if all are in range.  Whatever
    runs beside it, a call other than a write without struct replies, and leaves
    the words, as it does alone in one store: its words are those that the calls
    before it leave, its flags and use counters those of moments while the call
    is in progress. -/
theorem calls_act_at_once (hin : ∀ t, (e t).InRange (ℓ t)) (hr : Run (B.calls e ℓ) s h cfg) :
    ∃ (seen : ι → ℕ → Store) (order : List ι),
      (∀ t, cfg.thread t ≠ .idle → Moments (B.calls e ℓ) s h t (seen t)) ∧
      order.Nodup ∧ (∀ t u, Precedes h t u → u ∈ order → [t, u].Sublist order) ∧
      ∀ t r ℓ', cfg.thread t = .done (r, ℓ') → ¬ (e t).IsWriteNoStruct →
        ∃ before after x, order = before ++ t :: after ∧
          (∀ b i, x (.word b i) = (serial (B.toldCalls e ℓ seen) before s).2 (.word b i)) ∧
          (∀ l, l.IsStatus → ∃ j, x l = seen t j l) ∧
          (exec ((e t).body B) (ℓ t) x).val = r ∧ (exec ((e t).body B) (ℓ t) x).loc = ℓ' ∧
          ∀ b i, (exec ((e t).body B) (ℓ t) x).store (.word b i) =
            (serial (B.toldCalls e ℓ seen) (before ++ [t]) s).2 (.word b i) := by
  obtain ⟨seen, order, hseen, hn, -, htime, hdone, -⟩ :=
    hr.linearises (P := B.protection True) (K := Loc.IsStatus)
      (fun t => Entry.disciplined fun _ => hin t) (fun t => (e t).writes (ℓ t))
      fun l => not_resource_of_isStatus
  refine ⟨seen, order, hseen, hn, htime, fun t r ℓ' ht he => ?_⟩
  obtain ⟨hmem, hreply⟩ := hdone t _ ht
  obtain ⟨before, after, horder, hturn⟩ := serial_turn
    (c := B.toldCalls e ℓ seen) (s := s) hn hmem
  obtain ⟨S, honce⟩ := Entry.looksOnce (B := B) he
  obtain ⟨x, hxs, hxo, hx⟩ := Prog.told_once (o := seen t)
    (honce (ℓ t) ∅ fun l hl => absurd hl (Set.notMem_empty l)) 0
    (serial (B.toldCalls e ℓ seen) before s).2
  obtain ⟨hval, hstore⟩ := hx x fun _ _ => rfl
  have hsome : some (r, ℓ') = some ((B.toldCalls e ℓ seen t).exec
      (serial (B.toldCalls e ℓ seen) before s).2).1 := hreply.symm.trans hturn
  have hreply' : (((e t).body B (ℓ t)).exec x).1 = (r, ℓ') :=
    hval.trans (Option.some.inj hsome).symm
  refine ⟨before, after, x, horder, fun b i => hxs (.word b i) id, hxo,
    congrArg Prod.fst hreply', congrArg Prod.snd hreply', fun b i => ?_⟩
  rw [serial_snoc]
  exact hstore (.word b i) id

/-- The read, in the store that the write leaves. -/
theorem calls_act_at_once_beside : ∃ h cfg x,
    Run (sparseBoard.calls readBesideWrite besideLocal) (readyStore (fun _ _ => 0#32) nrDevs) h
      cfg ∧
    (cfg.thread true).result.map (answerWords 2) = some (0, [17#32, 34#32]) ∧
    (exec ((readBesideWrite true).body sparseBoard) (besideLocal true) x).val = 0 ∧
    answerWords 2 (0, (exec ((readBesideWrite true).body sparseBoard) (besideLocal true) x).loc) =
      (0, [17#32, 34#32]) := by
  obtain ⟨h, hr⟩ := sparseRun_run readBesideWrite besideLocal besideSchedule
  obtain ⟨seen, order, -, -, -, hcalls⟩ := calls_act_at_once readBesideWrite_inRange hr
  obtain ⟨⟨r, ℓ'⟩, ha⟩ := besideRun_done true
  have hread : answerWords 2 (r, ℓ') = (0, [17#32, 34#32]) := by
    have hsome := besideRun_read
    rw [ha] at hsome
    exact Option.some.inj hsome
  obtain ⟨before, after, x, -, -, -, hval, hloc, -⟩ := hcalls true r ℓ' ha id
  obtain rfl : r = 0 := congrArg Prod.fst hread
  refine ⟨h, _, x, hr, besideRun_read, hval, ?_⟩
  rw [hloc]
  exact hread

end

end MtcaDummy

/-
  Concurrent calls: every interleaving of the instructions of any number of
  programs.

  The calls are given by `c : ι → Prog V M E α`; each is invoked at most once,
  at any time, and then executes instruction by instruction.  A call that
  waits for a mutex another call holds cannot step, unless the attempt is
  interrupted.  `Run c s h cfg` says that the configuration `cfg` is reached
  from the store `s`, where `h` lists the invocations, the steps and the
  replies in the order they happened.
-/
import MtcaDummy.Conc.Prog

namespace Conc

variable {Loc : Type} {V : Loc → Type} {M E : Type} {α : Type} {ι : Type}

/-- Where a call is. -/
inductive Thread (V : Loc → Type) (M E α : Type) where
  | idle
  | running (p : Prog V M E α)
  | done (a : α)

/-- The cells, the owners of the mutexes, and where each call is. -/
structure Config (ι : Type) (V : Loc → Type) (M E α : Type) where
  store : ∀ l, V l
  owner : M → Option ι
  thread : ι → Thread V M E α

/-- The events of a run. -/
inductive Event (ι : Type) where
  | invoke (t : ι)
  | step (t : ι)
  | reply (t : ι)

/-- The configuration before any call is invoked. -/
def Config.start (s : ∀ l, V l) : Config ι V M E α := ⟨s, fun _ => none, fun _ => .idle⟩

namespace Instr

/-- Only an uninterrupted attempt to take a mutex has to wait. -/
def Enabled (owner : M → Option ι) : Instr V M E → Prop
  | lock m false => owner m = none
  | _ => True

variable [DecidableEq M]

/-- The owners after call `t` executes the instruction. -/
def take (t : ι) (owner : M → Option ι) : Instr V M E → M → Option ι
  | lock m false => Function.update owner m (some t)
  | unlock m => Function.update owner m none
  | _ => owner

end Instr

variable [DecidableEq Loc] [DecidableEq M] [DecidableEq ι]

/-- One step of the system. -/
inductive Step (c : ι → Prog V M E α) :
    Config ι V M E α → Event ι → Config ι V M E α → Prop
  | invoke {cfg : Config ι V M E α} {t : ι} : cfg.thread t = .idle →
      Step c cfg (.invoke t) { cfg with thread := Function.update cfg.thread t (.running (c t)) }
  | instr {cfg : Config ι V M E α} {t : ι} {i : Instr V M E} {k : i.Resp → Prog V M E α} :
      cfg.thread t = .running (.op i k) → i.Enabled cfg.owner →
      Step c cfg (.step t) ⟨(i.eff cfg.store).2, i.take t cfg.owner,
        Function.update cfg.thread t (.running (k (i.eff cfg.store).1))⟩
  | reply {cfg : Config ι V M E α} {t : ι} {a : α} : cfg.thread t = .running (.ret a) →
      Step c cfg (.reply t) { cfg with thread := Function.update cfg.thread t (.done a) }

/-- The runs from the store `s`, with their history. -/
inductive Run (c : ι → Prog V M E α) (s : ∀ l, V l) :
    List (Event ι) → Config ι V M E α → Prop
  | nil : Run c s [] (.start s)
  | snoc {h : List (Event ι)} {cfg cfg' : Config ι V M E α} {e : Event ι} :
      Run c s h cfg → Step c cfg e cfg' → Run c s (h ++ [e]) cfg'

/-- A property that holds at the start and that every step preserves holds of
    every reachable configuration. -/
theorem Run.invariant {c : ι → Prog V M E α} {s : ∀ l, V l}
    {I : List (Event ι) → Config ι V M E α → Prop} (h₀ : I [] (.start s))
    (hstep : ∀ h cfg e cfg', I h cfg → Step c cfg e cfg' → I (h ++ [e]) cfg')
    {h : List (Event ι)} {cfg : Config ι V M E α} (hr : Run c s h cfg) : I h cfg := by
  induction hr with
  | nil => exact h₀
  | snoc _ hs ih => exact hstep _ _ _ _ ih hs

/-- The reply of `t` precedes the invocation of `u`. -/
def Precedes (h : List (Event ι)) (t u : ι) : Prop :=
  ∃ h₁ h₂, h = h₁ ++ h₂ ∧ .reply t ∈ h₁ ∧ .invoke u ∈ h₂

end Conc

/-
  Programs over shared cells protected by mutexes.

  A program is a tree of instructions: it takes and releases mutexes, reads,
  writes and updates cells, and leaves notes in its trace.  The attempt to take
  a mutex may be interrupted; the program knows, so an interrupted attempt is
  an instruction of its own that takes nothing.

  * `Prog.exec p s` runs `p` alone from the store `s`, and `Prog.trace p s`
    lists the instructions it executes;
  * `Prog.All P p` says that every instruction of the tree satisfies `P`;
    `exec_agree` and `exec_frame` bound what a program reads and changes by
    the cells its instructions name;
  * `Prog.wp T p Q` walks the tree with a predicate transformer `T` for the
    single instructions, over an abstract state of the thread; `wp_sim` moves
    a judgement from one transformer to another.
-/
import Mathlib.Logic.Function.Basic
import Mathlib.Data.Set.Basic

namespace Conc

variable {Loc : Type} {V : Loc → Type} {M E : Type} {α β : Type} {σ σ' : Type}

/-- The instructions: cells `l : Loc` hold a `V l`, mutexes are `m : M`, and
    notes are `e : E`.  `lock m true` is an attempt that a signal interrupts. -/
inductive Instr (V : Loc → Type) (M E : Type) where
  | lock (m : M) (interrupted : Bool)
  | unlock (m : M)
  | load (l : Loc)
  | store (l : Loc) (v : V l)
  | modify (l : Loc) (f : V l → V l)
  | note (e : E)

namespace Instr

/-- What an instruction returns: a load the content, an atomic update the old
    content. -/
def Resp : Instr V M E → Type
  | load l => V l
  | modify l _ => V l
  | _ => Unit

/-- The instruction reads or writes the cell `l`. -/
inductive Touches : Instr V M E → Loc → Prop
  | load {l} : Touches (.load l) l
  | store {l v} : Touches (.store l v) l
  | modify {l f} : Touches (.modify l f) l

/-- The instruction may change the cell `l`. -/
inductive Writes : Instr V M E → Loc → Prop
  | store {l v} : Writes (.store l v) l
  | modify {l f} : Writes (.modify l f) l

theorem Writes.touches {i : Instr V M E} {l : Loc} (h : i.Writes l) : i.Touches l := by
  cases h with
  | store => exact .store
  | modify => exact .modify

@[simp] theorem touches_load {l l' : Loc} : (load l : Instr V M E).Touches l' ↔ l = l' :=
  ⟨fun h => by cases h; rfl, fun h => h ▸ .load⟩

@[simp] theorem touches_store {l l' : Loc} {v : V l} :
    (store l v : Instr V M E).Touches l' ↔ l = l' :=
  ⟨fun h => by cases h; rfl, fun h => h ▸ .store⟩

@[simp] theorem touches_modify {l l' : Loc} {f : V l → V l} :
    (modify l f : Instr V M E).Touches l' ↔ l = l' :=
  ⟨fun h => by cases h; rfl, fun h => h ▸ .modify⟩

@[simp] theorem not_touches_lock {m : M} {b : Bool} {l : Loc} :
    ¬ (lock m b : Instr V M E).Touches l := fun h => nomatch h

@[simp] theorem not_touches_unlock {m : M} {l : Loc} :
    ¬ (unlock m : Instr V M E).Touches l := fun h => nomatch h

@[simp] theorem not_touches_note {e : E} {l : Loc} :
    ¬ (note e : Instr V M E).Touches l := fun h => nomatch h

@[simp] theorem writes_store {l l' : Loc} {v : V l} :
    (store l v : Instr V M E).Writes l' ↔ l = l' :=
  ⟨fun h => by cases h; rfl, fun h => h ▸ .store⟩

@[simp] theorem writes_modify {l l' : Loc} {f : V l → V l} :
    (modify l f : Instr V M E).Writes l' ↔ l = l' :=
  ⟨fun h => by cases h; rfl, fun h => h ▸ .modify⟩

@[simp] theorem not_writes_load {l l' : Loc} : ¬ (load l : Instr V M E).Writes l' :=
  fun h => nomatch h

@[simp] theorem not_writes_lock {m : M} {b : Bool} {l : Loc} :
    ¬ (lock m b : Instr V M E).Writes l := fun h => nomatch h

@[simp] theorem not_writes_unlock {m : M} {l : Loc} :
    ¬ (unlock m : Instr V M E).Writes l := fun h => nomatch h

@[simp] theorem not_writes_note {e : E} {l : Loc} :
    ¬ (note e : Instr V M E).Writes l := fun h => nomatch h

section
variable [DecidableEq Loc]

/-- The response and the new store.  Mutexes are no part of the store. -/
def eff : (i : Instr V M E) → (∀ l, V l) → i.Resp × (∀ l, V l)
  | lock _ _, s => ((), s)
  | unlock _, s => ((), s)
  | load l, s => (s l, s)
  | store l v, s => ((), Function.update s l v)
  | modify l f, s => (s l, Function.update s l (f (s l)))
  | note _, s => ((), s)

/-- An instruction changes only the cells it writes. -/
theorem eff_frame {i : Instr V M E} {s : ∀ l, V l} {l : Loc} (h : ¬ i.Writes l) :
    (i.eff s).2 l = s l := by
  cases i with
  | store l' v =>
    have hne : l ≠ l' := fun he => h (writes_store.2 he.symm)
    exact Function.update_of_ne hne _ _
  | modify l' f =>
    have hne : l ≠ l' := fun he => h (writes_modify.2 he.symm)
    exact Function.update_of_ne hne _ _
  | _ => rfl

/-- On stores that agree on the cells an instruction touches, it responds
    alike. -/
theorem eff_agree {i : Instr V M E} {s s' : ∀ l, V l} (h : ∀ l, i.Touches l → s l = s' l) :
    (i.eff s).1 = (i.eff s').1 := by
  cases i with
  | load l => exact h l .load
  | modify l f => exact h l .modify
  | _ => rfl

/-- ... and keeps them equal where they are, and makes them equal where it
    writes. -/
theorem eff_agree_store {i : Instr V M E} {s s' : ∀ l, V l}
    (h : ∀ l, i.Touches l → s l = s' l) {l : Loc} (hl : s l = s' l) :
    (i.eff s).2 l = (i.eff s').2 l := by
  cases i with
  | store l' v =>
    by_cases he : l = l'
    · subst he; simp [eff]
    · simp [eff, Function.update_of_ne he, hl]
  | modify l' f =>
    by_cases he : l = l'
    · subst he; simp [eff, hl]
    · simp [eff, Function.update_of_ne he, hl]
  | _ => exact hl

end

end Instr

/-- A program: a result, or an instruction and what follows its response. -/
inductive Prog (V : Loc → Type) (M E α : Type) where
  | ret (a : α)
  | op (i : Instr V M E) (k : i.Resp → Prog V M E α)

namespace Prog

/-- Sequencing. -/
protected def bind : Prog V M E α → (α → Prog V M E β) → Prog V M E β
  | ret a, f => f a
  | op i k, f => op i fun r => (k r).bind f

instance : Monad (Prog V M E) where
  pure := ret
  bind := Prog.bind

@[simp] theorem pure_eq (a : α) : (pure a : Prog V M E α) = ret a := rfl

@[simp] theorem bind_ret (a : α) (f : α → Prog V M E β) : ret a >>= f = f a := rfl

@[simp] theorem bind_op (i : Instr V M E) (k : i.Resp → Prog V M E α)
    (f : α → Prog V M E β) : op i k >>= f = op i fun r => k r >>= f := rfl

/-! ## Running alone -/

section
variable [DecidableEq Loc]

/-- Run the program alone from a store. -/
def exec : Prog V M E α → (∀ l, V l) → α × (∀ l, V l)
  | ret a, s => (a, s)
  | op i k, s => (k (i.eff s).1).exec (i.eff s).2

/-- The instructions a solo run executes. -/
def trace : Prog V M E α → (∀ l, V l) → List (Instr V M E)
  | ret _, _ => []
  | op i k, s => i :: (k (i.eff s).1).trace (i.eff s).2

@[simp] theorem exec_ret (a : α) (s : ∀ l, V l) : (ret a : Prog V M E α).exec s = (a, s) := rfl

theorem exec_op (i : Instr V M E) (k : i.Resp → Prog V M E α) (s : ∀ l, V l) :
    (op i k).exec s = (k (i.eff s).1).exec (i.eff s).2 := rfl

theorem exec_bind (p : Prog V M E α) (f : α → Prog V M E β) (s : ∀ l, V l) :
    (p >>= f).exec s = (f (p.exec s).1).exec (p.exec s).2 := by
  induction p generalizing s with
  | ret a => rfl
  | op i k ih => exact ih _ _

theorem trace_bind (p : Prog V M E α) (f : α → Prog V M E β) (s : ∀ l, V l) :
    (p >>= f).trace s = p.trace s ++ (f (p.exec s).1).trace (p.exec s).2 := by
  induction p generalizing s with
  | ret a => rfl
  | op i k ih => simp only [bind_op, trace, exec, ih, List.cons_append]

end

/-! ## Properties of all instructions -/

/-- Every instruction of the tree satisfies `P`. -/
def All (P : Instr V M E → Prop) : Prog V M E α → Prop
  | ret _ => True
  | op i k => P i ∧ ∀ r, (k r).All P

@[simp] theorem all_ret (P : Instr V M E → Prop) (a : α) : (ret a : Prog V M E α).All P := trivial

@[simp] theorem all_op {P : Instr V M E → Prop} {i : Instr V M E}
    {k : i.Resp → Prog V M E α} : (op i k).All P ↔ P i ∧ ∀ r, (k r).All P := Iff.rfl

theorem All.bind {P : Instr V M E → Prop} {p : Prog V M E α} {f : α → Prog V M E β}
    (hp : p.All P) (hf : ∀ a, (f a).All P) : (p >>= f).All P := by
  induction p with
  | ret a => exact hf a
  | op i k ih => exact ⟨hp.1, fun r => ih r (hp.2 r)⟩

theorem All.mono {P P' : Instr V M E → Prop} {p : Prog V M E α} (h : ∀ i, P i → P' i)
    (hp : p.All P) : p.All P' := by
  induction p with
  | ret a => trivial
  | op i k ih => exact ⟨h i hp.1, fun r => ih r (hp.2 r)⟩

section
variable [DecidableEq Loc]

/-- The instructions a solo run executes are instructions of the tree. -/
theorem All.mem_trace {P : Instr V M E → Prop} {p : Prog V M E α} (hp : p.All P) {s : ∀ l, V l}
    {i : Instr V M E} (hi : i ∈ p.trace s) : P i := by
  induction p generalizing s with
  | ret a => cases hi
  | op j k ih =>
    rcases List.mem_cons.1 hi with rfl | hi
    · exact hp.1
    · exact ih _ (hp.2 _) hi

/-- A solo run changes only the cells its instructions write. -/
theorem exec_frame {l : Loc} {p : Prog V M E α} (hp : p.All fun i => ¬ i.Writes l)
    (s : ∀ l, V l) : (p.exec s).2 l = s l := by
  induction p generalizing s with
  | ret a => rfl
  | op i k ih =>
    rw [exec_op, ih _ (hp.2 _)]
    exact Instr.eff_frame hp.1

/-- A solo run depends only on the cells its instructions touch. -/
theorem exec_agree {K : Set Loc} {p : Prog V M E α}
    (hp : p.All fun i => ∀ l, i.Touches l → l ∈ K) {s s' : ∀ l, V l}
    (h : ∀ l ∈ K, s l = s' l) :
    (p.exec s).1 = (p.exec s').1 ∧ ∀ l ∈ K, (p.exec s).2 l = (p.exec s').2 l := by
  induction p generalizing s s' with
  | ret a => exact ⟨rfl, h⟩
  | op i k ih =>
    have ht : ∀ l, i.Touches l → s l = s' l := fun l hl => h l (hp.1 l hl)
    rw [exec_op, exec_op, ← Instr.eff_agree ht]
    exact ih _ (hp.2 _) fun l hl => Instr.eff_agree_store ht (h l hl)

end

/-! ## Walking the tree with a predicate transformer -/

/-- What must hold of the thread's abstract state before `p` for `Q` to hold
    after it, where `T` says so for the single instructions. -/
def wp (T : (i : Instr V M E) → (i.Resp → σ → Prop) → σ → Prop) :
    Prog V M E α → (α → σ → Prop) → σ → Prop
  | ret a, Q, st => Q a st
  | op i k, Q, st => T i (fun r => (k r).wp T Q) st

/-- The transformer is monotone. -/
def Mono (T : (i : Instr V M E) → (i.Resp → σ → Prop) → σ → Prop) : Prop :=
  ∀ i (Q Q' : i.Resp → σ → Prop) st, (∀ r st, Q r st → Q' r st) → T i Q st → T i Q' st

section
variable {T : (i : Instr V M E) → (i.Resp → σ → Prop) → σ → Prop}
  {T' : (i : Instr V M E) → (i.Resp → σ' → Prop) → σ' → Prop}

@[simp] theorem wp_ret (a : α) (Q : α → σ → Prop) (st : σ) :
    (ret a : Prog V M E α).wp T Q st = Q a st := rfl

@[simp] theorem wp_op (i : Instr V M E) (k : i.Resp → Prog V M E α) (Q : α → σ → Prop)
    (st : σ) : (op i k).wp T Q st = T i (fun r => (k r).wp T Q) st := rfl

theorem wp_bind (p : Prog V M E α) (f : α → Prog V M E β) (Q : β → σ → Prop) (st : σ) :
    (p >>= f).wp T Q st = p.wp T (fun a => (f a).wp T Q) st := by
  induction p generalizing st with
  | ret a => rfl
  | op i k ih => exact congrArg (fun Q => T i Q st) (funext fun r => funext fun st => ih r st)

theorem wp_mono (hT : Mono T) {p : Prog V M E α} {Q Q' : α → σ → Prop}
    (hQ : ∀ a st, Q a st → Q' a st) {st : σ} (h : p.wp T Q st) : p.wp T Q' st := by
  induction p generalizing st with
  | ret a => exact hQ a st h
  | op i k ih => exact hT i _ _ st (fun r st hr => ih r hr) h

/-- A weaker transformer judges weaker. -/
theorem wp_weaken {T' : (i : Instr V M E) → (i.Resp → σ → Prop) → σ → Prop}
    (h : ∀ i Q st, T i Q st → T' i Q st) (hT : Mono T) {p : Prog V M E α} {Q : α → σ → Prop}
    {st : σ} (hp : p.wp T Q st) : p.wp T' Q st := by
  induction p generalizing st with
  | ret a => exact hp
  | op i k ih => exact h i _ st (hT i _ _ st (fun r st hr => ih r hr) hp)

/-- What `T` demands of every single instruction holds of all of them. -/
theorem all_of_wp {P : Instr V M E → Prop}
    (hT : ∀ i (Q : i.Resp → σ → Prop) st, T i Q st → P i ∧ ∀ r, ∃ st', Q r st')
    {p : Prog V M E α} {Q : α → σ → Prop} {st : σ} (h : p.wp T Q st) : p.All P := by
  induction p generalizing st with
  | ret a => trivial
  | op i k ih =>
    obtain ⟨hi, hk⟩ := hT i _ st h
    exact ⟨hi, fun r => (hk r).elim fun st' hr => ih r hr⟩

/-- A judgement about `T` gives one about `T'` if every instruction satisfying
    `P` keeps the states related. -/
theorem wp_sim {R : σ → σ' → Prop} {P : Instr V M E → Prop}
    (hT : ∀ i, P i → ∀ (Q : i.Resp → σ → Prop) (Q' : i.Resp → σ' → Prop) st st', R st st' →
      (∀ r st st', R st st' → Q r st → Q' r st') → T i Q st → T' i Q' st')
    {p : Prog V M E α} (hp : p.All P) {Q : α → σ → Prop} {Q' : α → σ' → Prop}
    (hQ : ∀ a st st', R st st' → Q a st → Q' a st') {st : σ} {st' : σ'} (hR : R st st')
    (h : p.wp T Q st) : p.wp T' Q' st' := by
  induction p generalizing st st' with
  | ret a => exact hQ a st st' hR h
  | op i k ih =>
    exact hT i hp.1 _ _ st st' hR (fun r st st' hR h => ih r (hp.2 r) hR h) h

end

end Prog

end Conc

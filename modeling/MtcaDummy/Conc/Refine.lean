/-
  Machines that answer requests, and refinement between them.

  `step s i` is the answer to the request `i` in the state `s`, and the next
  state; `answers step s is` are the answers to a list of requests.
  `Refines step step' P inv skip abs`: as long as the requests satisfy `P`, an
  answer of `step` is that of `step'` on the abstracted state, or it is one in
  `skip` and changes nothing.  So without the requests answered by `skip`, the
  answers are those of `step'` (`Refines.answers`).
-/
import Mathlib.Data.List.Basic

namespace Conc

variable {S S' I O : Type}

/-- The requests with their answers, and the state they leave. -/
def answers (step : S → I → O × S) : S → List I → List (I × O) × S
  | s, [] => ([], s)
  | s, i :: is =>
    let r := answers step (step s i).2 is
    ((i, (step s i).1) :: r.1, r.2)

section
variable {step : S → I → O × S} {s : S}

@[simp] theorem answers_nil : answers step s [] = ([], s) := rfl

@[simp] theorem answers_cons (i : I) (is : List I) : answers step s (i :: is) =
    ((i, (step s i).1) :: (answers step (step s i).2 is).1,
      (answers step (step s i).2 is).2) := rfl

/-- What holds of every answer given under the invariant. -/
theorem answers_all {inv : S → Prop} {P : I → Prop} {Q : I → O → Prop}
    (hkeeps : ∀ s i, inv s → P i → inv (step s i).2)
    (hstep : ∀ s i, inv s → P i → Q i (step s i).1) {is : List I} (his : ∀ i ∈ is, P i)
    (hs : inv s) : ∀ x ∈ (answers step s is).1, Q x.1 x.2 := by
  induction is generalizing s with
  | nil =>
    intro x hx
    exact absurd hx List.not_mem_nil
  | cons i is ih =>
    intro x hx
    have hi := his i (List.mem_cons_self ..)
    rw [answers_cons] at hx
    rcases List.mem_cons.1 hx with rfl | hx
    · exact hstep s i hs hi
    · exact ih (fun j hj => his j (List.mem_cons_of_mem i hj)) (hkeeps s i hs hi) x hx

end

/-- The steps of the first machine are those of the second on the abstracted
    states, or are skipped, from states with the invariant and for requests
    that satisfy `P`. -/
structure Refines (step : S → I → O × S) (step' : S' → I → O × S') (P : I → Prop)
    (inv : S → Prop) (skip : O → Prop) (abs : S → S') : Prop where
  keeps : ∀ s i, inv s → P i → inv (step s i).2
  skips : ∀ s i, inv s → P i → skip (step s i).1 → abs (step s i).2 = abs s
  answer : ∀ s i, inv s → P i → ¬ skip (step s i).1 → (step s i).1 = (step' (abs s) i).1
  state : ∀ s i, inv s → P i → ¬ skip (step s i).1 → abs (step s i).2 = (step' (abs s) i).2

section
variable {step : S → I → O × S} {step' : S' → I → O × S'} {P : I → Prop} {inv : S → Prop}
  {skip : O → Prop} {abs : S → S'}

/-- The requests that are not skipped are answered as by the second machine,
    and the states correspond. -/
theorem Refines.answers [DecidablePred skip] (h : Refines step step' P inv skip abs) {is : List I}
    (his : ∀ i ∈ is, P i) {s : S} (hs : inv s) :
    let done := (answers step s is).1.filter fun x => ¬ skip x.2
    answers step' (abs s) (done.map Prod.fst) = (done, abs (answers step s is).2) := by
  induction is generalizing s with
  | nil => rfl
  | cons i is ih =>
    have hi := his i (List.mem_cons_self ..)
    have hrest := ih (fun j hj => his j (List.mem_cons_of_mem i hj)) (h.keeps s i hs hi)
    dsimp only at hrest ⊢
    rw [answers_cons, List.filter_cons]
    by_cases hskip : skip (step s i).1
    · rw [if_neg (by simpa using hskip)]
      rw [h.skips s i hs hi hskip] at hrest
      exact hrest
    · rw [if_pos (by simpa using hskip), List.map_cons, answers_cons, ← h.answer s i hs hi hskip,
        ← h.state s i hs hi hskip, hrest]

end

end Conc

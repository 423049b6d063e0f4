/-
  Lifetimes of resources that need others.

  A ledger is `Nested` if a resource is acquired only while all it needs are
  held, and is released only when none that needs it is.  Then whatever is held
  at some time has all it needs (`Nested.held`).

  `Lives needs log H`: the ledger is nested, and leaves `H` held; there is a
  rule for each action.
-/
import MtcaDummy.Conc.Ledger

namespace Conc.Ledger

variable {ρ : Type} {needs : ρ → Set ρ} {log : List (Act ρ)}

/-! ## What is held after one more action -/

theorem held_acquire (r x : ρ) : Held (log ++ [.acquire r]) x ↔ x = r ∨ Held log x := by
  rw [held_snoc]
  constructor
  · rintro (hact | ⟨hheld, -⟩)
    · exact .inl (Act.acquire.inj hact).symm
    · exact .inr hheld
  · rintro (rfl | hheld)
    · exact .inl rfl
    · exact .inr ⟨hheld, fun hact => by cases hact⟩

theorem held_release (r x : ρ) : Held (log ++ [.release r]) x ↔ Held log x ∧ x ≠ r := by
  rw [held_snoc]
  constructor
  · rintro (hact | ⟨hheld, hne⟩)
    · cases hact
    · exact ⟨hheld, fun heq => hne (congrArg Act.release heq.symm)⟩
  · rintro ⟨hheld, hne⟩
    exact .inr ⟨hheld, fun hact => hne (Act.release.inj hact).symm⟩

theorem held_neutral {act : Act ρ} (hacq : ∀ r, act ≠ .acquire r) (hrel : ∀ r, act ≠ .release r)
    (x : ρ) : Held (log ++ [act]) x ↔ Held log x := by
  rw [held_snoc, or_iff_right (hacq x), and_iff_left (hrel x)]

/-! ## Nested ledgers -/

/-- The action comes in time. -/
def Timely (needs : ρ → Set ρ) (log : List (Act ρ)) : Act ρ → Prop
  | .acquire r => ∀ x ∈ needs r, Held log x
  | .release x => ∀ r, x ∈ needs r → ¬ Held log r
  | .refuse _ | .use _ => True

/-- Every action comes in time. -/
def Nested (needs : ρ → Set ρ) (log : List (Act ρ)) : Prop :=
  ∀ a act b, log = a ++ act :: b → Timely needs a act

theorem nested_nil (needs : ρ → Set ρ) : Nested needs [] := by
  intro a act b h
  exact absurd (congrArg List.length h) (by simp)

theorem Nested.snoc {act : Act ρ} (h : Nested needs log) (hact : Timely needs log act) :
    Nested needs (log ++ [act]) := by
  intro a x b hlog
  rcases List.eq_nil_or_concat b with rfl | ⟨b, y, rfl⟩
  · obtain ⟨rfl, hx⟩ := List.append_inj' hlog rfl
    obtain rfl := (List.cons.inj hx).1
    exact hact
  · have hlog' : log ++ [act] = (a ++ x :: b) ++ [y] := by simpa using hlog
    exact h a x b (List.append_inj' hlog' rfl).1

theorem Nested.initial {a : List (Act ρ)} (h : Nested needs log) (ha : a <+: log) :
    Nested needs a := by
  obtain ⟨b, rfl⟩ := ha
  rintro c act d rfl
  exact h c act (d ++ b) (by simp)

/-- **What is held has what it needs.** -/
theorem Nested.held {r x : ρ} (h : Nested needs log) (hr : Held log r) (hx : x ∈ needs r) :
    Held log x := by
  induction log using List.reverseRecOn with
  | nil => exact absurd hr (held_nil r)
  | append_singleton log act ih =>
    have hlog := h.initial (List.prefix_append log [act])
    have hact : Timely needs log act := h log act [] rfl
    rw [held_snoc]
    rcases (held_snoc _ _ _).1 hr with rfl | ⟨hheld, -⟩
    · exact .inr ⟨hact x hx, fun he => by cases he⟩
    · refine .inr ⟨ih hlog hheld, ?_⟩
      rintro rfl
      exact hact r hx hheld

/-- The ledger is nested, and leaves `H` held. -/
structure Lives (needs : ρ → Set ρ) (log : List (Act ρ)) (H : Set ρ) : Prop where
  nested : Nested needs log
  held : ∀ r, Held log r ↔ r ∈ H

namespace Lives
variable {H H' : Set ρ} {r : ρ}

theorem nil (needs : ρ → Set ρ) : Lives needs [] ∅ :=
  ⟨nested_nil needs, fun r => iff_of_false (held_nil r) (Set.notMem_empty r)⟩

theorem congr (h : Lives needs log H) (hH : H = H') : Lives needs log H' := hH ▸ h

theorem acquire (h : Lives needs log H) (hr : needs r ⊆ H) :
    Lives needs (log ++ [.acquire r]) (insert r H) :=
  ⟨h.nested.snoc fun x hx => (h.held x).2 (hr hx), fun x => by
    rw [held_acquire, h.held, Set.mem_insert_iff]⟩

theorem release (h : Lives needs log H) (hr : ∀ x, r ∈ needs x → x ∉ H) :
    Lives needs (log ++ [.release r]) (H \ {r}) :=
  ⟨h.nested.snoc fun x hx hheld => hr x hx ((h.held x).1 hheld), fun x => by
    rw [held_release, h.held, Set.mem_sdiff, Set.mem_singleton_iff]⟩

/-- An action that neither acquires nor releases. -/
theorem neutral (h : Lives needs log H) {act : Act ρ} (hact : Timely needs log act)
    (hacq : ∀ r, act ≠ .acquire r) (hrel : ∀ r, act ≠ .release r) :
    Lives needs (log ++ [act]) H :=
  ⟨h.nested.snoc hact, fun x => (held_neutral hacq hrel x).trans (h.held x)⟩

theorem refuse (h : Lives needs log H) (r : ρ) : Lives needs (log ++ [.refuse r]) H :=
  h.neutral trivial (fun _ hact => by cases hact) fun _ hact => by cases hact

theorem use (h : Lives needs log H) (r : ρ) : Lives needs (log ++ [.use r]) H :=
  h.neutral trivial (fun _ hact => by cases hact) fun _ hact => by cases hact

end Lives

end Conc.Ledger

/-
  Ledgers of resources: what was acquired, used and released, in this order.

  A resource is held (`Held`) if it was acquired and not released since.  In a
  `Sound` ledger, what is acquired is not held, and what is used or released
  is.  The exception are resources that may be absent: the release of one that
  never was there does nothing.

  `Account log H F` says that the ledger is sound, that it leaves `H` held,
  and that it never acquired or released what is in `F`.  The rules
  `Account.acquire`, `Account.use`, `Account.release` and so on follow the
  actions of a program one by one.
-/
import Mathlib.Data.List.Induction
import Mathlib.Data.Set.Insert

namespace Conc.Ledger

variable {ρ : Type}

/-- What is done with a resource; `refuse` is an attempt to acquire it that
    failed. -/
inductive Act (ρ : Type) where
  | acquire (r : ρ)
  | refuse (r : ρ)
  | use (r : ρ)
  | release (r : ρ)
  deriving DecidableEq

/-- The resource was acquired, and not released since. -/
def Held (log : List (Act ρ)) (r : ρ) : Prop :=
  ∃ a b, log = a ++ .acquire r :: b ∧ .release r ∉ b

/-- The resource was neither acquired nor released. -/
def Untouched (log : List (Act ρ)) (r : ρ) : Prop := .acquire r ∉ log ∧ .release r ∉ log

/-- The action is in order after the ledger. -/
def Allowed (absent : Set ρ) (log : List (Act ρ)) : Act ρ → Prop
  | .acquire r => ¬ Held log r
  | .refuse _ => True
  | .use r => Held log r
  | .release r => Held log r ∨ r ∈ absent ∧ Untouched log r

/-- Every action is in order after the ones before it. -/
def Sound (absent : Set ρ) (log : List (Act ρ)) : Prop :=
  ∀ a act b, log = a ++ act :: b → Allowed absent a act

/-! ## One more action -/

theorem held_nil (r : ρ) : ¬ Held [] r := by
  rintro ⟨a, b, h, -⟩
  exact absurd (congrArg List.length h) (by simp)

theorem held_snoc (log : List (Act ρ)) (act : Act ρ) (r : ρ) :
    Held (log ++ [act]) r ↔ act = .acquire r ∨ Held log r ∧ act ≠ .release r := by
  constructor
  · rintro ⟨a, b, h, hb⟩
    rcases List.eq_nil_or_concat b with rfl | ⟨b, x, rfl⟩
    · obtain ⟨-, hact⟩ := List.append_inj' h rfl
      exact .inl (List.cons.inj hact).1
    · have h' : log ++ [act] = (a ++ .acquire r :: b) ++ [x] := by simpa using h
      rw [List.concat_eq_append] at hb
      obtain ⟨hlog, hact⟩ := List.append_inj' h' rfl
      obtain rfl := (List.cons.inj hact).1
      refine .inr ⟨⟨a, b, hlog, fun hr => hb (List.mem_append_left _ hr)⟩, ?_⟩
      rintro rfl
      exact hb (List.mem_append_right _ List.mem_cons_self)
  · rintro (rfl | ⟨⟨a, b, rfl, hb⟩, hne⟩)
    · exact ⟨log, [], rfl, List.not_mem_nil⟩
    · refine ⟨a, b ++ [act], by rw [List.append_assoc, List.cons_append], ?_⟩
      rw [List.mem_append, List.mem_singleton]
      rintro (hr | hr)
      · exact hb hr
      · exact hne hr.symm

theorem Untouched.snoc {log : List (Act ρ)} {r : ρ} (h : Untouched log r) {act : Act ρ}
    (hacq : act ≠ .acquire r) (hrel : act ≠ .release r) : Untouched (log ++ [act]) r := by
  constructor
  · rw [List.mem_append, List.mem_singleton]
    rintro (hr | hr)
    · exact h.1 hr
    · exact hacq hr.symm
  · rw [List.mem_append, List.mem_singleton]
    rintro (hr | hr)
    · exact h.2 hr
    · exact hrel hr.symm

theorem sound_nil (absent : Set ρ) : Sound absent [] := by
  intro a act b h
  exact absurd (congrArg List.length h) (by simp)

theorem Sound.snoc {absent : Set ρ} {log : List (Act ρ)} {act : Act ρ} (h : Sound absent log)
    (hact : Allowed absent log act) : Sound absent (log ++ [act]) := by
  intro a x b hlog
  rcases List.eq_nil_or_concat b with rfl | ⟨b, y, rfl⟩
  · obtain ⟨rfl, hx⟩ := List.append_inj' hlog rfl
    obtain rfl := (List.cons.inj hx).1
    exact hact
  · have hlog' : log ++ [act] = (a ++ x :: b) ++ [y] := by simpa using hlog
    exact h a x b (List.append_inj' hlog' rfl).1

/-! ## What a sound ledger excludes -/

/-- A resource that was released is held only if it was acquired again. -/
theorem acquire_of_held {a b : List (Act ρ)} {r : ρ} (h : Held (a ++ .release r :: b) r) :
    .acquire r ∈ b := by
  induction b using List.reverseRecOn with
  | nil =>
    rcases (held_snoc _ _ _).1 h with hact | ⟨-, hne⟩
    · cases hact
    · exact absurd rfl hne
  | append_singleton b x ih =>
    rw [← List.cons_append, ← List.append_assoc] at h
    rcases (held_snoc _ _ _).1 h with rfl | ⟨hheld, -⟩
    · exact List.mem_append_right _ List.mem_cons_self
    · exact List.mem_append_left _ (ih hheld)

variable {absent : Set ρ} {log a b c : List (Act ρ)} {r : ρ}

/-- **Nothing is released twice.** -/
theorem Sound.not_released_twice (h : Sound absent (a ++ .release r :: (b ++ .release r :: c))) :
    .acquire r ∈ b := by
  have hlog : a ++ .release r :: (b ++ .release r :: c) =
      (a ++ .release r :: b) ++ .release r :: c := by simp
  rcases h _ _ _ hlog with hheld | ⟨-, -, hrel⟩
  · exact acquire_of_held hheld
  · exact absurd (List.mem_append_right _ List.mem_cons_self) hrel

/-- **Nothing is used after its release.** -/
theorem Sound.not_used_after (h : Sound absent (a ++ .release r :: (b ++ .use r :: c))) :
    .acquire r ∈ b := by
  have hlog : a ++ .release r :: (b ++ .use r :: c) =
      (a ++ .release r :: b) ++ .use r :: c := by simp
  exact acquire_of_held (h _ _ _ hlog)

/-! ## Accounts -/

/-- The ledger is sound, leaves `H` held, and does not touch `F`. -/
structure Account (absent : Set ρ) (log : List (Act ρ)) (H F : Set ρ) : Prop where
  sound : Sound absent log
  held : ∀ r, Held log r ↔ r ∈ H
  untouched : ∀ r ∈ F, Untouched log r

namespace Account
variable {H H' F F' : Set ρ}

theorem nil (absent : Set ρ) : Account absent [] ∅ Set.univ :=
  ⟨sound_nil absent, fun r => iff_of_false (held_nil r) (Set.notMem_empty r),
    fun _ _ => ⟨List.not_mem_nil, List.not_mem_nil⟩⟩

theorem weaken (h : Account absent log H F) (hH : H = H') (hF : F' ⊆ F) :
    Account absent log H' F' :=
  ⟨h.sound, hH ▸ h.held, fun r hr => h.untouched r (hF hr)⟩

theorem acquire (h : Account absent log H F) (hr : r ∉ H) :
    Account absent (log ++ [.acquire r]) (insert r H) (F \ {r}) := by
  constructor
  · exact h.sound.snoc fun hheld => hr ((h.held r).1 hheld)
  · intro r'
    rw [held_snoc, h.held, Set.mem_insert_iff]
    constructor
    · rintro (hact | ⟨hH, -⟩)
      · exact .inl (Act.acquire.inj hact).symm
      · exact .inr hH
    · rintro (rfl | hH)
      · exact .inl rfl
      · exact .inr ⟨hH, fun hact => by cases hact⟩
  · rintro r' ⟨hF, hne⟩
    exact (h.untouched r' hF).snoc (fun hact => hne (Act.acquire.inj hact).symm)
      fun hact => by cases hact

/-- An action that neither acquires nor releases. -/
theorem neutral (h : Account absent log H F) {act : Act ρ} (hact : Allowed absent log act)
    (hacq : ∀ r, act ≠ .acquire r) (hrel : ∀ r, act ≠ .release r) :
    Account absent (log ++ [act]) H F := by
  constructor
  · exact h.sound.snoc hact
  · intro r
    rw [held_snoc, h.held]
    constructor
    · rintro (hr | ⟨hH, -⟩)
      · exact absurd hr (hacq r)
      · exact hH
    · exact fun hH => .inr ⟨hH, hrel r⟩
  · exact fun r hF => (h.untouched r hF).snoc (hacq r) (hrel r)

theorem refuse (h : Account absent log H F) (r : ρ) : Account absent (log ++ [.refuse r]) H F :=
  h.neutral trivial (fun _ hact => by cases hact) fun _ hact => by cases hact

theorem use (h : Account absent log H F) (hr : r ∈ H) : Account absent (log ++ [.use r]) H F :=
  h.neutral ((h.held r).2 hr) (fun _ hact => by cases hact) fun _ hact => by cases hact

/-- The rule of a release, of a resource that is held or may be absent. -/
theorem released (h : Account absent log H F) (hr : Allowed absent log (.release r)) :
    Account absent (log ++ [.release r]) (H \ {r}) (F \ {r}) := by
  constructor
  · exact h.sound.snoc hr
  · intro r'
    rw [held_snoc, h.held, Set.mem_sdiff, Set.mem_singleton_iff]
    constructor
    · rintro (hact | ⟨hH, hne⟩)
      · cases hact
      · exact ⟨hH, fun heq => hne (congrArg Act.release heq.symm)⟩
    · rintro ⟨hH, hne⟩
      exact .inr ⟨hH, fun hact => hne (Act.release.inj hact).symm⟩
  · rintro r' ⟨hF, hne⟩
    exact (h.untouched r' hF).snoc (fun hact => by cases hact)
      fun hact => hne (Act.release.inj hact).symm

theorem release (h : Account absent log H F) (hr : r ∈ H) :
    Account absent (log ++ [.release r]) (H \ {r}) (F \ {r}) :=
  h.released (.inl ((h.held r).2 hr))

end Account

end Conc.Ledger

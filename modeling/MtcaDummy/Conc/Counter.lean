/-
  Cells that calls add to.

  `addT l f` judges a program by what it adds to the cell `l`, as the measure
  `f` counts it: the state is the sum of what was added so far.  A program that
  never writes the cell adds nothing (`wp_add_of_not_writes`).

  `Run.counted`: whatever the interleaving, the cell has changed by the sum of
  what the calls in a run have added, so that no addition is lost and none
  counts twice.
-/
import MtcaDummy.Conc.Restrict
import Mathlib.Algebra.BigOperators.Group.Finset.Piecewise

namespace Conc

variable {Loc : Type} {V : Loc → Type} {M E : Type} {α : Type} {ι : Type} {G : Type}

section
variable [DecidableEq Loc] [AddCommMonoid G]

/-- The instruction adds the same to the cell whatever its content is. -/
def addT (l : Loc) (f : V l → G) (i : Instr V M E) (Q : i.Resp → G → Prop) (n : G) : Prop :=
  ∃ k, (∀ s : ∀ l, V l, f ((i.eff s).2 l) = f (s l) + k) ∧ ∀ r, Q r (n + k)

/-- A program that does not write the cell adds nothing. -/
theorem wp_add_of_not_writes {l : Loc} {f : V l → G} {p : Prog V M E α}
    (hp : p.All fun i => ¬ i.Writes l) {Q : α → G → Prop} {n : G} (hQ : ∀ a, Q a n) :
    p.wp (addT l f) Q n := by
  induction p with
  | ret a => exact hQ a
  | op i k ih =>
    refine ⟨0, fun s => ?_, fun r => ?_⟩
    · rw [Instr.eff_frame hp.1, add_zero]
    · rw [add_zero]
      exact ih r (hp.2 r)

/-! ## Runs -/

/-- What a call that has returned added, where `q` tells it from the result. -/
def Thread.added (q : α → G) : Thread V M E α → G
  | .done a => q a
  | _ => 0

omit [DecidableEq Loc] in
theorem Thread.added_map {G' : Type} [AddCommMonoid G'] (φ : G →+ G') (q : α → G)
    (T : Thread V M E α) : (T.added fun a => φ (q a)) = φ (T.added q) := by
  cases T with
  | done a => rfl
  | idle => exact (map_zero φ).symm
  | running p => exact (map_zero φ).symm

/-- A call that has added `n` so far. -/
def Thread.Adds (l : Loc) (f : V l → G) (q : α → G) (n : G) : Thread V M E α → Prop
  | .idle => n = 0
  | .running p => p.wp (addT l f) (fun a n => n = q a) n
  | .done a => n = q a

/-- The cell has changed by what the calls have added, `n t` for call `t`. -/
structure Counted (l : Loc) (f : V l → G) (q : ι → α → G) (s : ∀ l, V l)
    (cfg : Config ι V M E α) (n : ι → G) : Prop where
  thread : ∀ t, (cfg.thread t).Adds l f (q t) (n t)
  sum : ∀ T : Finset ι, (∀ t ∉ T, cfg.thread t = .idle) → f (cfg.store l) = f (s l) + ∑ t ∈ T, n t

variable [DecidableEq M] [DecidableEq ι] {l : Loc} {f : V l → G} {q : ι → α → G}
  {c : ι → Prog V M E α} {s : ∀ l, V l} {h : List (Event ι)} {cfg cfg' : Config ι V M E α}

/-- Every step adds what its call adds. -/
theorem Counted.step {n : ι → G} {e : Event ι}
    (hc : ∀ t, (c t).wp (addT l f) (fun a n => n = q t a) 0) (hn : Counted l f q s cfg n)
    (hs : Step c cfg e cfg') : ∃ n', Counted l f q s cfg' n' := by
  cases hs with
  | @invoke t ht =>
    have hzero : n t = 0 := by
      have := hn.thread t
      rwa [ht] at this
    refine ⟨n, fun u => ?_, fun T hT => hn.sum T fun u hu => ?_⟩
    · by_cases hu : u = t
      · subst hu
        simp only [Function.update_self]
        rw [hzero]
        exact hc u
      · simp only [Function.update_of_ne hu]
        exact hn.thread u
    · by_cases htu : u = t
      · rw [htu]
        exact ht
      · exact (Function.update_of_ne htu _ _).symm.trans (hT u hu)
  | @instr t i k ht hen =>
    obtain ⟨m, hm, hk⟩ : addT l f i (fun r => (k r).wp (addT l f) fun a n => n = q t a) (n t) := by
      have := hn.thread t
      rwa [ht] at this
    refine ⟨Function.update n t (n t + m), fun u => ?_, fun T hT => ?_⟩
    · by_cases hu : u = t
      · subst hu
        simp only [Function.update_self]
        exact hk _
      · simp only [Function.update_of_ne hu]
        exact hn.thread u
    · have hmem : t ∈ T := by
        by_contra htT
        have hidle := hT t htT
        simp at hidle
      have hsum := hn.sum T fun u hu => by
        have hne : u ≠ t := fun he => hu (he ▸ hmem)
        exact (Function.update_of_ne hne _ _).symm.trans (hT u hu)
      dsimp only
      rw [hm, hsum, Finset.sum_update_of_mem hmem, ← Finset.add_sum_erase T n hmem,
        Finset.sdiff_singleton_eq_erase]
      rw [add_assoc, add_right_comm (n t)]
  | @reply t a ht =>
    have hret : n t = q t a := by
      have := hn.thread t
      rwa [ht] at this
    refine ⟨n, fun u => ?_, fun T hT => hn.sum T fun u hu => ?_⟩
    · by_cases hu : u = t
      · subst hu
        simp only [Function.update_self]
        exact hret
      · simp only [Function.update_of_ne hu]
        exact hn.thread u
    · have hne : u ≠ t := by
        rintro rfl
        have hidle := hT u hu
        simp at hidle
      exact (Function.update_of_ne hne _ _).symm.trans (hT u hu)

theorem Run.exists_counted (hc : ∀ t, (c t).wp (addT l f) (fun a n => n = q t a) 0)
    (hr : Run c s h cfg) : ∃ n, Counted l f q s cfg n := by
  induction hr with
  | nil =>
    refine ⟨fun _ => 0, fun _ => rfl, fun T _ => ?_⟩
    rw [Finset.sum_const_zero, add_zero]
    rfl
  | snoc _ hs ih =>
    obtain ⟨n, hn⟩ := ih
    exact hn.step hc hs

omit [AddCommMonoid G] in
/-- A run is one of finitely many calls. -/
theorem Run.exists_calls (hr : Run c s h cfg) :
    ∃ T : Finset ι, ∀ t, t ∈ T ↔ cfg.thread t ≠ .idle := by
  induction hr with
  | nil => exact ⟨∅, fun t => by simp [Config.start]⟩
  | snoc _ hs ih =>
    obtain ⟨T, hT⟩ := ih
    cases hs with
    | @invoke t ht =>
      refine ⟨insert t T, fun u => ?_⟩
      by_cases hu : u = t
      · simp [hu]
      · simp [hu, hT]
    | @instr t i k ht hen =>
      refine ⟨T, fun u => ?_⟩
      by_cases hu : u = t
      · simp [hu, hT, ht]
      · simp [hu, hT]
    | @reply t a ht =>
      refine ⟨T, fun u => ?_⟩
      by_cases hu : u = t
      · simp [hu, hT, ht]
      · simp [hu, hT]

/-- **No addition is lost.**  When no call is in progress, the cell has changed
    by the sum of what the calls that returned have added. -/
theorem Run.counted (hc : ∀ t, (c t).wp (addT l f) (fun a n => n = q t a) 0)
    (hr : Run c s h cfg) (hdone : ∀ t p, cfg.thread t ≠ .running p) {T : Finset ι}
    (hT : ∀ t ∉ T, cfg.thread t = .idle) :
    f (cfg.store l) = f (s l) + ∑ t ∈ T, (cfg.thread t).added (q t) := by
  obtain ⟨n, hn⟩ := hr.exists_counted hc
  rw [hn.sum T hT]
  refine congrArg _ (Finset.sum_congr rfl fun t _ => ?_)
  have hthread := hn.thread t
  cases ht : cfg.thread t with
  | running p => exact absurd ht (hdone t p)
  | idle =>
    rw [ht] at hthread
    exact hthread
  | done a =>
    rw [ht] at hthread
    exact hthread

end

end Conc

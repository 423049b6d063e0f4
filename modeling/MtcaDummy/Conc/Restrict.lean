/-
  Runs restricted to some of the calls.

  A run of many calls, seen by some of them: the calls in `A`, which touch only
  the cells in `K`, while the other calls write none of these.  `Run.restrict`:
  leaving out the events of the others gives a run again, in which the calls in
  `A` are at the same instructions, hold the same mutexes and find the same
  contents in `K`.  So what the calls in `A` do in the presence of others, they
  also do without them, in the same order.
-/
import MtcaDummy.Conc.Locking

namespace Conc

variable {Loc : Type} {V : Loc → Type} {M E : Type} {α : Type} {ι : Type}

/-- The call an event belongs to. -/
def Event.call : Event ι → ι
  | invoke t | step t | reply t => t

/-- The events of the calls in `A`. -/
def eventsOf (A : ι → Prop) [DecidablePred A] (h : List (Event ι)) : List (Event ι) :=
  h.filter fun e => A e.call

section
variable {A : ι → Prop} [DecidablePred A] {h : List (Event ι)} {e : Event ι}

theorem eventsOf_snoc_of (he : A e.call) : eventsOf A (h ++ [e]) = eventsOf A h ++ [e] := by
  simp [eventsOf, he]

theorem eventsOf_snoc_of_not (he : ¬ A e.call) : eventsOf A (h ++ [e]) = eventsOf A h := by
  simp [eventsOf, he]

end

/-- `cfg'` is `cfg` as the calls in `A` see it, without the other calls. -/
structure Config.Restricts (A : ι → Prop) (K : Set Loc) (cfg cfg' : Config ι V M E α) : Prop where
  store : ∀ l ∈ K, cfg'.store l = cfg.store l
  owner : ∀ m t, cfg'.owner m = some t ↔ A t ∧ cfg.owner m = some t
  thread : ∀ t, A t → cfg'.thread t = cfg.thread t
  idle : ∀ t, ¬ A t → cfg'.thread t = .idle

variable [DecidableEq Loc] [DecidableEq M] [DecidableEq ι]

/-- What a call has to do after a step: what it had to do before, all of it, or
    what follows an instruction. -/
theorem Step.running {c : ι → Prog V M E α} {cfg cfg' : Config ι V M E α} {e : Event ι}
    (hs : Step c cfg e cfg') {t : ι} {p : Prog V M E α} (ht : cfg'.thread t = .running p) :
    cfg.thread t = .running p ∨ p = c t ∨
      ∃ i k r, cfg.thread t = .running (.op i k) ∧ p = k r := by
  cases hs with
  | @invoke u hu =>
    dsimp only at ht
    by_cases htu : t = u
    · subst htu
      rw [Function.update_self] at ht
      cases ht
      exact .inr (.inl rfl)
    · rw [Function.update_of_ne htu] at ht
      exact .inl ht
  | @instr u i k hu hen =>
    dsimp only at ht
    by_cases htu : t = u
    · subst htu
      rw [Function.update_self] at ht
      cases ht
      exact .inr (.inr ⟨i, k, _, hu, rfl⟩)
    · rw [Function.update_of_ne htu] at ht
      exact .inl ht
  | @reply u a hu =>
    dsimp only at ht
    by_cases htu : t = u
    · subst htu
      rw [Function.update_self] at ht
      cases ht
    · rw [Function.update_of_ne htu] at ht
      exact .inl ht

/-- What holds of all instructions of the calls holds of those still to come. -/
theorem Run.all {c : ι → Prog V M E α} {s : ∀ l, V l} {h : List (Event ι)}
    {cfg : Config ι V M E α} {C : ι → Instr V M E → Prop} (hC : ∀ t, (c t).All (C t))
    (hr : Run c s h cfg) {t : ι} {p : Prog V M E α} (ht : cfg.thread t = .running p) :
    p.All (C t) := by
  induction hr generalizing p with
  | nil => cases ht
  | snoc _ hs ih =>
    rcases hs.running ht with hsame | rfl | ⟨i, k, r, hop, rfl⟩
    · exact ih hsame
    · exact hC t
    · exact (ih hop).2 r

namespace Config.Restricts
variable {A : ι → Prop} {K : Set Loc} {cfg cfg' : Config ι V M E α} {t : ι}
  {c : ι → Prog V M E α} {i : Instr V M E} {k : i.Resp → Prog V M E α}

/-! ## Events of calls in `A` -/

theorem invoke (hR : Restricts A K cfg cfg') (hA : A t) (ht : cfg.thread t = .idle) :
    ∃ cfg'', Step c cfg' (.invoke t) cfg'' ∧
      Restricts A K { cfg with thread := Function.update cfg.thread t (.running (c t)) } cfg'' := by
  refine ⟨_, .invoke ((hR.thread t hA).trans ht), hR.store, hR.owner, fun u hu => ?_,
    fun u hu => ?_⟩
  · simp only [Function.update_apply, hR.thread u hu]
  · have hne : u ≠ t := fun he => hu (he ▸ hA)
    simp only [Function.update_of_ne hne, hR.idle u hu]

theorem reply {a : α} (hR : Restricts A K cfg cfg') (hA : A t)
    (ht : cfg.thread t = .running (.ret a)) :
    ∃ cfg'', Step c cfg' (.reply t) cfg'' ∧
      Restricts A K { cfg with thread := Function.update cfg.thread t (.done a) } cfg'' := by
  refine ⟨_, .reply ((hR.thread t hA).trans ht), hR.store, hR.owner, fun u hu => ?_,
    fun u hu => ?_⟩
  · simp only [Function.update_apply, hR.thread u hu]
  · have hne : u ≠ t := fun he => hu (he ▸ hA)
    simp only [Function.update_of_ne hne, hR.idle u hu]

omit [DecidableEq Loc] [DecidableEq M] [DecidableEq ι] in
/-- A mutex that is free is free without the others, too. -/
theorem enabled (hR : Restricts A K cfg cfg') (hen : i.Enabled cfg.owner) :
    i.Enabled cfg'.owner := by
  cases i with
  | lock m intr =>
    cases intr with
    | true => trivial
    | false =>
      have hfree : cfg.owner m = none := hen
      refine Option.eq_none_iff_forall_ne_some.2 fun u hu => ?_
      rw [((hR.owner m u).1 hu).2] at hfree
      cases hfree
  | _ => trivial

omit [DecidableEq Loc] [DecidableEq ι] in
/-- The owners after an instruction of a call in `A`. -/
theorem take (hR : Restricts A K cfg cfg') (hA : A t) (m : M) (u : ι) :
    i.take t cfg'.owner m = some u ↔ A u ∧ i.take t cfg.owner m = some u := by
  cases i with
  | lock m' intr =>
    cases intr with
    | true => exact hR.owner m u
    | false =>
      by_cases hm : m = m'
      · subst hm
        simp only [Instr.take, Function.update_self, Option.some.injEq]
        constructor
        · rintro rfl
          exact ⟨hA, rfl⟩
        · exact fun h => h.2
      · simp only [Instr.take, Function.update_of_ne hm]
        exact hR.owner m u
  | unlock m' =>
    by_cases hm : m = m'
    · subst hm
      simp [Instr.take]
    · simp only [Instr.take, Function.update_of_ne hm]
      exact hR.owner m u
  | _ => exact hR.owner m u

theorem instr (hR : Restricts A K cfg cfg') (hA : A t) (ht : cfg.thread t = .running (.op i k))
    (hen : i.Enabled cfg.owner) (hK : ∀ l, i.Touches l → l ∈ K) :
    ∃ cfg'', Step c cfg' (.step t) cfg'' ∧ Restricts A K ⟨(i.eff cfg.store).2,
      i.take t cfg.owner, Function.update cfg.thread t (.running (k (i.eff cfg.store).1))⟩
      cfg'' := by
  have hagree : ∀ l, i.Touches l → cfg'.store l = cfg.store l := fun l hl => hR.store l (hK l hl)
  refine ⟨_, .instr ((hR.thread t hA).trans ht) (hR.enabled hen),
    fun l hl => Instr.eff_agree_store hagree (hR.store l hl), fun m u => hR.take hA m u,
    fun u hu => ?_, fun u hu => ?_⟩
  · simp only [Function.update_apply, hR.thread u hu, Instr.eff_agree hagree]
  · have hne : u ≠ t := fun he => hu (he ▸ hA)
    simp only [Function.update_of_ne hne, hR.idle u hu]

/-! ## Events of other calls -/

omit [DecidableEq Loc] [DecidableEq M] in
/-- An event of another call that leaves `K` alone, and what the calls in `A`
    hold, is not seen. -/
theorem skip {store : ∀ l, V l} {owner : M → Option ι} {th : Thread V M E α}
    (hR : Restricts A K cfg cfg') (hA : ¬ A t) (hstore : ∀ l ∈ K, store l = cfg.store l)
    (howner : ∀ m u, A u → (owner m = some u ↔ cfg.owner m = some u)) :
    Restricts A K ⟨store, owner, Function.update cfg.thread t th⟩ cfg' := by
  refine ⟨fun l hl => (hR.store l hl).trans (hstore l hl).symm, fun m u => ?_, fun u hu => ?_,
    hR.idle⟩
  · rw [hR.owner]
    exact and_congr_right fun hu => (howner m u hu).symm
  · have hne : u ≠ t := fun he => hA (he ▸ hu)
    exact (hR.thread u hu).trans (Function.update_of_ne hne _ _).symm

end Config.Restricts

/-- **A run restricted to the calls in `A` is a run.**  Leaving out the events
    of the other calls, the calls in `A` are where they were. -/
theorem Run.restrict {P : Protection Loc M} {A : ι → Prop} [DecidablePred A] {K : Set Loc}
    {c : ι → Prog V M E α} {s : ∀ l, V l} {h : List (Event ι)} {cfg : Config ι V M E α}
    (hc : ∀ t, Disciplined P (c t))
    (hin : ∀ t, A t → (c t).All fun i => ∀ l, i.Touches l → l ∈ K)
    (hout : ∀ t, ¬ A t → (c t).All fun i => ∀ l, i.Writes l → l ∉ K) (hr : Run c s h cfg) :
    ∃ cfg', Run c s (eventsOf A h) cfg' ∧ cfg.Restricts A K cfg' := by
  have hall : ∀ t, (c t).All fun i => (A t → ∀ l, i.Touches l → l ∈ K) ∧
      (¬ A t → ∀ l, i.Writes l → l ∉ K) := by
    intro t
    by_cases hA : A t
    · exact (hin t hA).mono fun i hi => ⟨fun _ => hi, fun hn => absurd hA hn⟩
    · exact (hout t hA).mono fun i hi => ⟨fun ha => absurd ha hA, fun _ => hi⟩
  induction hr with
  | nil =>
    refine ⟨_, .nil, fun _ _ => rfl, fun m t => ?_, fun _ _ => rfl, fun _ _ => rfl⟩
    constructor
    · intro hm
      cases hm
    · rintro ⟨-, hm⟩
      cases hm
  | @snoc h cfg cfg₁ e hr hs ih =>
    obtain ⟨cfg', hr', hR⟩ := ih
    by_cases hA : A e.call
    · rw [eventsOf_snoc_of hA]
      have hstep : ∃ cfg'', Step c cfg' e cfg'' ∧ cfg₁.Restricts A K cfg'' := by
        cases hs with
        | invoke ht => exact hR.invoke hA ht
        | reply ht => exact hR.reply hA ht
        | instr ht hen => exact hR.instr hA ht hen ((hr.all hall ht).1.1 hA)
      obtain ⟨cfg'', hs', hR'⟩ := hstep
      exact ⟨cfg'', hr'.snoc hs', hR'⟩
    · rw [eventsOf_snoc_of_not hA]
      refine ⟨cfg', hr', ?_⟩
      cases hs with
      | invoke ht => exact hR.skip hA (fun _ _ => rfl) fun _ _ _ => Iff.rfl
      | reply ht => exact hR.skip hA (fun _ _ => rfl) fun _ _ _ => Iff.rfl
      | @instr t i k ht hen =>
        refine hR.skip hA (fun l hl => ?_) fun m u hu => ?_
        · exact Instr.eff_frame fun hw => (hr.all hall ht).1.2 hA l hw hl
        · have hne : u ≠ t := fun he => hA (he ▸ hu)
          exact take_other hen (hr.obeys hc ht) hne m

end Conc

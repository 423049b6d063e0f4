/-
  Invariants of a mutex: what holds of the guarded cells whenever the mutex is
  free.

  `ownT P m I ok` follows one call through the critical sections of the mutex
  `m`.  While the call is outside, the state is `none`.  When it takes `m` the
  guarded cells satisfy `I`; from then on the state is a store that tells the
  guarded cells, and when it releases `m` they must satisfy `I` again.  Any
  other load may be answered by anything.  `ok` is what the call may assume
  when it takes `m`: a run of admitted steps (`RunIf`) lets a call take `m` only
  if its `ok` holds.

  * `RunIf.invariant`: if every call is judged by `ownT`, then `I` holds in
    every configuration reached in which `m` is free;
  * `Disciplined.restores`: a disciplined call that writes no guarded cell is
    judged by `ownT`;
  * `wp_own_exec`: inside the section, code that only accesses guarded cells
    does what `exec` says.
-/
import MtcaDummy.Conc.Locking

namespace Conc

variable {Loc : Type} {V : Loc → Type} {M E : Type} {α : Type} {ι : Type}

section
variable [DecidableEq Loc] [DecidableEq M]

/-- The judgement for single instructions. -/
def ownT (P : Protection Loc M) (m : M) (I : (∀ l, V l) → Prop) (ok : Prop) (i : Instr V M E)
    (Q : i.Resp → Option (∀ l, V l) → Prop) (own : Option (∀ l, V l)) : Prop :=
  match i with
  | .lock m' intr =>
    if m' = m ∧ intr = false then own = none ∧ (ok → ∀ s, I s → Q () (some s)) else Q () own
  | .unlock m' => if m' = m then ∃ s, own = some s ∧ I s ∧ Q () none else Q () own
  | .load l => (∃ s, own = some s ∧ P.Guards m l ∧ Q (s l) own) ∨ ∀ r, Q r own
  | .store l v => (P.Guards m l → ∃ s, own = some s ∧ Q () (some (Function.update s l v))) ∧
      (¬ P.Guards m l → Q () own)
  | .modify l f =>
    (P.Guards m l → ∃ s, own = some s ∧ Q (s l) (some (Function.update s l (f (s l))))) ∧
      (¬ P.Guards m l → ∀ r, Q r own)
  | .note _ => Q () own

/-- The program re-establishes `I` whenever it releases `m`, and does not hold
    `m` when it returns. -/
def Restores (P : Protection Loc M) (m : M) (I : (∀ l, V l) → Prop) (ok : Prop)
    (p : Prog V M E α) : Prop :=
  p.wp (ownT P m I ok) (fun _ own => own = none) none

/-! ## Code inside the section -/

/-- The instruction accesses only cells that `m` guards. -/
def Instr.Local (P : Protection Loc M) (m : M) : Instr V M E → Prop
  | .lock _ _ => False
  | .unlock _ => False
  | .note _ => True
  | i => ∀ l, i.Touches l → P.Guards m l

/-- **Inside the section, code on guarded cells does what `exec` says.** -/
theorem wp_own_exec {P : Protection Loc M} {m : M} {I : (∀ l, V l) → Prop} {ok : Prop}
    {p : Prog V M E α} (hp : p.All (Instr.Local P m)) {Q : α → Option (∀ l, V l) → Prop}
    {s : ∀ l, V l} (h : Q (p.exec s).1 (some (p.exec s).2)) :
    p.wp (ownT P m I ok) Q (some s) := by
  induction p generalizing s with
  | ret a => exact h
  | op i k ih =>
    obtain ⟨hi, hk⟩ := hp
    cases i with
    | lock m' intr => exact hi.elim
    | unlock m' => exact hi.elim
    | load l =>
      have hg : P.Guards m l := hi l .load
      exact .inl ⟨s, rfl, hg, ih _ (hk _) h⟩
    | store l v =>
      have hg : P.Guards m l := hi l .store
      exact ⟨fun _ => ⟨s, rfl, ih _ (hk _) h⟩, fun hn => absurd hg hn⟩
    | modify l f =>
      have hg : P.Guards m l := hi l .modify
      exact ⟨fun _ => ⟨s, rfl, ih _ (hk _) h⟩, fun hn => absurd hg hn⟩
    | note e => exact ih _ (hk _) h

/-! ## Calls that write no guarded cell -/

/-- `I` depends only on cells in `K`. -/
def DependsOn (I : (∀ l, V l) → Prop) (K : Loc → Prop) : Prop :=
  ∀ s s' : ∀ l, V l, (∀ l, K l → s l = s' l) → I s → I s'

/-- The stack of a disciplined call and its place relative to the section. -/
structure Held.At (m : M) (I : (∀ l, V l) → Prop) (st : Held M) (own : Option (∀ l, V l)) :
    Prop where
  nodup : st.stack.Nodup
  mem_iff : m ∈ st.stack ↔ own.isSome
  inv : ∀ s, own = some s → I s

theorem lockT_own {P P' : Protection Loc M} {m : M} {I : (∀ l, V l) → Prop} {ok : Prop}
    {i : Instr V M E} (hi : ∀ l, i.Writes l → ¬ P.Guards m l)
    {Q : i.Resp → Held M → Prop} {Q' : i.Resp → Option (∀ l, V l) → Prop} {st : Held M}
    {own : Option (∀ l, V l)} (hat : st.At m I own)
    (hQ : ∀ r st own, Held.At m I st own → Q r st → Q' r own) (h : lockT P' i Q st) :
    ownT P m I ok i Q' own := by
  cases i with
  | lock m' intr =>
    obtain ⟨hm', -, -, hQm⟩ := h
    simp only [ownT]
    split
    · rename_i hm
      obtain ⟨rfl, rfl⟩ := hm
      have hnone : own = none := by
        cases own with
        | none => rfl
        | some s => exact absurd (hat.mem_iff.2 rfl) hm'
      refine ⟨hnone, fun _ s hs => hQ _ _ _ ⟨List.nodup_cons.2 ⟨hm', hat.nodup⟩, ?_, ?_⟩ hQm⟩
      · simp
      · intro s' he
        cases he
        exact hs
    · rename_i hm
      cases intr with
      | true => exact hQ _ _ _ hat hQm
      | false =>
        have hne : m ≠ m' := fun he => hm ⟨he.symm, rfl⟩
        refine hQ _ _ _ ⟨List.nodup_cons.2 ⟨hm', hat.nodup⟩, ?_, hat.inv⟩ hQm
        rw [← hat.mem_iff]
        simp [hne]
  | unlock m' =>
    obtain ⟨rest, hr, hQm⟩ := h
    have hnd := hat.nodup
    rw [hr, List.nodup_cons] at hnd
    simp only [ownT]
    split
    · rename_i hm
      subst hm
      obtain ⟨s, hs⟩ := Option.isSome_iff_exists.1 (hat.mem_iff.1 (by simp [hr]))
      exact ⟨s, hs, hat.inv s hs, hQ _ _ _ ⟨hnd.2, by simp [hnd.1], nofun⟩ hQm⟩
    · rename_i hm
      refine hQ _ _ _ ⟨hnd.2, ?_, hat.inv⟩ hQm
      rw [← hat.mem_iff, hr]
      simp [Ne.symm hm]
  | load l => exact .inr fun r => hQ _ _ _ hat (h.2 r)
  | store l v => exact ⟨fun hg => absurd hg (hi l .store), fun _ => hQ _ _ _ hat h.2⟩
  | modify l f => exact ⟨fun hg => absurd hg (hi l .modify), fun _ r => hQ _ _ _ hat (h.2 r)⟩
  | note e => exact hQ _ _ _ hat h

/-- **A disciplined call that writes no guarded cell restores `I`**, whichever
    protection it is disciplined for. -/
theorem Disciplined.restores {P P' : Protection Loc M} {m : M} {I : (∀ l, V l) → Prop} {ok : Prop}
    {p : Prog V M E α} (hp : Disciplined P' p)
    (hw : p.All fun i => ∀ l, i.Writes l → ¬ P.Guards m l) : Restores P m I ok p := by
  refine Prog.wp_sim (R := Held.At m I) (P := fun i => ∀ l, i.Writes l → ¬ P.Guards m l)
    (fun i hi Q Q' st own hat hQ h => lockT_own hi hat hQ h) hw ?_
    ⟨List.nodup_nil, by simp [Held.none], nofun⟩ hp
  intro a st own hat hnil
  cases own with
  | none => rfl
  | some s =>
    have hm := hat.mem_iff.2 rfl
    rw [hnil] at hm
    cases hm

end

/-! ## Runs -/

variable [DecidableEq Loc] [DecidableEq M] [DecidableEq ι]

/-- The runs all of whose steps are admitted. -/
inductive RunIf (A : Config ι V M E α → Event ι → Prop) (c : ι → Prog V M E α) (s : ∀ l, V l) :
    List (Event ι) → Config ι V M E α → Prop
  | nil : RunIf A c s [] (.start s)
  | snoc {h : List (Event ι)} {cfg cfg' : Config ι V M E α} {e : Event ι} :
      RunIf A c s h cfg → A cfg e → Step c cfg e cfg' → RunIf A c s (h ++ [e]) cfg'

/-- If every step is admitted, every run is one of admitted steps. -/
theorem Run.runIf {A : Config ι V M E α → Event ι → Prop} {c : ι → Prog V M E α}
    {s : ∀ l, V l} {h : List (Event ι)} {cfg : Config ι V M E α} (hA : ∀ cfg e, A cfg e)
    (hr : Run c s h cfg) : RunIf A c s h cfg := by
  induction hr with
  | nil => exact .nil
  | snoc _ hs ih => exact .snoc ih (hA _ _) hs

/-- Where a call is relative to the section of `m`. -/
def Thread.Section (P : Protection Loc M) (m : M) (I : (∀ l, V l) → Prop) (ok : Prop)
    (store : ∀ l, V l) (owner : M → Option ι) (t : ι) : Thread V M E α → Prop
  | .running p => ∃ own, p.wp (ownT P m I ok) (fun _ own => own = none) own ∧
      (own.isSome ↔ owner m = some t) ∧ ∀ s, own = some s → ∀ l, P.Guards m l → s l = store l
  | _ => owner m ≠ some t

/-- The mutex is free and its cells satisfy `I`, or the call that holds it
    knows them. -/
structure SectionInv (P : Protection Loc M) (m : M) (I : (∀ l, V l) → Prop) (ok : ι → Prop)
    (cfg : Config ι V M E α) : Prop where
  thread : ∀ t, (cfg.thread t).Section P m I (ok t) cfg.store cfg.owner t
  free : cfg.owner m = none → I cfg.store

omit [DecidableEq ι] in
/-- One instruction, seen from the section: the judgement goes on, the call
    knows the guarded cells if it holds `m`, and leaves them alone if not. -/
theorem ownT_next {P : Protection Loc M} {m : M} {I : (∀ l, V l) → Prop} {ok : Prop}
    (hI : DependsOn I (P.Guards m)) {cfg : Config ι V M E α} {t : ι} {i : Instr V M E}
    {Q : i.Resp → Option (∀ l, V l) → Prop} {own : Option (∀ l, V l)}
    (hown : own.isSome ↔ cfg.owner m = some t)
    (hval : ∀ s, own = some s → ∀ l, P.Guards m l → s l = cfg.store l)
    (hfree : cfg.owner m = none → I cfg.store) (hen : i.Enabled cfg.owner)
    (hok : i = .lock m false → ok) (h : ownT P m I ok i Q own) :
    (∃ own', Q (i.eff cfg.store).1 own' ∧
      (own'.isSome ↔ i.take t cfg.owner m = some t) ∧
      ∀ s, own' = some s → ∀ l, P.Guards m l → s l = (i.eff cfg.store).2 l) ∧
    (i.take t cfg.owner m = none → I (i.eff cfg.store).2) ∧
    (∀ u, u ≠ t → (i.take t cfg.owner m = some u ↔ cfg.owner m = some u)) ∧
    (own = none → ∀ l, P.Guards m l → (i.eff cfg.store).2 l = cfg.store l) := by
  -- an instruction that leaves `m` and the guarded cells alone
  have hquiet : ∀ r : i.Resp, r = (i.eff cfg.store).1 → i.take t cfg.owner m = cfg.owner m →
      (∀ l, P.Guards m l → (i.eff cfg.store).2 l = cfg.store l) → Q r own →
      (∃ own', Q (i.eff cfg.store).1 own' ∧
        (own'.isSome ↔ i.take t cfg.owner m = some t) ∧
        ∀ s, own' = some s → ∀ l, P.Guards m l → s l = (i.eff cfg.store).2 l) ∧
      (i.take t cfg.owner m = none → I (i.eff cfg.store).2) ∧
      (∀ u, u ≠ t → (i.take t cfg.owner m = some u ↔ cfg.owner m = some u)) ∧
      (own = none → ∀ l, P.Guards m l → (i.eff cfg.store).2 l = cfg.store l) := by
    rintro r rfl htake heff hQ
    refine ⟨⟨own, hQ, by rw [htake, hown], fun s hs l hg => ?_⟩, fun hn => ?_, ?_, fun _ => heff⟩
    · rw [heff l hg, hval s hs l hg]
    · exact hI _ _ (fun l hg => (heff l hg).symm) (hfree (htake ▸ hn))
    · intro u _
      rw [htake]
  -- an update of a guarded cell by the call that holds `m`
  have hupd : ∀ l (v : V l) s, P.Guards m l → own = some s →
      (∀ l', P.Guards m l' → Function.update s l v l' = Function.update cfg.store l v l') := by
    intro l v s _ hs l' hg'
    by_cases he : l' = l
    · subst he; simp
    · rw [Function.update_of_ne he, Function.update_of_ne he, hval s hs l' hg']
  have hsome : ∀ s, own = some s → cfg.owner m = some t := fun s hs => hown.1 (by rw [hs]; rfl)
  cases i with
  | lock m' intr =>
    simp only [ownT] at h
    split at h
    · rename_i hm
      obtain ⟨rfl, rfl⟩ := hm
      have hnone : cfg.owner m' = none := hen
      have htake : (Instr.lock m' false : Instr V M E).take t cfg.owner m' = some t :=
        Function.update_self ..
      refine ⟨⟨some cfg.store, h.2 (hok rfl) _ (hfree hnone), by simp [htake], ?_⟩, ?_, ?_,
        fun _ _ _ => rfl⟩
      · rintro s ⟨⟩ l _
        rfl
      · intro hn
        rw [htake] at hn
        cases hn
      · intro u hu
        rw [htake, hnone]
        simp [hu.symm]
    · rename_i hm
      refine hquiet () rfl ?_ (fun _ _ => rfl) h
      cases intr with
      | true => rfl
      | false =>
        have hne : m ≠ m' := fun he => hm ⟨he.symm, rfl⟩
        exact Function.update_of_ne hne _ _
  | unlock m' =>
    simp only [ownT] at h
    split at h
    · rename_i hm
      subst hm
      obtain ⟨s, hs, hIs, hQ⟩ := h
      have htake : (Instr.unlock m' : Instr V M E).take t cfg.owner m' = none :=
        Function.update_self ..
      refine ⟨⟨none, hQ, by simp [htake], fun _ hs => by cases hs⟩,
        fun _ => hI _ _ (hval s hs) hIs, ?_,
        fun hn => ?_⟩
      · intro u hu
        rw [htake, hsome s hs]
        simp [hu.symm]
      · rw [hs] at hn
        cases hn
    · rename_i hm
      exact hquiet () rfl (Function.update_of_ne (Ne.symm hm) _ _) (fun _ _ => rfl) h
  | load l =>
    rcases h with ⟨s, hs, hg, hQ⟩ | hQ
    · exact hquiet _ (hval s hs l hg) rfl (fun _ _ => rfl) hQ
    · exact hquiet _ rfl rfl (fun _ _ => rfl) (hQ _)
  | store l v =>
    by_cases hg : P.Guards m l
    · obtain ⟨s, hs, hQ⟩ := h.1 hg
      have htake : (Instr.store l v : Instr V M E).take t cfg.owner m = some t := hsome s hs
      refine ⟨⟨_, hQ, by simp [htake], ?_⟩, ?_, fun u _ => Iff.rfl, ?_⟩
      · rintro s' ⟨⟩
        exact hupd l v s hg hs
      · intro hn
        rw [htake] at hn
        cases hn
      · intro hn
        rw [hs] at hn
        cases hn
    · refine hquiet () rfl rfl (fun l' hg' => Function.update_of_ne ?_ _ _) (h.2 hg)
      rintro rfl
      exact hg hg'
  | modify l f =>
    by_cases hg : P.Guards m l
    · obtain ⟨s, hs, hQ⟩ := h.1 hg
      have htake : (Instr.modify l f : Instr V M E).take t cfg.owner m = some t := hsome s hs
      rw [hval s hs l hg] at hQ
      refine ⟨⟨_, hQ, by simp [htake], ?_⟩, ?_, fun u _ => Iff.rfl, ?_⟩
      · rintro s' ⟨⟩
        exact hupd l _ s hg hs
      · intro hn
        rw [htake] at hn
        cases hn
      · intro hn
        rw [hs] at hn
        cases hn
    · refine hquiet _ rfl rfl (fun l' hg' => Function.update_of_ne ?_ _ _) (h.2 hg _)
      rintro rfl
      exact hg hg'
  | note e => exact hquiet () rfl rfl (fun _ _ => rfl) h

namespace SectionInv
variable {P : Protection Loc M} {m : M} {I : (∀ l, V l) → Prop} {ok : ι → Prop}
  {c : ι → Prog V M E α} {cfg cfg' : Config ι V M E α}

/-- Every admitted step keeps the invariant. -/
theorem step (hI : DependsOn I (P.Guards m)) (hc : ∀ t, Restores P m I (ok t) (c t))
    {e : Event ι} (hok : ∀ t k, e = .step t →
      cfg.thread t = .running (.op (.lock m false) k) → ok t)
    (hinv : SectionInv P m I ok cfg) (hs : Step c cfg e cfg') : SectionInv P m I ok cfg' := by
  cases hs with
  | @invoke t ht =>
    refine ⟨fun u => ?_, hinv.free⟩
    by_cases hu : u = t
    · subst hu
      have hidle : cfg.owner m ≠ some u := by
        have := hinv.thread u
        rwa [ht] at this
      simp only [Function.update_self]
      exact ⟨none, hc u, by simp [hidle], nofun⟩
    · simpa only [Function.update_of_ne hu] using hinv.thread u
  | @instr t i k ht hen =>
    obtain ⟨own, hwp, hown, hval⟩ : (Thread.running (.op i k)).Section P m I (ok t) cfg.store
        cfg.owner t :=
      ht ▸ hinv.thread t
    obtain ⟨hnext, hfree, hother, hkeep⟩ := ownT_next hI hown hval hinv.free hen
      (fun hi => by subst hi; exact hok t k rfl ht) hwp
    refine ⟨fun u => ?_, hfree⟩
    by_cases hu : u = t
    · subst hu
      simp only [Function.update_self]
      exact hnext
    · have hsec := hinv.thread u
      simp only [Function.update_of_ne hu]
      cases hth : cfg.thread u with
      | running p =>
        rw [hth] at hsec
        obtain ⟨own', hwp', hown', hval'⟩ := hsec
        refine ⟨own', hwp', by rw [hown']; exact (hother u hu).symm, fun s hs l hg => ?_⟩
        have hu' : cfg.owner m = some u := hown'.1 (by rw [hs]; rfl)
        have hnone : own = none := by
          cases own with
          | none => rfl
          | some s' =>
            have := hown.1 rfl
            rw [hu'] at this
            cases this
            exact absurd rfl hu
        rw [hval' s hs l hg]
        exact (hkeep hnone l hg).symm
      | idle => rw [hth] at hsec; exact fun h => hsec ((hother u hu).1 h)
      | done a => rw [hth] at hsec; exact fun h => hsec ((hother u hu).1 h)
  | @reply t a ht =>
    refine ⟨fun u => ?_, hinv.free⟩
    by_cases hu : u = t
    · subst hu
      obtain ⟨own, hnone, hown, -⟩ : (Thread.running (.ret a)).Section P m I (ok u) cfg.store
          cfg.owner u :=
        ht ▸ hinv.thread u
      have hown' : own = none := hnone
      simp only [Function.update_self]
      intro h
      have := hown.2 h
      rw [hown'] at this
      cases this
    · simpa only [Function.update_of_ne hu] using hinv.thread u

end SectionInv

/-- **The invariant of a mutex.**  In a run of admitted steps of calls that
    restore `I`, it holds whenever the mutex is free. -/
theorem RunIf.invariant {P : Protection Loc M} {m : M} {I : (∀ l, V l) → Prop} {ok : ι → Prop}
    {A : Config ι V M E α → Event ι → Prop} {c : ι → Prog V M E α} {s : ∀ l, V l}
    {h : List (Event ι)} {cfg : Config ι V M E α} (hI : DependsOn I (P.Guards m))
    (hc : ∀ t, Restores P m I (ok t) (c t))
    (hA : ∀ cfg t k, A cfg (.step t) → cfg.thread t = .running (.op (.lock m false) k) → ok t)
    (h₀ : I s) (hr : RunIf A c s h cfg) (hfree : cfg.owner m = none) : I cfg.store := by
  have hinv : SectionInv P m I ok cfg := by
    clear hfree
    induction hr with
    | nil => exact ⟨fun _ => nofun, fun _ => h₀⟩
    | snoc _ ha hs ih =>
      refine ih.step hI hc (fun t k he ht => ?_) hs
      subst he
      exact hA _ t k ha ht
  exact hinv.free hfree

end Conc

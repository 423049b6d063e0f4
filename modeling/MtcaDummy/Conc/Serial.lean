/-
  Serialisability of calls with one critical section.

  A mutex of level `0` protects a resource: the cells it guards.  A disciplined
  program that writes only such cells accesses one resource, inside one
  critical section (`Sectioned`).  `Run.serialisable`: in every run of such
  calls, the replies and the final store are those of executing the calls that
  replied one after the other, in an order that keeps the order of calls that
  did not overlap.

  The order is that of the commits: a call commits when it takes the mutex of
  its section, and at its reply if it takes none.  The invariant
  (`SerialInv`) compares the run with the serial execution of the committed
  calls: they agree on the resources no call holds, and a call inside its
  section is about to do there what the serial execution has done already.
-/
import MtcaDummy.Conc.Locking
import Mathlib.Data.List.Nodup

namespace Conc

variable {Loc : Type} {V : Loc → Type} {M E : Type} {α β : Type} {ι : Type}

/-- Before, inside or after the critical section. -/
inductive Phase (M : Type) where
  | before
  | inside (m : M)
  | after

/-- The cell belongs to a resource. -/
def Protection.Resource (P : Protection Loc M) (l : Loc) : Prop :=
  ∃ m, P.Guards m l ∧ P.level m = 0

/-- The cells written in a phase. -/
def Phase.Own (P : Protection Loc M) : Phase M → Loc → Prop
  | .inside m, l => P.Guards m l
  | _, _ => False

/-- Where the single instructions are allowed. -/
def sectionT (P : Protection Loc M) (i : Instr V M E) (Q : i.Resp → Phase M → Prop)
    (ph : Phase M) : Prop :=
  match i with
  | .lock m intr => (P.level m = 0 ∧ intr = false → ph = .before ∧ Q () (.inside m)) ∧
      (¬ (P.level m = 0 ∧ intr = false) → Q () ph)
  | .unlock m => (P.level m = 0 → ph = .inside m ∧ Q () .after) ∧ (P.level m ≠ 0 → Q () ph)
  | .load l => (∀ m, P.Guards m l → P.level m = 0 → ph = .inside m) ∧ ∀ r, Q r ph
  | .store l _ => (∃ m, P.Guards m l ∧ P.level m = 0 ∧ ph = .inside m) ∧ Q () ph
  | .modify l _ => (∃ m, P.Guards m l ∧ P.level m = 0 ∧ ph = .inside m) ∧ ∀ r, Q r ph
  | .note _ => Q () ph

/-- The program has at most one critical section, and accesses a resource only
    there. -/
def Sectioned (P : Protection Loc M) (p : Prog V M E α) : Prop :=
  p.wp (sectionT P) (fun _ ph => ∀ m, ph ≠ .inside m) .before

/-! ## Disciplined programs are sectioned -/

/-- The phase that the mutexes held amount to. -/
structure Held.InPhase (P : Protection Loc M) (st : Held M) (ph : Phase M) : Prop where
  sorted : st.stack.Pairwise fun m m' => P.level m' < P.level m
  spent : st.spent = false ↔ ph = .before
  inside : ∀ m, (m ∈ st.stack ∧ P.level m = 0) ↔ ph = .inside m

theorem lockT_section {P : Protection Loc M} {i : Instr V M E}
    (hi : ∀ l, i.Writes l → P.Resource l) {Q : i.Resp → Held M → Prop}
    {Q' : i.Resp → Phase M → Prop} {st : Held M} {ph : Phase M} (hst : st.InPhase P ph)
    (hQ : ∀ r st ph, Held.InPhase P st ph → Q r st → Q' r ph) (h : lockT P i Q st) :
    sectionT P i Q' ph := by
  -- the mutex of the section is the one guarding a cell of a resource
  have hres : ∀ l, (∀ m, P.Guards m l → m ∈ st.stack) → ∀ m, P.Guards m l → P.level m = 0 →
      ph = .inside m := fun l hl m hg h0 => (hst.inside m).1 ⟨hl m hg, h0⟩
  cases i with
  | lock m intr =>
    obtain ⟨hm, hlt, hsp, hQm⟩ := h
    refine ⟨fun ⟨h0, hi⟩ => ?_, fun hne => ?_⟩
    · subst hi
      have hnil : st.stack = [] := by
        rcases hs : st.stack with _ | ⟨m', rest⟩
        · rfl
        · have := hlt m' (by simp [hs]); omega
      refine ⟨hst.spent.1 (hsp h0), hQ _ _ _ ⟨?_, ?_, fun m' => ?_⟩ hQm⟩
      · simp [hnil]
      · simp [h0]
      · simp only [hnil, List.mem_singleton, Phase.inside.injEq]
        exact ⟨fun h => h.1.symm, fun h => ⟨h.symm, h ▸ h0⟩⟩
    · cases intr with
      | true => exact hQ _ _ _ hst hQm
      | false =>
        have h0 : P.level m ≠ 0 := fun h0 => hne ⟨h0, rfl⟩
        refine hQ _ _ _ ⟨List.pairwise_cons.2 ⟨fun m' h => hlt m' h, hst.sorted⟩, ?_,
          fun m' => ?_⟩ hQm
        · simp [h0, hst.spent]
        · rw [← hst.inside m']
          constructor
          · rintro ⟨hm', h0'⟩
            rcases List.mem_cons.1 hm' with rfl | hm'
            · exact absurd h0' h0
            · exact ⟨hm', h0'⟩
          · rintro ⟨hm', h0'⟩
            exact ⟨List.mem_cons_of_mem _ hm', h0'⟩
  | unlock m =>
    obtain ⟨rest, hr, hQm⟩ := h
    have hsort := hst.sorted
    rw [hr, List.pairwise_cons] at hsort
    refine ⟨fun h0 => ?_, fun h0 => ?_⟩
    · have hin : ph = .inside m := (hst.inside m).1 ⟨by simp [hr], h0⟩
      have hnil : rest = [] := by
        rcases rest with _ | ⟨m', rest⟩
        · rfl
        · have := hsort.1 m' (by simp); omega
      refine ⟨hin, hQ _ _ _ ⟨by simp [hnil], ?_, fun m' => by simp [hnil]⟩ hQm⟩
      have := hst.spent
      rw [hin] at this
      simpa using this
    · refine hQ () ⟨rest, st.spent⟩ ph ⟨hsort.2, hst.spent, fun m' => ?_⟩ hQm
      rw [← hst.inside m', hr]
      constructor
      · rintro ⟨hm', h0'⟩
        exact ⟨List.mem_cons_of_mem _ hm', h0'⟩
      · rintro ⟨hm', h0'⟩
        rcases List.mem_cons.1 hm' with rfl | hm'
        · exact absurd h0' h0
        · exact ⟨hm', h0'⟩
  | load l => exact ⟨hres l h.1, fun r => hQ _ _ _ hst (h.2 r)⟩
  | store l v =>
    obtain ⟨m, hg, h0⟩ := hi l .store
    exact ⟨⟨m, hg, h0, hres l h.1 m hg h0⟩, hQ _ _ _ hst h.2⟩
  | modify l f =>
    obtain ⟨m, hg, h0⟩ := hi l .modify
    exact ⟨⟨m, hg, h0, hres l h.1 m hg h0⟩, fun r => hQ _ _ _ hst (h.2 r)⟩
  | note e => exact hQ _ _ _ hst h

/-- **A disciplined program that writes only resources is sectioned.** -/
theorem Disciplined.sectioned {P : Protection Loc M} {p : Prog V M E α} (h : Disciplined P p)
    (hp : p.All fun i => ∀ l, i.Writes l → P.Resource l) : Sectioned P p := by
  refine Prog.wp_sim (R := fun st ph => Held.InPhase P st ph)
    (fun i hi Q Q' st ph hst hQ h => lockT_section hi hst hQ h) hp ?_ ?_ h
  · intro _ st ph hst hnil m hm
    have := ((hst.inside m).2 hm).1
    rw [hnil] at this; cases this
  · exact ⟨by simp [Held.none], by simp [Held.none], fun m => by simp [Held.none]⟩

/-! ## What a section depends on -/

/-- One instruction of a section: its response depends on the cells that are no
    resource and on the own ones, and it changes own cells only. -/
theorem sectionT_eff {P : Protection Loc M} {i : Instr V M E} {Q : i.Resp → Phase M → Prop}
    {ph : Phase M} (h : sectionT P i Q ph) :
    (∀ l, i.Touches l → ¬ P.Resource l ∨ ph.Own P l) ∧ (∀ l, i.Writes l → ph.Own P l) := by
  have hw : ∀ l, (∃ m, P.Guards m l ∧ P.level m = 0 ∧ ph = .inside m) → ph.Own P l := by
    rintro l ⟨m, hg, -, rfl⟩
    exact hg
  cases i with
  | load l =>
    refine ⟨fun l' hl => ?_, fun l' hl => by simp at hl⟩
    rw [Instr.touches_load] at hl; subst hl
    by_cases hr : P.Resource l
    · obtain ⟨m, hg, h0⟩ := hr
      exact Or.inr (hw l ⟨m, hg, h0, h.1 m hg h0⟩)
    · exact Or.inl hr
  | store l v =>
    refine ⟨fun l' hl => ?_, fun l' hl => ?_⟩
    · rw [Instr.touches_store] at hl; subst hl; exact Or.inr (hw l h.1)
    · rw [Instr.writes_store] at hl; subst hl; exact hw l h.1
  | modify l f =>
    refine ⟨fun l' hl => ?_, fun l' hl => ?_⟩
    · rw [Instr.touches_modify] at hl; subst hl; exact Or.inr (hw l h.1)
    · rw [Instr.writes_modify] at hl; subst hl; exact hw l h.1
  | _ => exact ⟨fun l' hl => by simp at hl, fun l' hl => by simp at hl⟩

/-- The instruction takes or releases no mutex of level `0`. -/
def Instr.Inner (P : Protection Loc M) (i : Instr V M E) : Prop :=
  ∀ m, P.level m = 0 → i ≠ .lock m false ∧ i ≠ .unlock m

/-- After an instruction the phase is the same, or the section was entered or
    left. -/
theorem sectionT_next {P : Protection Loc M} {i : Instr V M E} {Q : i.Resp → Phase M → Prop}
    {ph : Phase M} (h : sectionT P i Q ph) (r : i.Resp) :
    (i.Inner P ∧ Q r ph) ∨
      (∃ m, i = .lock m false ∧ P.level m = 0 ∧ ph = .before ∧ Q r (.inside m)) ∨
      (∃ m, i = .unlock m ∧ P.level m = 0 ∧ ph = .inside m ∧ Q r .after) := by
  cases i with
  | lock m intr =>
    by_cases hm : P.level m = 0 ∧ intr = false
    · obtain ⟨h0, rfl⟩ := hm
      exact Or.inr (Or.inl ⟨m, rfl, h0, h.1 ⟨h0, rfl⟩⟩)
    · refine Or.inl ⟨fun m' h0 => ⟨fun he => ?_, nofun⟩, h.2 hm⟩
      injection he with he hi
      exact hm ⟨he ▸ h0, hi⟩
  | unlock m =>
    by_cases h0 : P.level m = 0
    · exact Or.inr (Or.inr ⟨m, rfl, h0, h.1 h0⟩)
    · refine Or.inl ⟨fun m' h0' => ⟨nofun, fun he => ?_⟩, h.2 h0⟩
      injection he with he
      exact h0 (he ▸ h0')
  | load l => exact Or.inl ⟨fun _ _ => ⟨nofun, nofun⟩, h.2 r⟩
  | store l v => exact Or.inl ⟨fun _ _ => ⟨nofun, nofun⟩, h.2⟩
  | modify l f => exact Or.inl ⟨fun _ _ => ⟨nofun, nofun⟩, h.2 r⟩
  | note e => exact Or.inl ⟨fun _ _ => ⟨nofun, nofun⟩, h⟩

section
variable [DecidableEq Loc]

/-- From inside its section on, a program changes own cells only. -/
theorem section_frame {P : Protection Loc M} {p : Prog V M E α} {Q : α → Phase M → Prop}
    {ph : Phase M} (hph : ph ≠ .before) (h : p.wp (sectionT P) Q ph) (x : ∀ l, V l) {l : Loc}
    (hl : ¬ ph.Own P l) : (p.exec x).2 l = x l := by
  induction p generalizing ph x with
  | ret a => rfl
  | op i k ih =>
    have hi : (i.eff x).2 l = x l := Instr.eff_frame fun hw => hl ((sectionT_eff h).2 l hw)
    rw [Prog.exec_op, ← hi]
    rcases sectionT_next h (i.eff x).1 with ⟨-, hq⟩ | ⟨m, -, -, hb, -⟩ | ⟨m, -, -, -, hq⟩
    · exact ih _ hph hq _ hl
    · exact absurd hb hph
    · exact ih _ (by simp) hq _ (by simp [Phase.Own])

/-- ... and depends only on those and on the cells that are no resource. -/
theorem section_agree {P : Protection Loc M} {p : Prog V M E α} {Q : α → Phase M → Prop}
    {ph : Phase M} (hph : ph ≠ .before) (h : p.wp (sectionT P) Q ph) {x y : ∀ l, V l}
    (hxy : ∀ l, ¬ P.Resource l ∨ ph.Own P l → x l = y l) :
    (p.exec x).1 = (p.exec y).1 ∧ ∀ l, ph.Own P l → (p.exec x).2 l = (p.exec y).2 l := by
  induction p generalizing ph x y with
  | ret a => exact ⟨rfl, fun l hl => hxy l (Or.inr hl)⟩
  | op i k ih =>
    have ht : ∀ l, i.Touches l → x l = y l := fun l hl => hxy l ((sectionT_eff h).1 l hl)
    have hxy' : ∀ l, ¬ P.Resource l ∨ ph.Own P l → (i.eff x).2 l = (i.eff y).2 l :=
      fun l hl => Instr.eff_agree_store ht (hxy l hl)
    rw [Prog.exec_op, Prog.exec_op, ← Instr.eff_agree ht]
    rcases sectionT_next h (i.eff x).1 with ⟨-, hq⟩ | ⟨m, -, -, hb, -⟩ | ⟨m, -, -, rfl, hq⟩
    · exact ih _ hph hq hxy'
    · exact absurd hb hph
    · refine ⟨(ih _ (by simp) hq fun l hl => hxy' l ?_).1, fun l hl => ?_⟩
      · exact hl.imp id fun hl => absurd hl (by simp [Phase.Own])
      · rw [section_frame (by simp) hq _ (by simp [Phase.Own]),
          section_frame (by simp) hq _ (by simp [Phase.Own])]
        exact hxy' l (Or.inr hl)

end

/-! ## Serial execution -/

section
variable [DecidableEq Loc] [DecidableEq ι]

/-- Execute one more call. -/
def serialStep (c : ι → Prog V M E α) (x : (ι → Option α) × (∀ l, V l)) (t : ι) :
    (ι → Option α) × (∀ l, V l) :=
  (Function.update x.1 t (some ((c t).exec x.2).1), ((c t).exec x.2).2)

/-- Execute the calls of a list one after the other: their replies and the
    final store. -/
def serial (c : ι → Prog V M E α) (order : List ι) (s : ∀ l, V l) :
    (ι → Option α) × (∀ l, V l) :=
  order.foldl (serialStep c) (fun _ => none, s)

@[simp] theorem serial_snoc (c : ι → Prog V M E α) (order : List ι) (t : ι) (s : ∀ l, V l) :
    serial c (order ++ [t]) s = serialStep c (serial c order s) t := by
  simp [serial]

end

/-! ## The simulation -/

variable [DecidableEq Loc] [DecidableEq M] [DecidableEq ι]

/-- Call `t`, in the given phase and with `q` still to do, compared with the
    serial execution `x` of the committed calls `order`. -/
def PhaseInv (P : Protection Loc M) (c : ι → Prog V M E α) (s : ∀ l, V l)
    (cfg : Config ι V M E α) (order : List ι) (x : (ι → Option α) × (∀ l, V l)) (t : ι)
    (q : Prog V M E α) : Phase M → Prop
  | .before => t ∉ order ∧
      ∀ y : ∀ l, V l, (∀ l, ¬ P.Resource l → y l = s l) → q.exec y = (c t).exec y
  | .inside m => t ∈ order ∧ cfg.owner m = some t ∧ P.level m = 0 ∧
      x.1 t = some (q.exec cfg.store).1 ∧ ∀ l, P.Guards m l → (q.exec cfg.store).2 l = x.2 l
  | .after => t ∈ order ∧ x.1 t = some (q.exec cfg.store).1

/-- Call `t` compared with the serial execution `x` of the committed calls. -/
def ThreadInv (P : Protection Loc M) (c : ι → Prog V M E α) (s : ∀ l, V l)
    (cfg : Config ι V M E α) (order : List ι) (x : (ι → Option α) × (∀ l, V l)) (t : ι) :
    Thread V M E α → Prop
  | .idle => t ∉ order
  | .done a => t ∈ order ∧ x.1 t = some a
  | .running q => ∃ ph, q.wp (sectionT P) (fun _ ph => ∀ m, ph ≠ .inside m) ph ∧
      PhaseInv P c s cfg order x t q ph

/-- **The invariant of the simulation**, with `order` the committed calls. -/
structure SerialInv (P : Protection Loc M) (c : ι → Prog V M E α) (s : ∀ l, V l)
    (h : List (Event ι)) (cfg : Config ι V M E α) (order : List ι) : Prop where
  nodup : order.Nodup
  thread : ∀ t, ThreadInv P c s cfg order (serial c order s) t (cfg.thread t)
  /-- no call writes a cell that is no resource -/
  const : ∀ l, ¬ P.Resource l → cfg.store l = s l ∧ (serial c order s).2 l = s l
  /-- a resource no call holds is as the serial execution leaves it -/
  free : ∀ m l, P.level m = 0 → P.Guards m l → cfg.owner m = none →
    cfg.store l = (serial c order s).2 l
  replied : ∀ t, .reply t ∈ h → t ∈ order
  realTime : ∀ t u, Precedes h t u → t ∈ order ∧ (u ∈ order → [t, u].Sublist order)

omit [DecidableEq ι] in
theorem precedes_snoc {h : List (Event ι)} {e : Event ι} {t u : ι} (hp : Precedes (h ++ [e]) t u) :
    Precedes h t u ∨ (e = .invoke u ∧ .reply t ∈ h) := by
  obtain ⟨h₁, h₂, he, ht, hu⟩ := hp
  rcases List.eq_nil_or_concat h₂ with rfl | ⟨h₂', e', rfl⟩
  · cases hu
  · rw [List.concat_eq_append, ← List.append_assoc] at he
    obtain ⟨rfl, he⟩ := List.append_inj' he rfl
    obtain rfl : e = e' := by simpa using he
    rw [List.concat_eq_append, List.mem_append, List.mem_singleton] at hu
    rcases hu with hu | rfl
    · exact Or.inl ⟨h₁, h₂', rfl, ht, hu⟩
    · exact Or.inr ⟨rfl, List.mem_append_left _ ht⟩

omit [DecidableEq Loc] [DecidableEq ι] in
theorem Instr.Inner.take {P : Protection Loc M} {i : Instr V M E} (hi : i.Inner P) {m : M}
    (h0 : P.level m = 0) (t : ι) (owner : M → Option ι) : i.take t owner m = owner m := by
  cases i with
  | lock m' intr =>
    cases intr with
    | true => rfl
    | false => exact Function.update_of_ne (fun he => (hi m h0).1 (by rw [he])) _ _
  | unlock m' => exact Function.update_of_ne (fun he => (hi m h0).2 (by rw [he])) _ _
  | _ => rfl

section
variable {P : Protection Loc M} {c : ι → Prog V M E α} {s : ∀ l, V l} {h : List (Event ι)}
  {cfg : Config ι V M E α} {order : List ι}

omit [DecidableEq M] [DecidableEq ι] in
/-- A call is not affected by what happens outside its section. -/
theorem ThreadInv.congr {cfg' : Config ι V M E α} {order' : List ι}
    {x x' : (ι → Option α) × (∀ l, V l)} {u : ι} {th : Thread V M E α}
    (hT : ThreadInv P c s cfg order x u th) (hmem : u ∈ order' ↔ u ∈ order) (hres : x'.1 u = x.1 u)
    (hown : ∀ m, P.level m = 0 → cfg.owner m = some u → cfg'.owner m = some u)
    (hconst : ∀ l, ¬ P.Resource l → cfg'.store l = cfg.store l)
    (hstore : ∀ m l, P.level m = 0 → P.Guards m l → cfg.owner m = some u →
      cfg'.store l = cfg.store l ∧ x'.2 l = x.2 l) : ThreadInv P c s cfg' order' x' u th := by
  cases th with
  | idle => exact fun hu => hT (hmem.1 hu)
  | done a => exact ⟨hmem.2 hT.1, hres.trans hT.2⟩
  | running q =>
    obtain ⟨ph, hq, hph⟩ := hT
    refine ⟨ph, hq, ?_⟩
    cases ph with
    | before => exact ⟨fun hu => hph.1 (hmem.1 hu), hph.2⟩
    | inside m =>
      obtain ⟨hu, ho, h0, hr, hx⟩ := hph
      obtain ⟨hr', hx'⟩ := section_agree (x := cfg'.store) (y := cfg.store) (by simp) hq
        fun l hl => hl.elim (hconst l) fun hl => (hstore m l h0 hl ho).1
      refine ⟨hmem.2 hu, hown m h0 ho, h0, ?_, fun l hl => ?_⟩
      · rw [hres, hr, hr']
      · rw [hx' l hl, hx l hl, (hstore m l h0 hl ho).2]
    | after =>
      obtain ⟨hu, hr⟩ := hph
      obtain ⟨hr', -⟩ := section_agree (x := cfg'.store) (y := cfg.store) (by simp) hq
        fun l hl => hl.elim (hconst l) fun hl => absurd hl (by simp [Phase.Own])
      exact ⟨hmem.2 hu, by rw [hres, hr, hr']⟩

namespace SerialInv

omit [DecidableEq M] in
theorem nodup_snoc (hI : SerialInv P c s h cfg order) {t : ι} (ht : t ∉ order) :
    (order ++ [t]).Nodup := by
  rw [← List.concat_eq_append]
  exact (List.nodup_concat order t).2 ⟨ht, hI.nodup⟩

omit [DecidableEq M] in
/-- The real-time part, for an order that may have grown at its end. -/
theorem realTime_snoc (hI : SerialInv P c s h cfg order) {e : Event ι} (new : List ι)
    (hinv : ∀ u, e = .invoke u → u ∉ order ++ new) :
    ∀ t u, Precedes (h ++ [e]) t u →
      t ∈ order ++ new ∧ (u ∈ order ++ new → [t, u].Sublist (order ++ new)) := by
  intro t u hp
  rcases precedes_snoc hp with hp | ⟨rfl, ht⟩
  · obtain ⟨ht, hsub⟩ := hI.realTime t u hp
    refine ⟨List.mem_append_left _ ht, fun hu => ?_⟩
    by_cases hu' : u ∈ order
    · exact (hsub hu').trans (List.sublist_append_left _ _)
    · have hun : u ∈ new := (List.mem_append.1 hu).resolve_left hu'
      exact (List.singleton_sublist.2 ht).append (List.singleton_sublist.2 hun)
  · exact ⟨List.mem_append_left _ (hI.replied t ht), fun hu => absurd hu (hinv u rfl)⟩

omit [DecidableEq M] in
theorem replied_snoc (hI : SerialInv P c s h cfg order) {e : Event ι} (new : List ι)
    (he : ∀ t, e = .reply t → t ∈ order ++ new) :
    ∀ t, .reply t ∈ h ++ [e] → t ∈ order ++ new := by
  intro t ht
  rcases List.mem_append.1 ht with ht | ht
  · exact List.mem_append_left _ (hI.replied t ht)
  · exact he t (List.mem_singleton.1 ht).symm

omit [DecidableEq M] in
/-- The serial execution of an uncommitted call, replayed from its current
    point. -/
theorem exec_uncommitted (hI : SerialInv P c s h cfg order) {t : ι} {q : Prog V M E α}
    (hq : ∀ y : ∀ l, V l, (∀ l, ¬ P.Resource l → y l = s l) → q.exec y = (c t).exec y) :
    serialStep c (serial c order s) t =
      (Function.update (serial c order s).1 t (some (q.exec (serial c order s).2).1),
        (q.exec (serial c order s).2).2) := by
  rw [serialStep, hq _ fun l hl => (hI.const l hl).2]

omit [DecidableEq M] in
theorem invoke (hc : ∀ t, Sectioned P (c t)) (hI : SerialInv P c s h cfg order) {t : ι}
    (ht : cfg.thread t = .idle) :
    SerialInv P c s (h ++ [.invoke t])
      { cfg with thread := Function.update cfg.thread t (.running (c t)) } order := by
  have hto : t ∉ order := by have := hI.thread t; rwa [ht] at this
  refine ⟨hI.nodup, fun u => ?_, hI.const, hI.free, ?_, ?_⟩
  · by_cases hu : u = t
    · subst hu
      simp only [Function.update_self]
      exact ⟨.before, hc u, hto, fun _ _ => rfl⟩
    · simp only [Function.update_of_ne hu]
      exact hI.thread u
  · simpa using hI.replied_snoc [] (e := .invoke t) (by simp)
  · simpa using hI.realTime_snoc [] (e := .invoke t) (by simp [hto])

omit [DecidableEq M] in
theorem reply (hI : SerialInv P c s h cfg order) {t : ι} {a : α}
    (ht : cfg.thread t = .running (.ret a)) :
    ∃ order', SerialInv P c s (h ++ [.reply t])
      { cfg with thread := Function.update cfg.thread t (.done a) } order' := by
  obtain ⟨ph, hq, hph⟩ : ∃ ph : Phase M, (∀ m, ph ≠ .inside m) ∧
      PhaseInv P c s cfg order (serial c order s) t (.ret a) ph := by
    have := hI.thread t; rwa [ht] at this
  cases ph with
  | before =>
    -- the call took no mutex of a resource: it commits now
    have hs : serialStep c (serial c order s) t =
        (Function.update (serial c order s).1 t (some a), (serial c order s).2) :=
      hI.exec_uncommitted hph.2
    refine ⟨order ++ [t], hI.nodup_snoc hph.1,
      fun u => ?_, ?_, ?_, hI.replied_snoc _ (by simp), hI.realTime_snoc _ nofun⟩
    · by_cases hu : u = t
      · subst hu
        simp only [Function.update_self, serial_snoc, hs]
        exact ⟨by simp, by simp⟩
      · simp only [Function.update_of_ne hu, serial_snoc, hs]
        exact (hI.thread u).congr (by simp [hu]) (by simp [hu]) (fun _ _ ho => ho)
          (fun _ _ => rfl) (fun _ _ _ _ _ => ⟨rfl, rfl⟩)
    · simpa only [serial_snoc, hs] using hI.const
    · simpa only [serial_snoc, hs] using hI.free
  | inside m => exact absurd rfl (hq m)
  | after =>
    refine ⟨order, hI.nodup, fun u => ?_, hI.const, hI.free, ?_, ?_⟩
    · by_cases hu : u = t
      · subst hu
        simp only [Function.update_self]
        exact ⟨hph.1, hph.2⟩
      · simp only [Function.update_of_ne hu]
        exact hI.thread u
    · simpa using hI.replied_snoc [] (e := .reply t) (by simpa using hph.1)
    · simpa using hI.realTime_snoc [] (e := .reply t) fun _ he => by cases he

/-- A step that neither enters nor leaves a section. -/
theorem inner (hI : SerialInv P c s h cfg order) {t : ι} {i : Instr V M E}
    {k : i.Resp → Prog V M E α} {ph : Phase M} (hi : i.Inner P)
    (hT : sectionT P i (fun r => (k r).wp (sectionT P) fun _ ph => ∀ m, ph ≠ .inside m) ph)
    (hk : (k (i.eff cfg.store).1).wp (sectionT P) (fun _ ph => ∀ m, ph ≠ .inside m) ph)
    (hph : PhaseInv P c s cfg order (serial c order s) t (.op i k) ph) :
    SerialInv P c s (h ++ [.step t]) ⟨(i.eff cfg.store).2, i.take t cfg.owner,
      Function.update cfg.thread t (.running (k (i.eff cfg.store).1))⟩ order := by
  have hown : ∀ m, P.level m = 0 → i.take t cfg.owner m = cfg.owner m := fun m h0 => hi.take h0 _ _
  have hstore : ∀ l, ¬ ph.Own P l → (i.eff cfg.store).2 l = cfg.store l := fun l hl =>
    Instr.eff_frame fun hw => hl ((sectionT_eff hT).2 l hw)
  -- the own cells of a phase are guarded by a mutex `t` owns
  have howned : ∀ m l, P.Guards m l → ph.Own P l → cfg.owner m = some t := by
    intro m l hg hl
    cases ph with
    | inside m' => exact P.unique hg hl ▸ hph.2.1
    | _ => exact absurd hl (by simp [Phase.Own])
  have hconst : ∀ l, ¬ P.Resource l → (i.eff cfg.store).2 l = cfg.store l := by
    intro l hl
    refine hstore l fun ho => hl ?_
    cases ph with
    | inside m => exact ⟨m, ho, hph.2.2.1⟩
    | _ => exact absurd ho (by simp [Phase.Own])
  refine ⟨hI.nodup, fun u => ?_, fun l hl => ⟨(hconst l hl).trans (hI.const l hl).1,
    (hI.const l hl).2⟩, fun m l h0 hg ho => ?_, ?_, ?_⟩
  · by_cases hu : u = t
    · subst hu
      simp only [Function.update_self]
      refine ⟨ph, hk, ?_⟩
      cases ph with
      | before =>
        refine ⟨hph.1, fun y hy => ?_⟩
        have hsy : ∀ l, i.Touches l → cfg.store l = y l := by
          intro l hl
          have hr : ¬ P.Resource l := ((sectionT_eff hT).1 l hl).resolve_right (by simp [Phase.Own])
          rw [(hI.const l hr).1, hy l hr]
        have hy' : (i.eff y).2 = y := funext fun l =>
          Instr.eff_frame fun hw => (sectionT_eff hT).2 l hw
        rw [← hph.2 y hy, Prog.exec_op, ← Instr.eff_agree hsy, hy']
      | inside m => exact ⟨hph.1, (hown m hph.2.2.1).trans hph.2.1, hph.2.2⟩
      | after => exact hph
    · simp only [Function.update_of_ne hu]
      refine (hI.thread u).congr Iff.rfl rfl (fun m h0 ho => (hown m h0).trans ho) hconst
        fun m l h0 hg ho => ⟨hstore l fun hl => hu ?_, rfl⟩
      have := howned m l hg hl
      rw [ho] at this
      exact Option.some.inj this
  · rw [← hI.free m l h0 hg ((hown m h0).symm.trans ho)]
    refine hstore l fun hl => ?_
    have hmt := howned m l hg hl
    have hmn : i.take t cfg.owner m = none := ho
    rw [← hown m h0, hmn] at hmt
    cases hmt
  · simpa using hI.replied_snoc [] (e := .step t) fun _ he => by cases he
  · simpa using hI.realTime_snoc [] (e := .step t) fun _ he => by cases he

/-- A step that enters a section: the call commits. -/
theorem enter (hI : SerialInv P c s h cfg order) {t : ι} {m : M} {k : Unit → Prog V M E α}
    (h0 : P.level m = 0) (hm : cfg.owner m = none)
    (hk : (k ()).wp (sectionT P) (fun _ ph => ∀ m, ph ≠ .inside m) (.inside m))
    (hph : PhaseInv P c s cfg order (serial c order s) t (.op (.lock m false) k) .before) :
    SerialInv P c s (h ++ [.step t]) ⟨cfg.store, Function.update cfg.owner m (some t),
      Function.update cfg.thread t (.running (k ()))⟩ (order ++ [t]) := by
  have hs : serialStep c (serial c order s) t =
      (Function.update (serial c order s).1 t (some ((k ()).exec (serial c order s).2).1),
        ((k ()).exec (serial c order s).2).2) := hI.exec_uncommitted hph.2
  have hframe : ∀ l, ¬ P.Guards m l →
      ((k ()).exec (serial c order s).2).2 l = (serial c order s).2 l :=
    fun l hl => section_frame (by simp) hk _ hl
  obtain ⟨hr, hx⟩ := section_agree (x := cfg.store) (y := (serial c order s).2) (by simp) hk
    fun l hl => hl.elim (fun hl => (hI.const l hl).1.trans (hI.const l hl).2.symm)
      fun hl => hI.free m l h0 hl hm
  refine ⟨hI.nodup_snoc hph.1, fun u => ?_,
    fun l hl => ?_, fun m' l h0' hg ho => ?_, hI.replied_snoc _ nofun,
    hI.realTime_snoc _ nofun⟩
  · by_cases hu : u = t
    · subst hu
      simp only [Function.update_self, serial_snoc, hs]
      exact ⟨.inside m, hk, by simp, by simp, h0, by simp [hr], hx⟩
    · simp only [Function.update_of_ne hu, serial_snoc, hs]
      have hne : ∀ m', cfg.owner m' = some u → m' ≠ m := by
        rintro m' ho rfl
        rw [hm] at ho; cases ho
      refine (hI.thread u).congr (by simp [hu]) (by simp [hu])
        (fun m' _ ho => (Function.update_of_ne (hne m' ho) _ _).trans ho) (fun _ _ => rfl)
        fun m' l _ hg ho => ⟨rfl, hframe l fun hl => hne m' ho (P.unique hg hl)⟩
  · simp only [serial_snoc, hs]
    exact ⟨(hI.const l hl).1, (hframe l fun hg => hl ⟨m, hg, h0⟩).trans (hI.const l hl).2⟩
  · have hne : m' ≠ m := by
      rintro rfl
      simp at ho
    replace ho : cfg.owner m' = none := (Function.update_of_ne hne _ _).symm.trans ho
    simp only [serial_snoc, hs]
    rw [hframe l fun hl => hne (P.unique hg hl)]
    exact hI.free m' l h0' hg ho

/-- A step that leaves a section: its resource is as in the serial execution. -/
theorem leave (hI : SerialInv P c s h cfg order) {t : ι} {m : M} {k : Unit → Prog V M E α}
    (hk : (k ()).wp (sectionT P) (fun _ ph => ∀ m, ph ≠ .inside m) .after)
    (hph : PhaseInv P c s cfg order (serial c order s) t (.op (.unlock m) k) (.inside m)) :
    SerialInv P c s (h ++ [.step t]) ⟨cfg.store, Function.update cfg.owner m none,
      Function.update cfg.thread t (.running (k ()))⟩ order := by
  obtain ⟨hto, hm, h0, hr, hx⟩ := hph
  replace hr : (serial c order s).1 t = some ((k ()).exec cfg.store).1 := hr
  replace hx : ∀ l, P.Guards m l → ((k ()).exec cfg.store).2 l = (serial c order s).2 l := hx
  refine ⟨hI.nodup, fun u => ?_, hI.const, fun m' l h0' hg ho => ?_, ?_, ?_⟩
  · by_cases hu : u = t
    · subst hu
      simp only [Function.update_self]
      exact ⟨.after, hk, hto, hr⟩
    · simp only [Function.update_of_ne hu]
      refine (hI.thread u).congr Iff.rfl rfl (fun m' _ ho => ?_) (fun _ _ => rfl)
        fun _ _ _ _ _ => ⟨rfl, rfl⟩
      refine (Function.update_of_ne ?_ _ _).trans ho
      rintro rfl
      rw [hm] at ho
      exact hu (Option.some.inj ho).symm
  · by_cases he : m' = m
    · subst he
      rw [← hx l hg]
      exact (section_frame (by simp) hk _ (by simp [Phase.Own])).symm
    · exact hI.free m' l h0' hg ((Function.update_of_ne he _ _).symm.trans ho)
  · simpa using hI.replied_snoc [] (e := .step t) fun _ he => by cases he
  · simpa using hI.realTime_snoc [] (e := .step t) fun _ he => by cases he

/-- Every step keeps the invariant. -/
theorem step (hc : ∀ t, Sectioned P (c t)) (hI : SerialInv P c s h cfg order) {e : Event ι}
    {cfg' : Config ι V M E α} (hs : Step c cfg e cfg') :
    ∃ order', SerialInv P c s (h ++ [e]) cfg' order' := by
  cases hs with
  | invoke ht => exact ⟨order, hI.invoke hc ht⟩
  | reply ht => exact hI.reply ht
  | @instr t i k ht hi =>
    obtain ⟨ph, hq, hph⟩ : ∃ ph,
        (Prog.op i k).wp (sectionT P) (fun _ ph => ∀ m, ph ≠ .inside m) ph ∧
        PhaseInv P c s cfg order (serial c order s) t (.op i k) ph := by
      have := hI.thread t; rwa [ht] at this
    rcases sectionT_next hq (i.eff cfg.store).1 with ⟨hin, hk⟩ | ⟨m, rfl, h0, rfl, hk⟩ |
      ⟨m, rfl, h0, rfl, hk⟩
    · exact ⟨order, hI.inner hin hq hk hph⟩
    · exact ⟨order ++ [t], hI.enter h0 hi hk hph⟩
    · exact ⟨order, hI.leave hk hph⟩

end SerialInv

/-- Every run of sectioned calls is simulated by a serial execution. -/
theorem Run.serialInv (hc : ∀ t, Sectioned P (c t)) (hr : Run c s h cfg) :
    ∃ order, SerialInv P c s h cfg order := by
  refine Run.invariant (I := fun h cfg => ∃ order, SerialInv P c s h cfg order) ?_ ?_ hr
  · refine ⟨[], List.nodup_nil, fun t => List.not_mem_nil, fun l _ => ⟨rfl, rfl⟩,
      fun _ _ _ _ _ => rfl, nofun, fun t u hp => ?_⟩
    obtain ⟨h₁, h₂, he, ht, -⟩ := hp
    rw [List.nil_eq_append_iff] at he
    rw [he.1] at ht; cases ht
  · rintro h cfg e cfg' ⟨order, hI⟩ hs
    exact hI.step hc hs

omit [DecidableEq M] in
/-- The replies of a run, and its store, are those of executing the calls that
    replied one after the other, in some order that keeps the order of calls
    that did not overlap. -/
def Serialisable (c : ι → Prog V M E α) (s : ∀ l, V l) (h : List (Event ι))
    (cfg : Config ι V M E α) : Prop :=
  ∃ order : List ι, order.Nodup ∧
    (∀ t, t ∈ order ↔ ∃ a, cfg.thread t = .done a) ∧
    (∀ t a, cfg.thread t = .done a → (serial c order s).1 t = some a) ∧
    (∀ t u, Precedes h t u → u ∈ order → [t, u].Sublist order) ∧
    cfg.store = (serial c order s).2

/-- **Calls with one critical section are serialisable**, when no call is in
    progress. -/
theorem Run.serialisable (hc : ∀ t, Disciplined P (c t))
    (hw : ∀ t, (c t).All fun i => ∀ l, i.Writes l → P.Resource l) (hr : Run c s h cfg)
    (hdone : ∀ t p, cfg.thread t ≠ .running p) : Serialisable c s h cfg := by
  obtain ⟨order, hI⟩ := hr.serialInv fun t => (hc t).sectioned (hw t)
  refine ⟨order, hI.nodup, fun t => ⟨fun hmem => ?_, fun ⟨a, hth⟩ => ?_⟩, fun t a hth => ?_,
    fun t u hp => (hI.realTime t u hp).2, funext fun l => ?_⟩
  · have ht := hI.thread t
    cases hth : cfg.thread t with
    | running p => exact absurd hth (hdone t p)
    | idle => rw [hth] at ht; exact absurd hmem ht
    | done a => exact ⟨a, rfl⟩
  · have ht := hI.thread t
    rw [hth] at ht
    exact ht.1
  · have ht := hI.thread t
    rw [hth] at ht
    exact ht.2
  · by_cases hl : P.Resource l
    · obtain ⟨m, hg, h0⟩ := hl
      refine hI.free m l h0 hg (Option.eq_none_iff_forall_ne_some.2 fun t => ?_)
      exact hr.released hc (fun i k => hdone t _) m
    · rw [(hI.const l hl).1, (hI.const l hl).2]

end

end Conc

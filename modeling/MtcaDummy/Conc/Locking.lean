/-
  Lock discipline.

  A `Protection` says which cells a mutex guards and at which level it is
  taken.  `Disciplined P p` is the judgement, by `wp` over the stack of the
  mutexes held, that the program `p`

  * takes a mutex only if it does not hold it, and only at a level above all
    the mutexes it holds; a mutex of level `0` only once;
  * releases the mutex it took last, and holds none when it returns;
  * touches a guarded cell only while it holds the mutex guarding it.

  In a system of disciplined calls this is what happens in every reachable
  configuration (`Run.obeys`, `Run.released`; the calls may be disciplined each
  in the sense of a protection of its own), calls never wait for each other
  in a cycle (`Run.acyclic`), behind every waiting call is one that can step
  (`Run.unblocked`), and a call that runs while no other call holds a mutex does
  what `exec` says (`Run.solo`).
-/
import MtcaDummy.Conc.System
import Mathlib.Logic.Relation

namespace Conc

variable {Loc : Type} {V : Loc → Type} {M E : Type} {α β : Type} {ι : Type}

/-- Which cells a mutex guards, and the level it is taken at. -/
structure Protection (Loc M : Type) where
  Guards : M → Loc → Prop
  level : M → ℕ
  unique : ∀ {m m' l}, Guards m l → Guards m' l → m = m'

/-- The mutexes a program holds, the last taken first, and whether it has
    taken one of level `0`. -/
structure Held (M : Type) where
  stack : List M
  spent : Bool

/-- No mutex held or taken yet. -/
def Held.none : Held M := ⟨[], false⟩

/-- The discipline of the single instructions. -/
def lockT (P : Protection Loc M) (i : Instr V M E) (Q : i.Resp → Held M → Prop) (st : Held M) :
    Prop :=
  match i with
  | .lock m intr =>
    m ∉ st.stack ∧ (∀ m' ∈ st.stack, P.level m' < P.level m) ∧
      (P.level m = 0 → st.spent = false) ∧
      if intr then Q () st else Q () ⟨m :: st.stack, st.spent || P.level m == 0⟩
  | .unlock m => ∃ rest, st.stack = m :: rest ∧ Q () ⟨rest, st.spent⟩
  | .load l => (∀ m, P.Guards m l → m ∈ st.stack) ∧ ∀ r, Q r st
  | .store l _ => (∀ m, P.Guards m l → m ∈ st.stack) ∧ Q () st
  | .modify l _ => (∀ m, P.Guards m l → m ∈ st.stack) ∧ ∀ r, Q r st
  | .note _ => Q () st

/-- The program keeps the discipline and returns with no mutex held. -/
def Disciplined (P : Protection Loc M) (p : Prog V M E α) : Prop :=
  p.wp (lockT P) (fun _ st => st.stack = []) Held.none

theorem lockT_mono (P : Protection Loc M) : Prog.Mono (lockT (V := V) (E := E) P) := by
  intro i Q Q' st h hT
  cases i with
  | lock m intr =>
    obtain ⟨h₁, h₂, h₃, h₄⟩ := hT
    refine ⟨h₁, h₂, h₃, ?_⟩
    cases intr with
    | true => exact h _ _ h₄
    | false => exact h _ _ h₄
  | unlock m =>
    obtain ⟨rest, hr, hQ⟩ := hT
    exact ⟨rest, hr, h _ _ hQ⟩
  | load l => exact ⟨hT.1, fun r => h _ _ (hT.2 r)⟩
  | store l v => exact ⟨hT.1, h _ _ hT.2⟩
  | modify l f => exact ⟨hT.1, fun r => h _ _ (hT.2 r)⟩
  | note e => exact h _ _ hT

/-- Every response is provided for. -/
theorem lockT_resp {P : Protection Loc M} {i : Instr V M E} {Q : i.Resp → Held M → Prop}
    {st : Held M} (h : lockT P i Q st) (r : i.Resp) : ∃ st', Q r st' := by
  cases i with
  | lock m intr =>
    cases intr with
    | true => exact ⟨_, h.2.2.2⟩
    | false => exact ⟨_, h.2.2.2⟩
  | unlock m => exact h.elim fun rest hr => ⟨_, hr.2⟩
  | load l => exact ⟨_, h.2 r⟩
  | store l v => exact ⟨_, h.2⟩
  | modify l f => exact ⟨_, h.2 r⟩
  | note e => exact ⟨_, h⟩

/-! ## The discipline along a run -/

/-- The instruction of call `t` is allowed by the mutexes `t` owns. -/
def Instr.Obeys (P : Protection Loc M) (owner : M → Option ι) (t : ι) : Instr V M E → Prop
  | .lock m _ => owner m ≠ some t ∧ ∀ m', owner m' = some t → P.level m' < P.level m
  | .unlock m => owner m = some t
  | i => ∀ l m, i.Touches l → P.Guards m l → owner m = some t

/-- A guarded cell is touched only by the owner of its mutex. -/
theorem Instr.Obeys.guarded {P : Protection Loc M} {owner : M → Option ι} {t : ι}
    {i : Instr V M E} (h : i.Obeys P owner t) {l : Loc} {m : M} (ht : i.Touches l)
    (hg : P.Guards m l) : owner m = some t := by
  cases ht with
  | load => exact h l m .load hg
  | store => exact h l m .store hg
  | modify => exact h l m .modify hg

/-- The stack of a call is what it owns. -/
structure Held.Owns (owner : M → Option ι) (t : ι) (st : Held M) : Prop where
  nodup : st.stack.Nodup
  mem_iff : ∀ m, m ∈ st.stack ↔ owner m = some t

/-- What a call in progress still has to do keeps the discipline, given the
    mutexes it owns; any other call owns none. -/
def Thread.Ok (P : Protection Loc M) (owner : M → Option ι) (t : ι) : Thread V M E α → Prop
  | .running p => ∃ st : Held M, st.Owns owner t ∧ p.wp (lockT P) (fun _ st => st.stack = []) st
  | _ => ∀ m, owner m ≠ some t

/-- What the discipline allows is allowed by the owners. -/
theorem lockT_obeys {P : Protection Loc M} {owner : M → Option ι} {t : ι} {i : Instr V M E}
    {Q : i.Resp → Held M → Prop} {st : Held M} (hst : st.Owns owner t) (h : lockT P i Q st) :
    i.Obeys P owner t := by
  cases i with
  | lock m intr =>
    refine ⟨fun ho => h.1 ((hst.mem_iff m).2 ho), fun m' ho => h.2.1 m' ((hst.mem_iff m').2 ho)⟩
  | unlock m =>
    obtain ⟨rest, hr, -⟩ := h
    exact (hst.mem_iff m).1 (by simp [hr])
  | load l =>
    intro l' m hl hg
    rw [Instr.touches_load] at hl; subst hl
    exact (hst.mem_iff m).1 (h.1 m hg)
  | store l v =>
    intro l' m hl hg
    rw [Instr.touches_store] at hl; subst hl
    exact (hst.mem_iff m).1 (h.1 m hg)
  | modify l f =>
    intro l' m hl hg
    rw [Instr.touches_modify] at hl; subst hl
    exact (hst.mem_iff m).1 (h.1 m hg)
  | note e => intro l m hl; simp at hl

section
variable [DecidableEq M]

/-- The discipline after the instruction, for the owners after it. -/
theorem lockT_take {P : Protection Loc M} {owner : M → Option ι} {t : ι} {i : Instr V M E}
    {Q : i.Resp → Held M → Prop} {st : Held M} (hst : st.Owns owner t) (h : lockT P i Q st)
    (r : i.Resp) : ∃ st', st'.Owns (i.take t owner) t ∧ Q r st' := by
  cases i with
  | lock m intr =>
    obtain ⟨hm, -, -, hQ⟩ := h
    cases intr with
    | true => exact ⟨st, hst, hQ⟩
    | false =>
      refine ⟨_, ⟨List.nodup_cons.2 ⟨hm, hst.nodup⟩, fun m' => ?_⟩, hQ⟩
      by_cases he : m' = m
      · subst he; simp [Instr.take]
      · simp [Instr.take, he, hst.mem_iff]
  | unlock m =>
    obtain ⟨rest, hr, hQ⟩ := h
    have hnd := hst.nodup
    rw [hr, List.nodup_cons] at hnd
    refine ⟨_, ⟨hnd.2, fun m' => ?_⟩, hQ⟩
    by_cases he : m' = m
    · subst he; simp [Instr.take, hnd.1]
    · rw [Instr.take, Function.update_of_ne he, ← hst.mem_iff, hr]; simp [he]
  | load l => exact ⟨st, hst, h.2 r⟩
  | store l v => exact ⟨st, hst, h.2⟩
  | modify l f => exact ⟨st, hst, h.2 r⟩
  | note e => exact ⟨st, hst, h⟩

/-- An instruction does not change what other calls own. -/
theorem take_other {P : Protection Loc M} {owner : M → Option ι} {t u : ι} {i : Instr V M E}
    (hi : i.Enabled owner) (ho : i.Obeys P owner t) (hu : u ≠ t) (m : M) :
    i.take t owner m = some u ↔ owner m = some u := by
  cases i with
  | lock m' intr =>
    cases intr with
    | true => rfl
    | false =>
      by_cases he : m = m'
      · subst he
        have hn : owner m = none := hi
        simp [Instr.take, hn, hu.symm]
      · simp [Instr.take, Function.update_of_ne he]
  | unlock m' =>
    by_cases he : m = m'
    · subst he
      have hn : owner m = some t := ho
      simp [Instr.take, hn, hu.symm]
    · simp [Instr.take, Function.update_of_ne he]
  | _ => rfl

theorem Thread.Ok.other {P P' : Protection Loc M} {owner : M → Option ι} {t u : ι}
    {i : Instr V M E} {th : Thread V M E α} (hi : i.Enabled owner) (ho : i.Obeys P' owner t)
    (hu : u ≠ t) (h : th.Ok P owner u) : th.Ok P (i.take t owner) u := by
  cases th with
  | running p =>
    obtain ⟨st, hst, hp⟩ := h
    exact ⟨st, ⟨hst.nodup, fun m => (hst.mem_iff m).trans (take_other hi ho hu m).symm⟩, hp⟩
  | idle => exact fun m hm => h m ((take_other hi ho hu m).1 hm)
  | done a => exact fun m hm => h m ((take_other hi ho hu m).1 hm)

end

variable [DecidableEq Loc] [DecidableEq M] [DecidableEq ι]
  {P : Protection Loc M} {c : ι → Prog V M E α} {s : ∀ l, V l} {h : List (Event ι)}
  {cfg : Config ι V M E α}

section
variable {P : ι → Protection Loc M}

/-- **In a system of disciplined calls every call stays disciplined**, each in
    the sense of its own protection. -/
theorem Run.ok (hc : ∀ t, Disciplined (P t) (c t)) (hr : Run c s h cfg) :
    ∀ t, (cfg.thread t).Ok (P t) cfg.owner t := by
  refine Run.invariant (I := fun _ cfg => ∀ t, (cfg.thread t).Ok (P t) cfg.owner t)
    (fun t m hm => by cases hm) ?_ hr
  intro h cfg e cfg' ih hs u
  cases hs with
  | @invoke t ht =>
    by_cases hu : u = t
    · subst hu
      have hn : ∀ m, cfg.owner m ≠ some u := by have := ih u; rwa [ht] at this
      simp only [Function.update_self]
      exact ⟨Held.none, ⟨List.nodup_nil, fun m => by simp [Held.none, hn m]⟩, hc u⟩
    · simpa only [Function.update_of_ne hu] using ih u
  | @instr t i k ht hi =>
    obtain ⟨st, hst, hp⟩ : ∃ st : Held M, st.Owns cfg.owner t ∧
        (Prog.op i k).wp (lockT (P t)) (fun _ st => st.stack = []) st := by
      have := ih t; rwa [ht] at this
    by_cases hu : u = t
    · subst hu
      simp only [Function.update_self]
      exact lockT_take hst hp _
    · simp only [Function.update_of_ne hu]
      exact (ih u).other hi (lockT_obeys hst hp) hu
  | @reply t a ht =>
    by_cases hu : u = t
    · subst hu
      obtain ⟨st, hst, hp⟩ : ∃ st : Held M, st.Owns cfg.owner u ∧ st.stack = [] := by
        have := ih u; rwa [ht] at this
      simp only [Function.update_self]
      intro m hm
      have := (hst.mem_iff m).2 hm
      rw [hp] at this; cases this
    · simpa only [Function.update_of_ne hu] using ih u

/-- **Every instruction of a call in progress is allowed by what it owns.** -/
theorem Run.obeys (hc : ∀ t, Disciplined (P t) (c t)) (hr : Run c s h cfg) {t : ι}
    {i : Instr V M E} {k : i.Resp → Prog V M E α} (ht : cfg.thread t = .running (.op i k)) :
    i.Obeys (P t) cfg.owner t := by
  have := hr.ok hc t
  rw [ht] at this
  obtain ⟨st, hst, hp⟩ := this
  exact lockT_obeys hst hp

/-- **A call that is not in progress, or about to reply, owns no mutex.** -/
theorem Run.released (hc : ∀ t, Disciplined (P t) (c t)) (hr : Run c s h cfg) {t : ι}
    (ht : ∀ i k, cfg.thread t ≠ .running (.op i k)) (m : M) : cfg.owner m ≠ some t := by
  have hok := hr.ok hc t
  cases hth : cfg.thread t with
  | idle => rw [hth] at hok; exact hok m
  | done a => rw [hth] at hok; exact hok m
  | running p =>
    cases p with
    | ret a =>
      rw [hth] at hok
      obtain ⟨st, hst, hp⟩ := hok
      have hnil : st.stack = [] := hp
      intro ho
      have := (hst.mem_iff m).2 ho
      rw [hnil] at this; cases this
    | op i k => exact absurd hth (ht i k)

end

/-! ## Waiting -/

/-- Call `t` is at an attempt to take `m`. -/
def Config.Wants (cfg : Config ι V M E α) (t : ι) (m : M) : Prop :=
  ∃ intr k, cfg.thread t = .running (.op (.lock m intr) k)

/-- Call `t` waits for call `u`: it is at an attempt to take a mutex `u` owns. -/
def Config.Waits (cfg : Config ι V M E α) (t u : ι) : Prop :=
  ∃ m, cfg.Wants t m ∧ cfg.owner m = some u

omit [DecidableEq Loc] [DecidableEq M] [DecidableEq ι] in
theorem Config.Wants.inj {t : ι} {m m' : M} (h : cfg.Wants t m) (h' : cfg.Wants t m') :
    m = m' := by
  obtain ⟨b, k, h⟩ := h
  obtain ⟨b', k', h'⟩ := h'
  rw [h] at h'
  injection h' with h'
  injection h' with h'
  injection h'

/-- Along a chain of waiting calls the wanted mutexes have increasing levels. -/
theorem Run.level_lt (hc : ∀ t, Disciplined P (c t)) (hr : Run c s h cfg) {t u : ι}
    (hw : Relation.TransGen cfg.Waits t u) {m m' : M} (ht : cfg.Wants t m)
    (hu : cfg.Wants u m') : P.level m < P.level m' := by
  have hstep : ∀ {t u m m'}, cfg.Waits t u → cfg.Wants t m → cfg.Wants u m' →
      P.level m < P.level m' := by
    rintro t u m m' ⟨n, hn, ho⟩ ht ⟨b, k, hu⟩
    rw [ht.inj hn]
    exact (hr.obeys hc hu).2 n ho
  induction hw generalizing m' with
  | single hw => exact hstep hw ht hu
  | tail _ hw ih =>
    obtain ⟨n, hn, -⟩ := id hw
    exact (ih hn).trans (hstep hw hn hu)

/-- **No deadlock.**  Calls never wait for each other in a cycle. -/
theorem Run.acyclic (hc : ∀ t, Disciplined P (c t)) (hr : Run c s h cfg) (t : ι) :
    ¬ Relation.TransGen cfg.Waits t t := by
  intro hw
  obtain ⟨u, ⟨m, hm, -⟩, -⟩ := (Relation.TransGen.head'_iff).1 hw
  exact absurd (hr.level_lt hc hw hm hm) (lt_irrefl _)

/-- A call can take a step. -/
def Config.CanStep (c : ι → Prog V M E α) (cfg : Config ι V M E α) (t : ι) : Prop :=
  ∃ e cfg', Step c cfg e cfg' ∧ (e = .step t ∨ e = .reply t)

theorem Config.canStep_or_waits {t : ι} {p : Prog V M E α} (ht : cfg.thread t = .running p) :
    cfg.CanStep c t ∨ ∃ u, cfg.Waits t u := by
  cases p with
  | ret a => exact Or.inl ⟨_, _, .reply ht, Or.inr rfl⟩
  | op i k =>
    by_cases hi : i.Enabled cfg.owner
    · exact Or.inl ⟨_, _, .instr ht hi, Or.inl rfl⟩
    · right
      cases i with
      | lock m intr =>
        cases intr with
        | true => exact absurd trivial hi
        | false =>
          obtain ⟨u, hu⟩ := Option.ne_none_iff_exists'.1 hi
          exact ⟨u, m, ⟨false, k, ht⟩, hu⟩
      | _ => exact absurd trivial hi

/-- **Progress.**  If the levels are bounded, a call in progress can step, or
    it waits, along a chain of waiting calls, for one that can. -/
theorem Run.unblocked (hc : ∀ t, Disciplined P (c t)) (hr : Run c s h cfg) {n : ℕ}
    (hn : ∀ m, P.level m ≤ n) {t : ι} {p : Prog V M E α} (ht : cfg.thread t = .running p) :
    ∃ u, Relation.ReflTransGen cfg.Waits t u ∧ cfg.CanStep c u := by
  -- induction on how far the wanted mutex is below the top level
  have key : ∀ k t p, cfg.thread t = .running p → (∀ m, cfg.Wants t m → n < P.level m + k) →
      ∃ u, Relation.ReflTransGen cfg.Waits t u ∧ cfg.CanStep c u := by
    intro k
    induction k with
    | zero =>
      intro t p ht hlev
      rcases Config.canStep_or_waits ht with hs | ⟨u, m, hm, -⟩
      · exact ⟨t, .refl, hs⟩
      · exact absurd (hlev m hm) (by have := hn m; omega)
    | succ k ih =>
      intro t p ht hlev
      rcases Config.canStep_or_waits ht with hs | ⟨u, m, hm, ho⟩
      · exact ⟨t, .refl, hs⟩
      · have hrun : ∃ q, cfg.thread u = .running q := by
          cases hu : cfg.thread u with
          | running q => exact ⟨q, rfl⟩
          | _ => exact absurd ho (hr.released hc (by simp [hu]) m)
        obtain ⟨q, hq⟩ := hrun
        obtain ⟨v, hv, hs⟩ := ih u q hq fun m' hm' => by
          have h₁ := hlev m hm
          have h₂ := hr.level_lt hc (.single ⟨m, hm, ho⟩) hm hm'
          omega
        exact ⟨v, .head ⟨m, hm, ho⟩ hv, hs⟩
  exact key (n + 1) t p ht fun m _ => by omega

/-! ## Solo runs -/

/-- The configuration after call `t`, the only one to hold mutexes, has run
    the rest `p` of its program. -/
def Config.finish (cfg : Config ι V M E α) (t : ι) (p : Prog V M E α) : Config ι V M E α :=
  ⟨(p.exec cfg.store).2, fun _ => none,
    Function.update cfg.thread t (.done (p.exec cfg.store).1)⟩

omit [DecidableEq M] in
theorem Config.finish_thread (cfg : Config ι V M E α) (t : ι) (p : Prog V M E α) :
    (cfg.finish t p).thread t = .done (p.exec cfg.store).1 :=
  Function.update_self ..

/-- **A call that runs while no other call holds a mutex does what `exec`
    says.** -/
theorem Run.solo {t : ι} {p : Prog V M E α} {st : Held M} (hr : Run c s h cfg)
    (ht : cfg.thread t = .running p) (hst : st.Owns cfg.owner t)
    (hfree : ∀ m u, cfg.owner m = some u → u = t)
    (hp : p.wp (lockT P) (fun _ st => st.stack = []) st) :
    ∃ h', Run c s (h ++ h') (cfg.finish t p) ∧ ∀ e ∈ h', e = .step t ∨ e = .reply t := by
  induction p generalizing h cfg st with
  | ret a =>
    refine ⟨[.reply t], ?_, fun e he => Or.inr (List.mem_singleton.1 he)⟩
    have hnone : cfg.owner = fun _ => none := by
      funext m
      refine Option.eq_none_iff_forall_ne_some.2 fun u hu => ?_
      have hnil : st.stack = [] := hp
      have hm := (hst.mem_iff m).2 (hfree m u hu ▸ hu)
      rw [hnil] at hm
      cases hm
    have hstep := hr.snoc (.reply ht)
    rw [hnone] at hstep
    exact hstep
  | op i k ih =>
    have hobey := lockT_obeys hst hp
    have hen : i.Enabled cfg.owner := by
      cases i with
      | lock m intr =>
        cases intr with
        | true => trivial
        | false =>
          exact Option.eq_none_iff_forall_ne_some.2 fun u hu => hobey.1 (hfree m u hu ▸ hu)
      | _ => trivial
    obtain ⟨st', hst', hk⟩ := lockT_take hst hp (i.eff cfg.store).1
    have hfree' : ∀ m u, i.take t cfg.owner m = some u → u = t := fun m u hu => by
      by_contra hne
      exact hne (hfree m u ((take_other hen hobey hne m).1 hu))
    obtain ⟨h', hrun, hev⟩ :=
      ih _ (hr.snoc (.instr ht hen)) (Function.update_self ..) hst' hfree' hk
    refine ⟨.step t :: h', ?_, ?_⟩
    · rw [List.append_assoc] at hrun
      have hfin : Config.finish ⟨(i.eff cfg.store).2, i.take t cfg.owner,
          Function.update cfg.thread t (.running (k (i.eff cfg.store).1))⟩ t
          (k (i.eff cfg.store).1) = cfg.finish t (.op i k) := by
        simp [Config.finish, Prog.exec_op]
      rwa [hfin] at hrun
    · intro e he
      rcases List.mem_cons.1 he with rfl | he
      · exact Or.inl rfl
      · exact hev e he

/-- A call that is invoked while no mutex is held, and then runs alone. -/
theorem Run.call {t : ι} (hr : Run c s h cfg) (ht : cfg.thread t = .idle)
    (hfree : ∀ m, cfg.owner m = none) (hc : Disciplined P (c t)) :
    ∃ h', Run c s (h ++ h') (cfg.finish t (c t)) := by
  have hinv := hr.snoc (.invoke ht)
  obtain ⟨h', hrun, -⟩ := hinv.solo (p := c t) (Function.update_self ..)
    ⟨List.nodup_nil, fun m => by simp [Held.none, hfree m]⟩
    (fun m u hu => by simp [hfree m] at hu) hc
  have hfin : Config.finish { cfg with thread := Function.update cfg.thread t (.running (c t)) } t
      (c t) = cfg.finish t (c t) := by
    simp [Config.finish]
  rw [hfin, List.append_assoc] at hrun
  exact ⟨_, hrun⟩

end Conc

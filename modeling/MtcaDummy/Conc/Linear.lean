/-
  Linearisability of calls that share more than resources.

  Besides the cells of one resource, a call may access cells in a set `K` that
  other calls change at any time: flags, counters.  `Prog.told K o p` is the
  program `p` without these accesses; the `n`-th is answered as in the store
  `o n`.

  * `Run.told`: the calls of a run do what they do without the accesses to `K`,
    each told what it found there, at successive moments while it was in
    progress (`Moments`).
  * `Run.linearises`: told so, the calls are serialisable.
  * `Prog.told_once`: a program that accesses no cell in `K` twice does, told,
    what it does alone from a store that holds what it was told.
-/
import MtcaDummy.Conc.Serial
import Mathlib.Data.List.Induction
import Mathlib.Order.Monotone.Basic

namespace Conc

variable {Loc : Type} {V : Loc → Type} {M E : Type} {α : Type} {ι : Type}

/-! ## Programs that are told some cells -/

/-- The instruction accesses a cell in `K`. -/
def Instr.Meets (K : Loc → Prop) : Instr V M E → Prop
  | load l | store l _ | modify l _ => K l
  | _ => False

instance (K : Loc → Prop) [hK : DecidablePred K] (i : Instr V M E) : Decidable (i.Meets K) :=
  match i with
  | .load l | .store l _ | .modify l _ => hK l
  | .lock _ _ | .unlock _ | .note _ => instDecidableFalse

theorem Instr.meets_iff {K : Loc → Prop} {i : Instr V M E} :
    i.Meets K ↔ ∃ l, i.Touches l ∧ K l := by
  cases i with
  | load l => simp [Meets]
  | store l v => simp [Meets]
  | modify l f => simp [Meets]
  | _ => simp [Meets]

namespace Prog
variable [DecidableEq Loc] (K : Loc → Prop) [DecidablePred K]

/-- The program without its accesses to `K`: the `n`-th is answered as in the
    store `o n`. -/
def told (o : ℕ → ∀ l, V l) : Prog V M E α → ℕ → Prog V M E α
  | ret a, _ => ret a
  | op i k, n =>
    if i.Meets K then (k (i.eff (o n)).1).told o (n + 1) else op i fun r => (k r).told o n

variable {K} {o : ℕ → ∀ l, V l} {i : Instr V M E} {k : i.Resp → Prog V M E α}

@[simp] theorem told_ret (a : α) (n : ℕ) : (ret a : Prog V M E α).told K o n = ret a := rfl

theorem told_op_of (h : i.Meets K) (n : ℕ) :
    (op i k).told K o n = (k (i.eff (o n)).1).told K o (n + 1) := if_pos h

theorem told_op_of_not (h : ¬ i.Meets K) (n : ℕ) :
    (op i k).told K o n = op i fun r => (k r).told K o n := if_neg h

/-- What is left of a program keeps what held of all its instructions. -/
theorem All.told {P : Instr V M E → Prop} {p : Prog V M E α} (hp : p.All P) (n : ℕ) :
    (p.told K o n).All fun i => P i ∧ ¬ i.Meets K := by
  induction p generalizing n with
  | ret a => trivial
  | op i k ih =>
    by_cases hi : i.Meets K
    · rw [told_op_of hi]
      exact ih _ (hp.2 _) _
    · rw [told_op_of_not hi]
      exact ⟨⟨hp.1, hi⟩, fun r => ih r (hp.2 r) n⟩

end Prog

/-- An access to a cell takes and releases no mutex. -/
theorem lockT_of_meets {P : Protection Loc M} {K : Loc → Prop} {i : Instr V M E}
    {Q : i.Resp → Held M → Prop} {st : Held M} (hi : i.Meets K) (h : lockT P i Q st)
    (r : i.Resp) : Q r st := by
  cases i with
  | load l => exact h.2 r
  | store l v => exact h.2
  | modify l f => exact h.2 r
  | _ => exact hi.elim

section
variable [DecidableEq Loc] {K : Loc → Prop} [DecidablePred K] {o : ℕ → ∀ l, V l}

/-- What is left of a disciplined program is disciplined. -/
theorem Disciplined.told {P : Protection Loc M} {p : Prog V M E α} (h : Disciplined P p) (n : ℕ) :
    Disciplined P (p.told K o n) := by
  have key : ∀ (p : Prog V M E α) n (st : Held M), p.wp (lockT P) (fun _ st => st.stack = []) st →
      (p.told K o n).wp (lockT P) (fun _ st => st.stack = []) st := by
    intro p
    induction p with
    | ret a => exact fun n st h => h
    | op i k ih =>
      intro n st h
      by_cases hi : i.Meets K
      · rw [Prog.told_op_of hi]
        exact ih _ _ _ (lockT_of_meets hi h _)
      · rw [Prog.told_op_of_not hi]
        exact lockT_mono P i _ _ st (fun r st hr => ih r n st hr) h
  exact key p n _ h

/-- Where a call is, told what it finds. -/
def Thread.told (K : Loc → Prop) [DecidablePred K] (o : ℕ → ∀ l, V l) (n : ℕ) :
    Thread V M E α → Thread V M E α
  | .idle => .idle
  | .running p => .running (p.told K o n)
  | .done a => .done a

/-- `cfg'` is `cfg` without the accesses to `K`: call `t` has been told `n t`
    times what it finds. -/
structure Config.Tells (K : Loc → Prop) [DecidablePred K] (o : ι → ℕ → ∀ l, V l) (n : ι → ℕ)
    (cfg cfg' : Config ι V M E α) : Prop where
  store : ∀ l, ¬ K l → cfg'.store l = cfg.store l
  owner : cfg'.owner = cfg.owner
  thread : ∀ t, cfg'.thread t = (cfg.thread t).told K (o t) (n t)

end

/-! ## Invocations and replies -/

/-- The event is an invocation or a reply. -/
def Event.IsEdge : Event ι → Bool
  | step _ => false
  | _ => true

/-- The invocations and replies of a history. -/
def edges (h : List (Event ι)) : List (Event ι) := h.filter Event.IsEdge

theorem edges_snoc (h : List (Event ι)) (e : Event ι) :
    edges (h ++ [e]) = edges h ++ if e.IsEdge then [e] else [] := by
  cases e <;> simp [edges, Event.IsEdge]

theorem precedes_iff_sublist {h : List (Event ι)} {t u : ι} :
    Precedes h t u ↔ [Event.reply t, .invoke u].Sublist h := by
  rw [List.cons_sublist_iff]
  simp only [Precedes, List.singleton_sublist]

/-- What precedes what is told by the invocations and replies. -/
theorem precedes_edges {h : List (Event ι)} {t u : ι} :
    Precedes (edges h) t u ↔ Precedes h t u := by
  rw [precedes_iff_sublist, precedes_iff_sublist]
  constructor
  · exact fun hs => hs.trans List.filter_sublist
  · exact fun hs => hs.filter Event.IsEdge

/-! ## Moments -/

variable [DecidableEq Loc] [DecidableEq M] [DecidableEq ι]

/-- The stores `seen 0`, `seen 1`, ... are those of successive moments at which
    call `t` is in progress. -/
def Moments (c : ι → Prog V M E α) (s : ∀ l, V l) (h : List (Event ι)) (t : ι)
    (seen : ℕ → ∀ l, V l) : Prop :=
  ∃ pos : ℕ → ℕ, Monotone pos ∧ ∀ n, pos n ≤ h.length ∧
    ∃ cfg p, Run c s (h.take (pos n)) cfg ∧ cfg.thread t = .running p ∧ cfg.store = seen n

section
variable {c : ι → Prog V M E α} {s : ∀ l, V l} {h : List (Event ι)} {cfg : Config ι V M E α}
  {t : ι} {p : Prog V M E α} {seen : ℕ → ∀ l, V l}

theorem Moments.snoc (hm : Moments c s h t seen) (e : Event ι) :
    Moments c s (h ++ [e]) t seen := by
  obtain ⟨pos, hmono, hpos⟩ := hm
  refine ⟨pos, hmono, fun n => ?_⟩
  obtain ⟨hle, hrun⟩ := hpos n
  rw [List.take_append_of_le_length hle, List.length_append]
  exact ⟨Nat.le_add_right_of_le hle, hrun⟩

/-- The moment now. -/
theorem Moments.now (hr : Run c s h cfg) (ht : cfg.thread t = .running p) :
    Moments c s h t fun _ => cfg.store := by
  refine ⟨fun _ => h.length, monotone_const, fun n => ⟨Nat.le_refl _, cfg, p, ?_, ht, rfl⟩⟩
  rwa [List.take_length]

/-- From the `n`-th on, the moment now. -/
theorem Moments.extend (hm : Moments c s h t seen) (hr : Run c s h cfg)
    (ht : cfg.thread t = .running p) (n : ℕ) :
    Moments c s h t fun i => if i < n then seen i else cfg.store := by
  obtain ⟨pos, hmono, hpos⟩ := hm
  refine ⟨fun i => if i < n then pos i else h.length, fun i j hij => ?_, fun i => ?_⟩
  · dsimp only
    by_cases hj : j < n
    · rw [if_pos hj, if_pos (Nat.lt_of_le_of_lt hij hj)]
      exact hmono hij
    · rw [if_neg hj]
      split
      · exact (hpos i).1
      · exact Nat.le_refl _
  · dsimp only
    by_cases hi : i < n
    · simp only [if_pos hi]
      exact hpos i
    · simp only [if_neg hi, List.take_length]
      exact ⟨Nat.le_refl _, cfg, p, hr, ht, rfl⟩

end

/-! ## The simulation -/

section
variable {K : Loc → Prop} [DecidablePred K] {c : ι → Prog V M E α} {s : ∀ l, V l}
  {o : ι → ℕ → ∀ l, V l} {n : ι → ℕ} {cfg cfg' : Config ι V M E α} {t : ι}
  {i : Instr V M E} {k : i.Resp → Prog V M E α}

namespace Config.Tells

omit [DecidableEq M] in
theorem update (hT : Tells K o n cfg cfg') {n' : ι → ℕ} (hn : ∀ u, u ≠ t → n' u = n u)
    (th : Thread V M E α) (u : ι) :
    Function.update cfg'.thread t (th.told K (o t) (n' t)) u =
      (Function.update cfg.thread t th u).told K (o u) (n' u) := by
  by_cases hu : u = t
  · subst hu
    rw [Function.update_self, Function.update_self]
  · rw [Function.update_of_ne hu, Function.update_of_ne hu, hn u hu]
    exact hT.thread u

theorem invoke (hT : Tells K o n cfg cfg') (ht : cfg.thread t = .idle) :
    ∃ cfg'', Step (fun t => (c t).told K (o t) 0) cfg' (.invoke t) cfg'' ∧
      Tells K o (Function.update n t 0)
        { cfg with thread := Function.update cfg.thread t (.running (c t)) } cfg'' := by
  have hidle : cfg'.thread t = .idle := (hT.thread t).trans (by rw [ht]; rfl)
  refine ⟨_, .invoke hidle, hT.store, hT.owner, fun u => ?_⟩
  rw [← hT.update (fun u hu => Function.update_of_ne hu ..), Function.update_self]
  rfl

theorem reply {a : α} (hT : Tells K o n cfg cfg') (ht : cfg.thread t = .running (.ret a)) :
    ∃ cfg'', Step (fun t => (c t).told K (o t) 0) cfg' (.reply t) cfg'' ∧
      Tells K o n { cfg with thread := Function.update cfg.thread t (.done a) } cfg'' := by
  have hret : cfg'.thread t = .running (.ret a) := (hT.thread t).trans (by rw [ht]; rfl)
  exact ⟨_, .reply hret, hT.store, hT.owner, hT.update (fun _ _ => rfl) (.done a)⟩

/-- An instruction that accesses no cell in `K`. -/
theorem instr (hT : Tells K o n cfg cfg') (ht : cfg.thread t = .running (.op i k))
    (hen : i.Enabled cfg.owner) (hi : ¬ i.Meets K) :
    ∃ cfg'', Step (fun t => (c t).told K (o t) 0) cfg' (.step t) cfg'' ∧
      Tells K o n ⟨(i.eff cfg.store).2, i.take t cfg.owner,
        Function.update cfg.thread t (.running (k (i.eff cfg.store).1))⟩ cfg'' := by
  have hop : cfg'.thread t = .running (.op i fun r => (k r).told K (o t) (n t)) := by
    rw [hT.thread t, ht, Thread.told, Prog.told_op_of_not hi]
  have hagree : ∀ l, i.Touches l → cfg'.store l = cfg.store l := fun l hl =>
    hT.store l fun hK => hi (Instr.meets_iff.2 ⟨l, hl, hK⟩)
  refine ⟨_, .instr hop (by rwa [hT.owner]), fun l hl => ?_, ?_, fun u => ?_⟩
  · exact Instr.eff_agree_store hagree (hT.store l hl)
  · dsimp only
    rw [hT.owner]
  · dsimp only
    rw [Instr.eff_agree hagree]
    exact hT.update (fun _ _ => rfl) (.running (k (i.eff cfg.store).1)) u

/-- An access to a cell in `K`: the call was told what it finds. -/
theorem access (hT : Tells K o n cfg cfg') (ht : cfg.thread t = .running (.op i k))
    (hi : i.Meets K) (ho : o t (n t) = cfg.store) :
    Tells K o (Function.update n t (n t + 1)) ⟨(i.eff cfg.store).2, i.take t cfg.owner,
      Function.update cfg.thread t (.running (k (i.eff cfg.store).1))⟩ cfg' := by
  refine ⟨fun l hl => ?_, ?_, fun u => ?_⟩
  · rw [hT.store l hl]
    refine (Instr.eff_frame fun hw => hl ?_).symm
    obtain ⟨l', hl', hK⟩ := Instr.meets_iff.1 hi
    cases hw with
    | store => exact Instr.touches_store.1 hl' ▸ hK
    | modify => exact Instr.touches_modify.1 hl' ▸ hK
  · rw [hT.owner]
    cases i with
    | lock m intr => exact hi.elim
    | unlock m => exact hi.elim
    | _ => rfl
  · dsimp only
    rw [← hT.update (t := t) (fun u hu => Function.update_of_ne hu ..), Function.update_self]
    have hsame : (Thread.running (k (i.eff cfg.store).1)).told K (o t) (n t + 1) =
        cfg'.thread t := by
      rw [hT.thread t, ht, Thread.told, Thread.told, Prog.told_op_of hi, ho]
    rw [hsame, Function.update_eq_self]

end Config.Tells

/-- A call that is idle after a step was idle before it. -/
theorem Step.idle {cfg cfg' : Config ι V M E α} {e : Event ι} (hs : Step c cfg e cfg') {u : ι}
    (hu : cfg'.thread u = .idle) : cfg.thread u = .idle := by
  have key : ∀ t th, th ≠ Thread.idle → Function.update cfg.thread t th u = .idle →
      cfg.thread u = .idle := fun t th hth hu => by
    by_cases hut : u = t
    · subst hut
      rw [Function.update_self] at hu
      exact absurd hu hth
    · rwa [Function.update_of_ne hut] at hu
  cases hs with
  | invoke ht => exact key _ _ (by simp) hu
  | instr ht hen => exact key _ _ (by simp) hu
  | reply ht => exact key _ _ (by simp) hu

/-- A step invokes no other call than its own. -/
theorem Step.invoked {cfg cfg' : Config ι V M E α} {e : Event ι} (hs : Step c cfg e cfg') {u : ι}
    (hu : cfg'.thread u ≠ .idle) : cfg.thread u ≠ .idle ∨ e = .invoke u := by
  have key : ∀ t th, cfg.thread t ≠ .idle → Function.update cfg.thread t th u ≠ .idle →
      cfg.thread u ≠ .idle := fun t th ht hu => by
    by_cases hut : u = t
    · rwa [hut]
    · rwa [Function.update_of_ne hut] at hu
  cases hs with
  | @invoke t ht =>
    by_cases hut : u = t
    · exact .inr (congrArg _ hut.symm)
    · dsimp only at hu
      rw [Function.update_of_ne hut] at hu
      exact .inl hu
  | instr ht hen => exact .inl (key _ _ (by simp [ht]) hu)
  | reply ht => exact .inl (key _ _ (by simp [ht]) hu)

/-- **The calls do what they do without the accesses to `K`**, each told what
    it found there. -/
theorem Run.told {h : List (Event ι)} (hr : Run c s h cfg) :
    ∃ (seen : ι → ℕ → ∀ l, V l) (n : ι → ℕ),
      (∀ t, cfg.thread t ≠ .idle → Moments c s h t (seen t)) ∧
      (∀ t, cfg.thread t = .idle → n t = 0) ∧
      ∀ o : ι → ℕ → ∀ l, V l, (∀ t i, i < n t → o t i = seen t i) →
        ∃ h' cfg', Run (fun t => (c t).told K (o t) 0) s h' cfg' ∧ edges h' = edges h ∧
          cfg.Tells K o n cfg' := by
  induction hr with
  | nil =>
    refine ⟨fun _ _ => s, fun _ => 0, fun t ht => absurd rfl ht, fun t _ => rfl, fun o _ => ?_⟩
    exact ⟨[], _, .nil, rfl, fun _ _ => rfl, rfl, fun _ => rfl⟩
  | @snoc h cfg cfg₁ e hr hs ih =>
    obtain ⟨seen, n, hseen, hn, hrun⟩ := ih
    -- a step that is no invocation keeps the moments there are
    have hkeep : ∀ u, cfg₁.thread u ≠ .idle → e ≠ .invoke u → Moments c s (h ++ [e]) u (seen u) :=
      fun u hu he => (hseen u ((hs.invoked hu).resolve_right he)).snoc e
    have hidle : ∀ u, cfg₁.thread u = .idle → n u = 0 := fun u hu => hn u (hs.idle hu)
    -- a step that is taken without the accesses, too
    have htake : ∀ (n' : ι → ℕ) (o : ι → ℕ → ∀ l, V l), (∀ t i, i < n t → o t i = seen t i) →
        (∀ cfg', cfg.Tells K o n cfg' → ∃ cfg'', Step (fun t => (c t).told K (o t) 0) cfg' e cfg'' ∧
          cfg₁.Tells K o n' cfg'') →
        ∃ h' cfg', Run (fun t => (c t).told K (o t) 0) s h' cfg' ∧ edges h' = edges (h ++ [e]) ∧
          cfg₁.Tells K o n' cfg' := fun n' o ho hstep => by
      obtain ⟨h', cfg', hr', hedges, hT⟩ := hrun o ho
      obtain ⟨cfg'', hs', hT'⟩ := hstep cfg' hT
      exact ⟨_, cfg'', hr'.snoc hs', by rw [edges_snoc, edges_snoc, hedges], hT'⟩
    cases hs with
    | @invoke t ht =>
      have hnow := hr.snoc (.invoke ht)
      refine ⟨Function.update seen t fun _ => cfg.store, Function.update n t 0, fun u hu => ?_,
        fun u hu => ?_, fun o ho => htake _ o (fun u i hi => ?_) fun cfg' hT => hT.invoke ht⟩
      · by_cases hut : u = t
        · subst hut
          rw [Function.update_self]
          have hmom := Moments.now hnow (Function.update_self ..)
          exact hmom
        · rw [Function.update_of_ne hut]
          refine hkeep u hu fun he => hut ?_
          injection he with he
          exact he.symm
      · by_cases hut : u = t
        · rw [hut, Function.update_self]
        · rw [Function.update_of_ne hut]
          exact hidle u hu
      · by_cases hut : u = t
        · rw [hut, hn t ht] at hi
          exact absurd hi (Nat.not_lt_zero i)
        · simpa [Function.update_of_ne hut, hi] using ho u i
    | @reply t a ht =>
      exact ⟨seen, n, fun u hu => hkeep u hu (by simp), hidle,
        fun o ho => htake n o ho fun cfg' hT => hT.reply ht⟩
    | @instr t i k ht hen =>
      by_cases hi : i.Meets K
      · refine ⟨Function.update seen t fun j => if j < n t then seen t j else cfg.store,
          Function.update n t (n t + 1), fun u hu => ?_, fun u hu => ?_, fun o ho => ?_⟩
        · by_cases hut : u = t
          · subst hut
            rw [Function.update_self]
            exact ((hseen u (by rw [ht]; simp)).extend hr ht (n u)).snoc _
          · rw [Function.update_of_ne hut]
            exact hkeep u hu (by simp)
        · have hut : u ≠ t := by
            rintro rfl
            dsimp only at hu
            rw [Function.update_self] at hu
            cases hu
          rw [Function.update_of_ne hut]
          exact hidle u hu
        · have hot : ∀ j, j < n t + 1 → o t j = if j < n t then seen t j else cfg.store :=
            fun j hj => by simpa [hj] using ho t j
          have ho' : ∀ u j, j < n u → o u j = seen u j := fun u j hj => by
            by_cases hut : u = t
            · subst hut
              rw [hot j (by omega), if_pos hj]
            · simpa [Function.update_of_ne hut, hj] using ho u j
          obtain ⟨h', cfg', hr', hedges, hT⟩ := hrun o ho'
          refine ⟨h', cfg', hr', by rw [edges_snoc, hedges]; simp [Event.IsEdge], ?_⟩
          refine hT.access ht hi ?_
          rw [hot (n t) (Nat.lt_succ_self _), if_neg (Nat.lt_irrefl _)]
      · exact ⟨seen, n, fun u hu => hkeep u hu (by simp), hidle,
          fun o ho => htake n o ho fun cfg' hT => hT.instr ht hen hi⟩

/-- **Calls are linearisable, what they find in `K` given.**  In every run
    there is an order of calls, among them all that replied, that keeps the
    order of calls that did not overlap; each reply, and the contents of the
    resources that no call holds, are those of executing the calls one after
    the other in this order, each told what it found in `K` at successive
    moments while it was in progress. -/
theorem Run.linearises {P : Protection Loc M} {h : List (Event ι)}
    (hc : ∀ t, Disciplined P (c t))
    (hw : ∀ t, (c t).All fun i => ∀ l, i.Writes l → P.Resource l ∨ K l)
    (hK : ∀ l, K l → ¬ P.Resource l) (hr : Run c s h cfg) :
    ∃ (seen : ι → ℕ → ∀ l, V l) (order : List ι),
      (∀ t, cfg.thread t ≠ .idle → Moments c s h t (seen t)) ∧
      order.Nodup ∧ (∀ t ∈ order, cfg.thread t ≠ .idle) ∧
      (∀ t u, Precedes h t u → u ∈ order → [t, u].Sublist order) ∧
      (∀ t a, cfg.thread t = .done a → t ∈ order ∧
        (serial (fun t => (c t).told K (seen t) 0) order s).1 t = some a) ∧
      ∀ m l, P.level m = 0 → P.Guards m l → cfg.owner m = none →
        cfg.store l = (serial (fun t => (c t).told K (seen t) 0) order s).2 l := by
  obtain ⟨seen, n, hseen, -, hrun⟩ := hr.told (K := K)
  obtain ⟨h', cfg', hr', hedges, hT⟩ := hrun seen fun _ _ _ => rfl
  have hsect : ∀ t, Sectioned P ((c t).told K (seen t) 0) := fun t =>
    ((hc t).told 0).sectioned <| ((hw t).told 0).mono fun i hi l hl =>
      (hi.1 l hl).resolve_right fun hKl => hi.2 (Instr.meets_iff.2 ⟨l, hl.touches, hKl⟩)
  obtain ⟨order, hI⟩ := hr'.serialInv hsect
  refine ⟨seen, order, hseen, hI.nodup, fun t ht hidle => ?_, fun t u hp => ?_, fun t a ha => ?_,
    fun m l h0 hg ho => ?_⟩
  · have hthread := hI.thread t
    rw [hT.thread t, hidle] at hthread
    exact hthread ht
  · have hp' : Precedes h' t u := precedes_edges.1 (by rw [hedges]; exact precedes_edges.2 hp)
    exact (hI.realTime t u hp').2
  · have hthread := hI.thread t
    rw [hT.thread t, ha] at hthread
    exact hthread
  · rw [← hT.store l fun hKl => hK l hKl ⟨m, hg, h0⟩]
    exact hI.free m l h0 hg (by rw [hT.owner]; exact ho)

end

/-! ## The turn of a call -/

section
variable {c : ι → Prog V M E α} {s : ∀ l, V l} {order : List ι} {t : ι}

omit [DecidableEq M] in
theorem serial_of_notMem {after : List ι} (ht : t ∉ after) :
    (serial c (order ++ after) s).1 t = (serial c order s).1 t := by
  induction after using List.reverseRecOn with
  | nil => rw [List.append_nil]
  | append_singleton after u ih =>
    rw [List.mem_append, List.mem_singleton, not_or] at ht
    rw [← List.append_assoc, serial_snoc, serialStep]
    dsimp only
    rw [Function.update_of_ne ht.2]
    exact ih ht.1

omit [DecidableEq M] in
/-- Executed one after the other, a call replies what it replies in the store
    that the calls before it leave. -/
theorem serial_turn (hn : order.Nodup) (ht : t ∈ order) :
    ∃ before after, order = before ++ t :: after ∧
      (serial c order s).1 t = some ((c t).exec (serial c before s).2).1 := by
  obtain ⟨before, after, rfl⟩ := List.append_of_mem ht
  refine ⟨before, after, rfl, ?_⟩
  have hafter : t ∉ after := (List.nodup_cons.1 (List.nodup_append.1 hn).2.1).1
  rw [List.append_cons, serial_of_notMem hafter, serial_snoc, serialStep]
  exact Function.update_self ..

end

/-! ## Programs that look once -/

/-- No cell in `K` is accessed that was before; `met` are those that were. -/
def onceT (K : Loc → Prop) (i : Instr V M E) (Q : i.Resp → Set Loc → Prop) (met : Set Loc) :
    Prop :=
  (∀ l ∈ met, ¬ i.Touches l) ∧ ∀ r, Q r {l | l ∈ met ∨ K l ∧ i.Touches l}

omit [DecidableEq M] [DecidableEq ι] in
/-- **A program that accesses no cell in `K` twice** does, told, what it does
    alone from a store that agrees with the one it is told in outside `K`, and
    holds what it was told in `K`. -/
theorem Prog.told_once {K : Loc → Prop} [DecidablePred K] {o : ℕ → ∀ l, V l} {p : Prog V M E α}
    {Q : α → Set Loc → Prop} {met : Set Loc} (hp : p.wp (onceT K) Q met) (n : ℕ) (s : ∀ l, V l) :
    ∃ x : ∀ l, V l, (∀ l, ¬ K l → x l = s l) ∧ (∀ l, K l → ∃ j, x l = o j l) ∧
      ∀ y : ∀ l, V l, (∀ l, ¬ (K l ∧ l ∈ met) → y l = x l) →
        (p.exec y).1 = ((p.told K o n).exec s).1 ∧
        ∀ l, ¬ K l → (p.exec y).2 l = ((p.told K o n).exec s).2 l := by
  induction p generalizing met n s with
  | ret a =>
    refine ⟨fun l => if K l then o n l else s l, fun l hl => if_neg hl,
      fun l hl => ⟨n, if_pos hl⟩, fun y hy => ⟨rfl, fun l hl => ?_⟩⟩
    exact (hy l fun hm => hl hm.1).trans (if_neg hl)
  | op i k ih =>
    by_cases hi : i.Meets K
    · obtain ⟨l₀, ht₀, hK₀⟩ := Instr.meets_iff.1 hi
      obtain ⟨x, hxs, hxo, hx⟩ := ih (i.eff (o n)).1 (hp.2 _) (n + 1) s
      have htouch : ∀ l, i.Touches l → l = l₀ := fun l hl => by
        cases hl with
        | load => exact (Instr.touches_load.1 ht₀)
        | store => exact (Instr.touches_store.1 ht₀)
        | modify => exact (Instr.touches_modify.1 ht₀)
      refine ⟨Function.update x l₀ (o n l₀), fun l hl => ?_, fun l hl => ?_, fun y hy => ?_⟩
      · have hne : l ≠ l₀ := fun he => hl (he ▸ hK₀)
        rw [Function.update_of_ne hne, hxs l hl]
      · by_cases hl₀ : l = l₀
        · subst hl₀
          exact ⟨n, Function.update_self ..⟩
        · rw [Function.update_of_ne hl₀]
          exact hxo l hl
      · have hresp : (i.eff y).1 = (i.eff (o n)).1 := Instr.eff_agree fun l hl => by
          have he := htouch l hl
          subst he
          rw [hy l fun hm => hp.1 l hm.2 hl, Function.update_self]
        rw [Prog.told_op_of hi, exec_op, hresp]
        refine hx _ fun l hl => ?_
        have hnot : ¬ i.Touches l := fun htl =>
          hl ⟨htouch l htl ▸ hK₀, .inr ⟨htouch l htl ▸ hK₀, htl⟩⟩
        have hne : l ≠ l₀ := fun he => hnot (he ▸ ht₀)
        rw [Instr.eff_frame fun hw => hnot hw.touches, hy l fun hm => hl ⟨hm.1, .inl hm.2⟩,
          Function.update_of_ne hne]
    · have hnot : ∀ l, i.Touches l → ¬ K l := fun l hl hKl => hi (Instr.meets_iff.2 ⟨l, hl, hKl⟩)
      obtain ⟨x, hxs, hxo, hx⟩ := ih (i.eff s).1 (hp.2 _) n (i.eff s).2
      refine ⟨fun l => if K l then x l else s l, fun l hl => if_neg hl, fun l hl => ?_,
        fun y hy => ?_⟩
      · obtain ⟨j, hj⟩ := hxo l hl
        exact ⟨j, (if_pos hl).trans hj⟩
      · have hys : ∀ l, ¬ K l → y l = s l := fun l hl =>
          (hy l fun hm => hl hm.1).trans (if_neg hl)
        have hagree : ∀ l, i.Touches l → y l = s l := fun l hl => hys l (hnot l hl)
        rw [Prog.told_op_of_not hi, exec_op, exec_op, Instr.eff_agree hagree]
        refine hx _ fun l hl => ?_
        by_cases hKl : K l
        · rw [Instr.eff_frame fun hw => hnot l hw.touches hKl]
          exact (hy l fun hm => hl ⟨hm.1, .inl hm.2⟩).trans (if_pos hKl)
        · rw [Instr.eff_agree_store hagree (hys l hKl), hxs l hKl]

end Conc

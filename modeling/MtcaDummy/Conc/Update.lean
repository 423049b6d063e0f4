/-
  Cells that another call updates while a program runs.

  * `Prog.execWith K o` is the run of a program whose loads of the cells in
    `K` are answered by others: `o n` is the store that the `n`-th such load
    sees.  A program that loads no cell in `K` does what `exec` says, and so
    does one that sees the store it started from.
  * `Run.switch`: if the cells a mutex guards are changed by one call only, in
    one critical section, then any other call sees them as they were before
    the section in its first loads, and as they are after it in the rest.
-/
import MtcaDummy.Conc.Serial

namespace Conc

variable {Loc : Type} {V : Loc → Type} {M E : Type} {α β : Type} {ι : Type}

/-! ## Runs that are told some cells -/

/-- The instruction loads a cell in `K`. -/
def Instr.Looks (K : Loc → Prop) : Instr V M E → Prop
  | load l => K l
  | _ => False

instance (K : Loc → Prop) [DecidablePred K] (i : Instr V M E) : Decidable (i.Looks K) := by
  cases i with
  | load l => exact inferInstanceAs (Decidable (K l))
  | _ => exact inferInstanceAs (Decidable False)

namespace Prog
variable [DecidableEq Loc] (K : Loc → Prop) [DecidablePred K]

/-- Run the program; its `n`-th load of a cell in `K` sees the store `o n`. -/
def execWith (o : ℕ → ∀ l, V l) : Prog V M E α → ℕ → (∀ l, V l) → α × ℕ × (∀ l, V l)
  | ret a, n, s => (a, n, s)
  | op i k, n, s =>
    if i.Looks K then (k (i.eff (o n)).1).execWith o (n + 1) s
    else (k (i.eff s).1).execWith o n (i.eff s).2

variable {K} {o : ℕ → ∀ l, V l}

@[simp] theorem execWith_ret (a : α) (n : ℕ) (s : ∀ l, V l) :
    (ret a : Prog V M E α).execWith K o n s = (a, n, s) := rfl

theorem execWith_op (i : Instr V M E) (k : i.Resp → Prog V M E α) (n : ℕ) (s : ∀ l, V l) :
    (op i k).execWith K o n s =
      if i.Looks K then (k (i.eff (o n)).1).execWith K o (n + 1) s
      else (k (i.eff s).1).execWith K o n (i.eff s).2 := rfl

theorem execWith_bind (p : Prog V M E α) (f : α → Prog V M E β) (n : ℕ) (s : ∀ l, V l) :
    (p >>= f).execWith K o n s = (f (p.execWith K o n s).1).execWith K o (p.execWith K o n s).2.1
      (p.execWith K o n s).2.2 := by
  induction p generalizing n s with
  | ret a => rfl
  | op i k ih =>
    rw [bind_op, execWith_op, execWith_op]
    split
    · exact ih _ _ _
    · exact ih _ _ _

/-- A program that loads none of the cells does what it does alone. -/
theorem execWith_eq_exec {p : Prog V M E α} (hp : p.All fun i => ¬ i.Looks K) (n : ℕ)
    (s : ∀ l, V l) : p.execWith K o n s = ((p.exec s).1, n, (p.exec s).2) := by
  induction p generalizing s with
  | ret a => rfl
  | op i k ih =>
    rw [execWith_op, if_neg hp.1, exec_op]
    exact ih _ (hp.2 _) _

/-- What was seen before does not matter. -/
theorem execWith_congr {o' : ℕ → ∀ l, V l} {n : ℕ} (h : ∀ i, n ≤ i → o i = o' i)
    (p : Prog V M E α) (s : ∀ l, V l) : p.execWith K o n s = p.execWith K o' n s := by
  induction p generalizing n s with
  | ret a => rfl
  | op i k ih =>
    rw [execWith_op, execWith_op, h n (Nat.le_refl n), ih _ fun i hi => h i (by omega), ih _ h]

/-- Whatever it sees, a program changes only the cells it writes. -/
theorem execWith_frame {l : Loc} {p : Prog V M E α} (hp : p.All fun i => ¬ i.Writes l) (n : ℕ)
    (s : ∀ l, V l) : (p.execWith K o n s).2.2 l = s l := by
  induction p generalizing n s with
  | ret a => rfl
  | op i k ih =>
    rw [execWith_op]
    split
    · exact ih _ (hp.2 _) _ _
    · exact (ih _ (hp.2 _) _ _).trans (Instr.eff_frame hp.1)

/-- A program that always sees what it started from does what it does alone,
    if it does not change the cells itself. -/
theorem exec_eq_execWith {p : Prog V M E α} (hp : p.All fun i => ∀ l, i.Writes l → ¬ K l)
    {s₀ : ∀ l, V l} (n : ℕ) {s : ∀ l, V l} (hs : ∀ l, K l → s l = s₀ l) :
    p.exec s = ((p.execWith K (fun _ => s₀) n s).1, (p.execWith K (fun _ => s₀) n s).2.2) := by
  induction p generalizing n s with
  | ret a => rfl
  | op i k ih =>
    rw [execWith_op, exec_op]
    have hkeep : ∀ l, K l → (i.eff s).2 l = s₀ l := fun l hl =>
      (Instr.eff_frame fun hw => hp.1 l hw hl).trans (hs l hl)
    split
    · rename_i hlook
      cases i with
      | load l =>
        have hresp : ((Instr.load l : Instr V M E).eff s₀).1 = s l := (hs l hlook).symm
        rw [hresp]
        exact ih _ (hp.2 _) _ hs
      | _ => exact hlook.elim
    · exact ih _ (hp.2 _) _ hkeep

end Prog

/-! ## One updater -/

/-- The protection by one mutex alone. -/
def Protection.only [DecidableEq M] (P : Protection Loc M) (m : M) : Protection Loc M where
  Guards m' l := m' = m ∧ P.Guards m l
  level m' := if m' = m then 0 else 1
  unique h h' := h.1.trans h'.1.symm

/-- The first `n` looks see `s`, the rest see `s'`. -/
def switched (n : ℕ) (s s' : ∀ l, V l) (i : ℕ) : ∀ l, V l := if i < n then s else s'

section
variable [DecidableEq Loc] [DecidableEq M]

/-- How far the updater `u` is: `passed` says that it has left its section.
    Outside the section the cells are those of `s`, or those of `s'`. -/
def Thread.Updates (P : Protection Loc M) (m : M) (s s' : ∀ l, V l) (store : ∀ l, V l)
    (owner : M → Option ι) (u : ι) (passed : Bool) : Thread V M E α → Prop
  | .idle => passed = false ∧ ∀ l, P.Guards m l → store l = s l
  | .running q => ∃ ph, q.wp (sectionT (P.only m)) (fun _ ph => ∀ m', ph ≠ .inside m') ph ∧
      (q.All fun i => ∀ l, i.Touches l → P.Guards m l) ∧ (passed = true ↔ ph = .after) ∧
      (∀ m', ph = .inside m' → owner m = some u) ∧
      (ph = .before → ∀ l, P.Guards m l → store l = s l) ∧
      ∀ l, P.Guards m l → (q.exec store).2 l = s' l
  | .done _ => ∀ l, P.Guards m l → store l = if passed then s' l else s l

/-- How far another call is: it has looked `j` times, and does from here on
    what it does under some switch. -/
def Thread.Follows (K : Loc → Prop) [DecidablePred K] (p : Prog V M E α) (s s' : ∀ l, V l)
    (store : ∀ l, V l) (passed : Bool) : Thread V M E α → Prop
  | .idle => ∀ l, ¬ K l → store l = s l
  | .running q => (q.All fun i => ∀ l, i.Writes l → ¬ K l) ∧
      ∃ j x, (∀ l, ¬ K l → x l = store l) ∧
        (passed = false → ∀ n, j ≤ n → p.execWith K (switched n s s') 0 s =
          q.execWith K (switched n s s') j x) ∧
        (passed = true → ∃ n ≤ j, p.execWith K (switched n s s') 0 s =
          q.execWith K (switched n s s') j x)
  | .done a => ∃ n j x, p.execWith K (switched n s s') 0 s = (a, j, x) ∧
      ∀ l, ¬ K l → x l = store l

variable {P : Protection Loc M} {m : M} {s s' store store' : ∀ l, V l}
  {owner owner' : M → Option ι} {u t : ι} {passed : Bool}

/-- While the updater does not hold the mutex, the cells are old or new. -/
theorem Thread.Updates.sees {th : Thread V M E α} (h : th.Updates P m s s' store owner u passed)
    (hown : owner m ≠ some u) {l : Loc} (hl : P.Guards m l) :
    store l = if passed then s' l else s l := by
  cases th with
  | idle => rw [h.1]; exact h.2 l hl
  | done a => exact h l hl
  | running q =>
    obtain ⟨ph, hwp, -, hpass, hin, hbefore, hend⟩ := h
    cases ph with
    | before =>
      cases passed with
      | false => exact hbefore rfl l hl
      | true => exact absurd (hpass.1 rfl) nofun
    | inside m' => exact absurd (hin m' rfl) hown
    | after =>
      rw [hpass.2 rfl, if_pos rfl, ← hend l hl]
      exact (section_frame (by simp) hwp store (by simp [Phase.Own])).symm

/-- A step that changes neither the cells nor the owner is no matter to it. -/
theorem Thread.Updates.other {th : Thread V M E α}
    (h : th.Updates P m s s' store owner u passed)
    (hstore : ∀ l, P.Guards m l → store' l = store l)
    (hown : owner m = some u → owner' m = some u) :
    th.Updates P m s s' store' owner' u passed := by
  cases th with
  | idle => exact ⟨h.1, fun l hl => (hstore l hl).trans (h.2 l hl)⟩
  | done a => exact fun l hl => (hstore l hl).trans (h l hl)
  | running q =>
    obtain ⟨ph, hwp, htouch, hpass, hin, hbefore, hend⟩ := h
    refine ⟨ph, hwp, htouch, hpass, fun m' hm' => hown (hin m' hm'),
      fun hb l hl => (hstore l hl).trans (hbefore hb l hl), fun l hl => ?_⟩
    rw [← hend l hl]
    exact (Prog.exec_agree (K := {l | P.Guards m l}) htouch hstore).2 l hl

/-- A step of the updater itself. -/
theorem Thread.Updates.step {i : Instr V M E} {k : i.Resp → Prog V M E α}
    (h : (Thread.running (.op i k)).Updates P m s s' store owner u passed) :
    ∃ passed', (passed = true → passed' = true) ∧
      (Thread.running (k (i.eff store).1)).Updates P m s s' (i.eff store).2 (i.take u owner) u
        passed' := by
  obtain ⟨ph, hwp, htouch, hpass, hin, hbefore, hend⟩ := h
  rcases sectionT_next hwp (i.eff store).1 with ⟨hinner, hq⟩ | ⟨m', rfl, h0, rfl, hq⟩ |
    ⟨m', rfl, h0, rfl, hq⟩
  · refine ⟨passed, id, ph, hq, htouch.2 _, hpass, fun m' hm' => ?_, fun hb l hl => ?_, hend⟩
    · have hlevel : (P.only m).level m = 0 := if_pos rfl
      have hne := hinner m hlevel
      rw [← hin m' hm']
      cases i with
      | lock m'' intr =>
        cases intr with
        | true => rfl
        | false => exact Function.update_of_ne (fun he => hne.1 (by rw [he])) _ _
      | unlock m'' => exact Function.update_of_ne (fun he => hne.2 (by rw [he])) _ _
      | _ => rfl
    · rw [← hbefore hb l hl]
      refine Instr.eff_frame fun hw => ?_
      have := (sectionT_eff hwp).2 l hw
      rwa [hb] at this
  · have hm : m' = m := by
      by_contra hne
      simp [Protection.only, hne] at h0
    subst hm
    have hnot : passed = false := by simpa using hpass
    subst hnot
    exact ⟨false, id, .inside m', hq, htouch.2 _, by simp, fun _ _ => Function.update_self ..,
      nofun, hend⟩
  · exact ⟨true, fun _ => rfl, .after, hq, htouch.2 _, by simp, nofun, nofun, hend⟩

variable {K : Loc → Prop} [DecidablePred K] {p : Prog V M E α}

omit [DecidableEq M] in
/-- What the updater changes is no matter to the other call, except that it
    may pass its section now. -/
theorem Thread.Follows.other {th : Thread V M E α} {passed' : Bool}
    (h : th.Follows K p s s' store passed) (hstore : ∀ l, ¬ K l → store' l = store l)
    (hpassed : passed = true → passed' = true) : th.Follows K p s s' store' passed' := by
  cases th with
  | idle => exact fun l hl => (hstore l hl).trans (h l hl)
  | done a =>
    obtain ⟨n, j, x, hrun, hx⟩ := h
    exact ⟨n, j, x, hrun, fun l hl => (hx l hl).trans (hstore l hl).symm⟩
  | running q =>
    obtain ⟨hw, j, x, hx, hpend, hpass⟩ := h
    refine ⟨hw, j, x, fun l hl => (hx l hl).trans (hstore l hl).symm, fun hno => ?_, fun _ => ?_⟩
    · refine hpend ?_
      cases passed with
      | false => rfl
      | true => rw [hpassed rfl] at hno; exact hno
    · cases passed with
      | false => exact ⟨j, Nat.le_refl j, hpend rfl j (Nat.le_refl j)⟩
      | true => exact hpass rfl

omit [DecidableEq M] in
/-- A step of the other call, which sees the cells as they are before or after
    the section. -/
theorem Thread.Follows.step {i : Instr V M E} {k : i.Resp → Prog V M E α}
    (h : (Thread.running (.op i k)).Follows K p s s' store passed)
    (hsees : i.Looks K → ∀ l, K l → store l = if passed then s' l else s l) :
    (Thread.running (k (i.eff store).1)).Follows K p s s' (i.eff store).2 passed := by
  obtain ⟨hw, j, x, hx, hpend, hpass⟩ := h
  by_cases hlook : i.Looks K
  · cases i with
    | load l =>
      have hl : K l := hlook
      have hstep : ∀ n, ((switched n s s' j l = store l)) →
          (Prog.op (.load l) k : Prog V M E α).execWith K (switched n s s') j x =
            (k (store l)).execWith K (switched n s s') (j + 1) x := fun n hn => by
        rw [Prog.execWith_op, if_pos hlook, ← hn]
        rfl
      refine ⟨hw.2 _, j + 1, x, hx, fun hno n hn => ?_, fun hyes => ?_⟩
      · rw [hpend hno n (by omega)]
        refine hstep n ?_
        rw [switched, if_pos (by omega), hsees hlook l hl, hno]
        rfl
      · obtain ⟨n, hn, hrun⟩ := hpass hyes
        refine ⟨n, by omega, hrun.trans (hstep n ?_)⟩
        rw [switched, if_neg (by omega), hsees hlook l hl, hyes]
        rfl
    | _ => exact hlook.elim
  · have htouch : ∀ l, i.Touches l → x l = store l := fun l hl => hx l fun hK => by
      cases hl with
      | load => exact hlook hK
      | store => exact hw.1 l .store hK
      | modify => exact hw.1 l .modify hK
    have hstep : ∀ n, (Prog.op i k).execWith K (switched n s s') j x =
        (k (i.eff store).1).execWith K (switched n s s') j (i.eff x).2 := fun n => by
      rw [Prog.execWith_op, if_neg hlook, Instr.eff_agree htouch]
    refine ⟨hw.2 _, j, (i.eff x).2, fun l hl => Instr.eff_agree_store htouch (hx l hl),
      fun hno n hn => (hpend hno n hn).trans (hstep n), fun hyes => ?_⟩
    obtain ⟨n, hn, hrun⟩ := hpass hyes
    exact ⟨n, hn, hrun.trans (hstep n)⟩

end

/-! ## Runs of two calls -/

variable [DecidableEq Loc] [DecidableEq M] [DecidableEq ι]
variable {P : Protection Loc M} {m : M} {K : Loc → Prop} [DecidablePred K]
  {c : ι → Prog V M E α} {s : ∀ l, V l} {u t : ι} {h : List (Event ι)} {cfg : Config ι V M E α}

/-- Both calls are where they should be. -/
theorem Run.updates (hK : ∀ l, P.Guards m l ↔ K l) (hc : ∀ t, Disciplined P (c t))
    (hu : Sectioned (P.only m) (c u)) (htouch : (c u).All fun i => ∀ l, i.Touches l → K l)
    (hw : (c t).All fun i => ∀ l, i.Writes l → ¬ K l) (htu : t ≠ u) (hall : ∀ v, v = u ∨ v = t)
    (hr : Run c s h cfg) :
    ∃ passed, (cfg.thread u).Updates P m s ((c u).exec s).2 cfg.store cfg.owner u passed ∧
      (cfg.thread t).Follows K (c t) s ((c u).exec s).2 cfg.store passed := by
  induction hr with
  | nil => exact ⟨false, ⟨rfl, fun _ _ => rfl⟩, fun _ _ => rfl⟩
  | @snoc h cfg cfg' e hrun hs ih =>
    obtain ⟨passed, hup, hfol⟩ := ih
    cases hs with
    | @invoke v hv =>
      rcases hall v with rfl | rfl
      · rw [hv] at hup
        refine ⟨passed, ?_, by simpa [Function.update_of_ne htu] using hfol⟩
        simp only [Function.update_self]
        refine ⟨.before, hu, htouch.mono fun i hi l hl => (hK l).2 (hi l hl), by simp [hup.1],
          nofun, fun _ => hup.2, fun l hl => ?_⟩
        exact (Prog.exec_agree (K := {l | K l}) htouch
          fun l hl => hup.2 l ((hK l).2 hl)).2 l ((hK l).1 hl)
      · rw [hv] at hfol
        refine ⟨passed, by simpa [Function.update_of_ne htu.symm] using hup, ?_⟩
        simp only [Function.update_self]
        exact ⟨hw, 0, s, fun l hl => (hfol l hl).symm, fun _ _ _ => rfl,
          fun _ => ⟨0, Nat.le_refl 0, rfl⟩⟩
    | @instr v i k hv hen =>
      have hobey := hrun.obeys hc hv
      rcases hall v with rfl | rfl
      · rw [hv] at hup
        obtain ⟨passed', hmono, hup'⟩ := hup.step
        refine ⟨passed', by simpa only [Function.update_self] using hup', ?_⟩
        simp only [Function.update_of_ne htu]
        refine hfol.other (fun l hl => Instr.eff_frame fun hwr => hl ?_) hmono
        obtain ⟨-, -, htch, -⟩ := hup
        exact (hK l).1 (htch.1 l hwr.touches)
      · rw [hv] at hfol
        refine ⟨passed, ?_, ?_⟩
        · simp only [Function.update_of_ne htu.symm]
          refine hup.other (fun l hl => Instr.eff_frame fun hwr => hfol.1.1 l hwr ((hK l).1 hl))
            fun hown => (take_other hen hobey htu.symm m).2 hown
        · simp only [Function.update_self]
          refine hfol.step fun hlook l hl => hup.sees (fun hown => ?_) ((hK l).2 hl)
          cases i with
          | load l' =>
            have := hobey.guarded (P := P) .load ((hK l').2 hlook)
            rw [hown] at this
            exact htu (Option.some.inj this).symm
          | _ => exact hlook
    | @reply v a hv =>
      rcases hall v with rfl | rfl
      · rw [hv] at hup
        refine ⟨passed, ?_, by simpa [Function.update_of_ne htu] using hfol⟩
        simp only [Function.update_self]
        refine fun l hl => Thread.Updates.sees hup ?_ hl
        exact hrun.released hc (by simp [hv]) m
      · rw [hv] at hfol
        refine ⟨passed, by simpa [Function.update_of_ne htu.symm] using hup, ?_⟩
        simp only [Function.update_self]
        obtain ⟨-, j, x, hx, hpend, hpass⟩ := hfol
        cases passed with
        | false => exact ⟨j, j, x, hpend rfl j (Nat.le_refl j), hx⟩
        | true =>
          obtain ⟨n, -, hrun⟩ := hpass rfl
          exact ⟨n, j, x, hrun, hx⟩

/-- **One updater.**  If the cells a mutex guards are changed by the call `u`
    only, in one section, then the call `t` does what it does when its first
    `n` looks see the cells as they were, and the rest as `u` leaves them. -/
theorem Run.switch (hK : ∀ l, P.Guards m l ↔ K l) (hc : ∀ t, Disciplined P (c t))
    (hu : Sectioned (P.only m) (c u)) (htouch : (c u).All fun i => ∀ l, i.Touches l → K l)
    (hw : (c t).All fun i => ∀ l, i.Writes l → ¬ K l) (htu : t ≠ u) (hall : ∀ v, v = u ∨ v = t)
    (hr : Run c s h cfg) {a : α} (hdone : cfg.thread t = .done a) :
    ∃ n j x, (c t).execWith K (switched n s ((c u).exec s).2) 0 s = (a, j, x) ∧
      ∀ l, ¬ K l → x l = cfg.store l := by
  obtain ⟨passed, -, hfol⟩ := hr.updates hK hc hu htouch hw htu hall
  rw [hdone] at hfol
  exact hfol

omit [DecidablePred K] in
/-- A call that begins with a section for one load can leave it before any
    other call is invoked. -/
theorem Run.first_load {l : Loc} {k : V l → Prog V M E α}
    (hc : c t = .op (.lock m false) fun _ => .op (.load l) fun v => .op (.unlock m) fun _ => k v) :
    ∃ h, Run c s h ⟨s, fun _ => none, Function.update (fun _ => .idle) t (.running (k (s l)))⟩ := by
  have hinv : Run c s [.invoke t]
      ⟨s, fun _ => none, Function.update (fun _ => .idle) t (.running (c t))⟩ :=
    Run.nil.snoc (.invoke rfl)
  rw [hc] at hinv
  have hat : ∀ p : Prog V M E α, Function.update (fun _ : ι => Thread.idle) t (.running p) t =
      .running p := fun p => Function.update_self ..
  have hagain : ∀ p q : Prog V M E α, Function.update (Function.update (fun _ : ι => Thread.idle) t
      (.running p)) t (.running q) = Function.update (fun _ => .idle) t (.running q) :=
    fun p q => Function.update_idem ..
  have hlock := hinv.snoc (.instr (t := t) (hat _) rfl)
  rw [hagain] at hlock
  have hload := hlock.snoc (.instr (t := t) (hat _) trivial)
  rw [hagain] at hload
  have hleft := hload.snoc (.instr (t := t) (hat _) trivial)
  rw [hagain] at hleft
  have howner : Function.update (Function.update (fun _ : M => (none : Option ι)) m (some t)) m none
      = fun _ => none := by
    rw [Function.update_idem]
    exact Function.update_eq_self m _
  simp only [Instr.take, howner] at hleft
  exact ⟨_, hleft⟩

end Conc

/-
  Runs of finitely many calls come to an end.

  A step brings one call further and leaves the others where they are, and a
  call cannot get further forever, since its program is a tree without infinite
  branches.  So the steps of finitely many calls are well-founded
  (`Step.wellFounded`), and a system of disciplined calls stops only when all
  of them have replied (`Run.done_of_stopped`): every run can be completed
  (`Run.completes`).
-/
import MtcaDummy.Conc.Locking
import Mathlib.Data.DFinsupp.WellFounded
import Mathlib.Order.WellFounded

namespace Conc

variable {Loc : Type} {V : Loc → Type} {M E : Type} {α : Type} {ι : Type}

/-! ## One call -/

/-- The first place of a call follows on the second. -/
inductive Thread.Next : Thread V M E α → Thread V M E α → Prop
  | invoke (p : Prog V M E α) : Next (.running p) .idle
  | instr (i : Instr V M E) (k : i.Resp → Prog V M E α) (r : i.Resp) :
    Next (.running (k r)) (.running (.op i k))
  | reply (a : α) : Next (.done a) (.running (.ret a))

theorem Thread.acc_done (a : α) : Acc (Thread.Next (V := V) (M := M) (E := E)) (.done a) :=
  ⟨_, fun _ h => by cases h⟩

theorem Thread.acc_running (p : Prog V M E α) : Acc Thread.Next (.running p) := by
  induction p with
  | ret a =>
    refine ⟨_, fun x h => ?_⟩
    cases h
    exact acc_done a
  | op i k ih =>
    refine ⟨_, fun x h => ?_⟩
    cases h with
    | instr _ _ r => exact ih r

/-- A call does not get further forever. -/
theorem Thread.next_wellFounded :
    WellFounded (Thread.Next (V := V) (M := M) (E := E) (α := α)) := by
  refine ⟨fun x => ?_⟩
  cases x with
  | idle =>
    refine ⟨_, fun y h => ?_⟩
    cases h
    exact acc_running _
  | running p => exact acc_running p
  | done a => exact acc_done a

/-! ## All calls -/

variable [DecidableEq Loc] [DecidableEq M] [DecidableEq ι] {c : ι → Prog V M E α} {s : ∀ l, V l}
  {h : List (Event ι)} {cfg cfg' : Config ι V M E α}

/-- A step brings one call further. -/
theorem Step.next {e : Event ι} (hs : Step c cfg e cfg') :
    ∃ t, Thread.Next (cfg'.thread t) (cfg.thread t) ∧ ∀ u ≠ t, cfg'.thread u = cfg.thread u := by
  cases hs with
  | @invoke t ht =>
    refine ⟨t, ?_, fun u hu => Function.update_of_ne hu ..⟩
    rw [ht]
    dsimp only
    rw [Function.update_self]
    exact .invoke _
  | @instr t i k ht hen =>
    refine ⟨t, ?_, fun u hu => Function.update_of_ne hu ..⟩
    rw [ht]
    dsimp only
    rw [Function.update_self]
    exact .instr i k _
  | @reply t a ht =>
    refine ⟨t, ?_, fun u hu => Function.update_of_ne hu ..⟩
    rw [ht]
    dsimp only
    rw [Function.update_self]
    exact .reply a

/-- **Finitely many calls take finitely many steps.** -/
theorem Step.wellFounded [Finite ι] (c : ι → Prog V M E α) :
    WellFounded fun cfg' cfg => ∃ e, Step c cfg e cfg' := by
  obtain ⟨n, ⟨f⟩⟩ := Finite.exists_equiv_fin ι
  let order : LinearOrder ι := LinearOrder.lift' f f.injective
  have hlex := Pi.Lex.wellFounded (ι := ι) (α := fun _ => Thread V M E α) (· < ·)
    (s := fun _ => Thread.Next) fun _ => Thread.next_wellFounded
  refine Subrelation.wf ?_ (InvImage.wf Config.thread hlex)
  rintro cfg' cfg ⟨e, hs⟩
  obtain ⟨t, hnext, hothers⟩ := hs.next
  exact ⟨t, fun u hu => hothers u (ne_of_lt hu), hnext⟩

variable {P : Protection Loc M}

/-- **The system stops only when every call has replied.** -/
theorem Run.done_of_stopped (hc : ∀ t, Disciplined P (c t)) (hr : Run c s h cfg) {n : ℕ}
    (hn : ∀ m, P.level m ≤ n) (hstop : ∀ e cfg', ¬ Step c cfg e cfg') (t : ι) :
    ∃ a, cfg.thread t = .done a := by
  cases ht : cfg.thread t with
  | idle => exact absurd (.invoke ht) (hstop _ _)
  | running p =>
    obtain ⟨u, -, e, cfg', hs, -⟩ := hr.unblocked hc hn ht
    exact absurd hs (hstop e cfg')
  | done a => exact ⟨a, rfl⟩

/-- **Every run can be completed.** -/
theorem Run.completes [Finite ι] (hc : ∀ t, Disciplined P (c t)) (hr : Run c s h cfg) {n : ℕ}
    (hn : ∀ m, P.level m ≤ n) :
    ∃ h' cfg', Run c s (h ++ h') cfg' ∧ ∀ t, ∃ a, cfg'.thread t = .done a := by
  induction cfg using (Step.wellFounded c).induction generalizing h with
  | _ cfg ih =>
    by_cases hstop : ∀ e cfg', ¬ Step c cfg e cfg'
    · exact ⟨[], cfg, by rwa [List.append_nil], hr.done_of_stopped hc hn hstop⟩
    · simp only [not_forall, not_not] at hstop
      obtain ⟨e, cfg', hs⟩ := hstop
      obtain ⟨h', cfg'', hr', hdone⟩ := ih cfg' ⟨e, hs⟩ (hr.snoc hs)
      exact ⟨e :: h', cfg'', by rwa [List.append_assoc] at hr', hdone⟩

end Conc

/-
  Running a system by a schedule.

  `Config.advance` lets one call do what it does next: it is invoked, executes
  an instruction, or replies; a call that has to wait, or has replied, does
  nothing.  `Config.play` follows a list of calls.  What it comes to is reached
  by a run (`Run.play`), so that a list of calls shows that something can
  happen, and can be computed with.
-/
import MtcaDummy.Conc.System

namespace Conc

variable {Loc : Type} {V : Loc → Type} {M E : Type} {α : Type} {ι : Type}

/-- `Enabled`, as it is computed. -/
def Instr.enabled (owner : M → Option ι) : Instr V M E → Bool
  | .lock m false => (owner m).isNone
  | _ => true

theorem Instr.enabled_iff {owner : M → Option ι} {i : Instr V M E} :
    i.enabled owner = true ↔ i.Enabled owner := by
  cases i with
  | lock m intr =>
    cases intr with
    | true => exact iff_of_true rfl trivial
    | false => exact Option.isNone_iff_eq_none
  | _ => exact iff_of_true rfl trivial

/-- What the call has replied. -/
def Thread.result : Thread V M E α → Option α
  | .done a => some a
  | _ => none

/-- A call with a result is done. -/
theorem Thread.exists_done {th : Thread V M E α} (h : th.result.isSome = true) :
    ∃ a, th = .done a := by
  cases th with
  | done a => exact ⟨a, rfl⟩
  | _ => cases h

variable [DecidableEq Loc] [DecidableEq M] [DecidableEq ι]

/-- Call `t` does what it does next. -/
def Config.advance (c : ι → Prog V M E α) (cfg : Config ι V M E α) (t : ι) : Config ι V M E α :=
  match cfg.thread t with
  | .idle => { cfg with thread := Function.update cfg.thread t (.running (c t)) }
  | .running (.ret a) => { cfg with thread := Function.update cfg.thread t (.done a) }
  | .running (.op i k) =>
    if i.enabled cfg.owner then
      ⟨(i.eff cfg.store).2, i.take t cfg.owner,
        Function.update cfg.thread t (.running (k (i.eff cfg.store).1))⟩
    else cfg
  | .done _ => cfg

/-- The calls of a list go on, one after the other. -/
def Config.play (c : ι → Prog V M E α) (cfg : Config ι V M E α) : List ι → Config ι V M E α
  | [] => cfg
  | t :: ts => (cfg.advance c t).play c ts

variable {c : ι → Prog V M E α} {s : ∀ l, V l} {cfg : Config ι V M E α}

/-- A call that goes on takes a step of the system. -/
theorem Config.advance_step (t : ι) :
    cfg.advance c t = cfg ∨ ∃ e, Step c cfg e (cfg.advance c t) := by
  unfold Config.advance
  split
  · rename_i ht
    exact .inr ⟨_, .invoke ht⟩
  · rename_i a ht
    exact .inr ⟨_, .reply ht⟩
  · rename_i i k ht
    split
    · rename_i hi
      exact .inr ⟨_, .instr ht (Instr.enabled_iff.1 hi)⟩
    · exact .inl rfl
  · exact .inl rfl

/-- **What a schedule comes to is reached by a run.** -/
theorem Run.play {h : List (Event ι)} (hr : Run c s h cfg) (ts : List ι) :
    ∃ h', Run c s (h ++ h') (cfg.play c ts) := by
  induction ts generalizing h cfg with
  | nil => exact ⟨[], by rwa [List.append_nil]⟩
  | cons t ts ih =>
    rcases cfg.advance_step (c := c) t with hstay | ⟨e, hstep⟩
    · obtain ⟨h', hr'⟩ := ih hr
      refine ⟨h', ?_⟩
      rwa [Config.play, hstay]
    · obtain ⟨h', hr'⟩ := ih (hr.snoc hstep)
      refine ⟨e :: h', ?_⟩
      rwa [List.append_assoc] at hr'

end Conc

/-
  Every call comes to an end, whatever runs beside it.

  `calls_finish`: finitely many calls of the entry points cannot run forever,
  and they stop only when all of them have replied; so however they were
  scheduled so far, they can be completed.
-/
import MtcaDummy.Conc.Finish
import MtcaDummy.Driver.Calls

namespace MtcaDummy

open Conc

variable {N : ℕ} {ι : Type} [DecidableEq ι]

/-- **Calls finish.**  There is no infinite run of finitely many calls; a run
    that cannot go on is one in which every call has replied; and every run can
    be continued to such a one. -/
theorem calls_finish [Finite ι] (B : Board N) (e : ι → Entry N) (ℓ : ι → Local) (s : Store) :
    (¬ ∃ f : ℕ → Config ι Loc.Val Mutex Note (ℤ × Local),
      ∀ n, ∃ ev, Step (B.calls e ℓ) (f n) ev (f (n + 1))) ∧
    ∀ h cfg, Run (B.calls e ℓ) s h cfg →
      ((∀ ev cfg', ¬ Step (B.calls e ℓ) cfg ev cfg') → ∀ t, ∃ a, cfg.thread t = .done a) ∧
      ∃ h' cfg', Run (B.calls e ℓ) s (h ++ h') cfg' ∧ ∀ t, ∃ a, cfg'.thread t = .done a := by
  have hc : ∀ t, Disciplined (B.protection False) (B.calls e ℓ t) :=
    fun t => Entry.disciplined False.elim
  refine ⟨?_, fun h cfg hr => ⟨?_, ?_⟩⟩
  · rintro ⟨f, hf⟩
    exact (wellFounded_iff_isEmpty_descending_chain.1 (Step.wellFounded (B.calls e ℓ))).false
      ⟨f, hf⟩
  · exact hr.done_of_stopped hc protection_level_le
  · exact hr.completes hc protection_level_le

/-- Two writes to the same device, the second of which waits for the first,
    are completed. -/
theorem calls_finish_two_writes : ∃ h cfg,
    Run (loadedBoard.calls (fun _ : Bool => .write 0 0 24) fun _ => ⟨noUser, [], 0, none, []⟩)
      (readyStore (fun _ _ => 0#32) nrDevs) h cfg ∧
    cfg.Waits true false ∧
    ∃ h' cfg', Run (loadedBoard.calls (fun _ : Bool => .write 0 0 24)
      fun _ => ⟨noUser, [], 0, none, []⟩) (readyStore (fun _ _ => 0#32) nrDevs) (h ++ h') cfg' ∧
      ∀ t, ∃ a, cfg'.thread t = .done a := by
  have hrun := ((Run.nil (c := loadedBoard.calls (fun _ : Bool => .write 0 0 24)
      fun _ => ⟨noUser, [], 0, none, []⟩) (s := readyStore (fun _ _ => 0#32) nrDevs)).snoc
    (.invoke (t := false) rfl)).snoc (.invoke (t := true) rfl)
  have hlock := hrun.snoc (.instr (t := false) rfl rfl)
  exact ⟨_, _, hlock, ⟨.controlMutex, ⟨false, _, rfl⟩, rfl⟩,
    ((calls_finish loadedBoard _ _ _).2 _ _ hlock).2⟩

end MtcaDummy

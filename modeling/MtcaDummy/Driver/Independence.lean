/-
  Devices do not interfere, in any interleaving.

  The calls on a device and the writes of the proc file touch only the cells of
  the device, and the calls on other devices write none of them.  So every run
  of concurrent calls can be restricted to what concerns one device:
  `concurrent_devices_apart`.
-/
import MtcaDummy.Conc.Restrict
import MtcaDummy.Driver.Calls
import MtcaDummy.Driver.Isolation

namespace MtcaDummy

open Conc

variable {N : ℕ}

/-- The call is one on device `a`, or a write of the proc file. -/
def Entry.Concerns (e : Entry N) (a : Fin N) : Prop := e.device = some a ∨ e.device = none

instance (e : Entry N) (a : Fin N) : Decidable (e.Concerns a) :=
  inferInstanceAs (Decidable (_ ∨ _))

section
variable {B : Board N} {a : Fin N} {e : Entry N} {ℓ : Local}

/-- What concerns a device touches only its cells. -/
theorem Entry.Concerns.within (h : e.Concerns a)
    (hdma : ∀ offset size, e.dmaRequest ℓ = some (offset, size) →
      offset.toNat + size.toNat < 2 ^ 32) :
    (e.body B ℓ).All fun i => ∀ l, i.Touches l → l ∈ {l | B.Cell a l} := by
  rcases h with hd | hnone
  · exact Entry.cells hd fun offset size hreq _ => hdma offset size hreq
  · cases e with
    | procWrite ubuf count =>
      refine (every_procWrite ubuf (min count maxRwCount) ℓ).mono fun i hi l hl => ?_
      obtain ⟨f, rfl⟩ := hi l hl
      exact trivial
    | _ => cases hnone

/-- What does not concern a device writes none of its cells. -/
theorem Entry.writes_no_cell_of_not_concerns (h : ¬ e.Concerns a) :
    (e.body B ℓ).All fun i => ∀ l, i.Writes l → l ∉ {l | B.Cell a l} := by
  cases hd : e.device with
  | none => exact absurd (.inr hd) h
  | some d =>
    refine Entry.writes_no_cell hd ?_ ℓ
    rintro rfl
    exact h (.inl hd)

end

section
variable {B : Board N} {ι : Type} [DecidableEq ι] {e : ι → Entry N} {ℓ : ι → Local} {s : Store}
  {h : List (Event ι)} {cfg : Config ι Loc.Val Mutex Note (ℤ × Local)}

/-- **Devices do not interfere.**  Whatever the interleaving, the calls on a
    device and the writes of the proc file do what they do without the calls
    on other devices: leaving out the events of these gives a run with the same
    replies, the same calls in progress, and the same cells of the device. -/
theorem concurrent_devices_apart (a : Fin N)
    (hdma : ∀ t, (e t).Concerns a → ∀ offset size,
      (e t).dmaRequest (ℓ t) = some (offset, size) → offset.toNat + size.toNat < 2 ^ 32)
    (hr : Run (B.calls e ℓ) s h cfg) :
    ∃ cfg', Run (B.calls e ℓ) s (eventsOf (fun t => (e t).Concerns a) h) cfg' ∧
      (∀ t, (e t).Concerns a → cfg'.thread t = cfg.thread t) ∧
      (∀ t, ¬ (e t).Concerns a → cfg'.thread t = .idle) ∧
      ∀ l, B.Cell a l → cfg'.store l = cfg.store l := by
  obtain ⟨cfg', hr', hR⟩ := hr.restrict (A := fun t => (e t).Concerns a) (K := {l | B.Cell a l})
    (P := B.protection False) (fun t => Entry.disciplined_any (e t) (ℓ t))
    (fun t ht => ht.within (hdma t ht)) fun t ht => Entry.writes_no_cell_of_not_concerns ht
  exact ⟨cfg', hr', hR.thread, hR.idle, hR.store⟩

/-- Beside the two calls on device 6, a write on device 4. -/
def threeCalls : Option Bool → Entry nrDevs
  | some t => readBesideWrite t
  | none => .write llrfSlot 0 24

def threeLocal : Option Bool → Local
  | some t => besideLocal t
  | none => ⟨.ofBytes (DeviceRw.bytes ⟨0#32, 51#32, rwD32, 2#32, 0#32, 0#32⟩), [], 0, none, []⟩

/-- The write on device 4 is in its section all the while. -/
def threeSchedule : List (Option Bool) :=
  List.replicate 5 none ++ besideSchedule.map some ++ List.replicate 20 none

/-- The read of device 6 has the words written there, with or without the write
    on device 4. -/
theorem concurrent_devices_apart_three : ∃ h cfg cfg',
    Run (sparseBoard.calls threeCalls threeLocal) (readyStore (fun _ _ => 0#32) nrDevs) h cfg ∧
    (cfg.thread none).result.map (answerWords 0) = some (24, []) ∧
    Run (sparseBoard.calls threeCalls threeLocal) (readyStore (fun _ _ => 0#32) nrDevs)
      (eventsOf (fun t => (threeCalls t).Concerns pcieuniSlot) h) cfg' ∧
    (cfg'.thread (some true)).result.map (answerWords 2) = some (0, [17#32, 34#32]) ∧
    cfg'.thread none = .idle := by
  obtain ⟨h, hr⟩ := sparseRun_run threeCalls threeLocal threeSchedule
  have hdma : ∀ t, (threeCalls t).Concerns pcieuniSlot → ∀ offset size,
      (threeCalls t).dmaRequest (threeLocal t) = some (offset, size) →
      offset.toNat + size.toNat < 2 ^ 32 := by
    rintro (_ | _ | _) hc offset size hreq
    · exact absurd hc (by decide)
    · cases hreq
    · cases hreq
      decide
  obtain ⟨cfg', hr', hthread, hidle, -⟩ := concurrent_devices_apart pcieuniSlot hdma hr
  refine ⟨h, _, cfg', hr, by decide +kernel, hr', ?_, hidle none (by decide)⟩
  rw [hthread (some true) (.inl rfl)]
  decide +kernel

end

end MtcaDummy

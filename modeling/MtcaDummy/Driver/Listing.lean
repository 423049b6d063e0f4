/-
  What the proc file says of the open files.

  Between the reads of the proc file the processes make system calls.
  `proc_shows_open_files`: each device is shown as some of the calls left it,
  with its bars if files of it were open through its `open`, and as not in use
  otherwise.  The counter has 32 bits, so `2 ^ 32` open files are shown as none.
-/
import MtcaDummy.Driver.Dump
import MtcaDummy.Driver.Refinement

namespace MtcaDummy

variable {N : ℕ}

/-- System calls, and then a read of the proc file that asks for some devices,
    with the signals that reach it. -/
structure Phase (N : ℕ) where
  calls : List (Request (Handle N))
  devices : ℕ
  signals : List Bool

/-- The calls of all phases. -/
def allCalls (ps : List (Phase N)) : List (Request (Handle N)) := ps.flatMap Phase.calls

/-- The reads of the proc file, with what the calls before them leave. -/
def World.reads (B : Board N) (w : World N) : List (Phase N) → List ProcRead
  | [] => []
  | p :: ps =>
    let w' := (w.run B p.calls).2
    ⟨p.devices, p.signals, w'.store⟩ :: w'.reads B ps

/-- The devices that the undisturbed reads ask for. -/
def askedIn (ps : List (Phase N)) : ℕ :=
  ((ps.filter fun p => p.signals.isEmpty).map Phase.devices).sum

/-- The lines show the device as it is: its bars if it has open files, and the
    counter did not wrap to zero. -/
structure World.Shows (B : Board N) (w : World N) (d : Fin N) (lines : List SeqLine) : Prop where
  finite : (w.opened d).Finite
  unused : 2 ^ 32 ∣ (w.opened d).ncard →
    lines = [⟨"Device %i not in use.\n\n", [BitVec.ofNat 32 d]⟩]
  used : ¬ 2 ^ 32 ∣ (w.opened d).ncard → lines = (B.bars d w.store).dump (BitVec.ofNat 32 d)

section
variable {B : Board N} {w : World N}

theorem run_append (rs rs' : List (Request (Handle N))) :
    (w.run B (rs ++ rs')).2 = ((w.run B rs).2.run B rs').2 := by
  induction rs generalizing w with
  | nil => rfl
  | cons r rs ih => rw [List.cons_append, run_cons, run_cons, ih]

/-- A read finds what a part of the calls leaves. -/
theorem mem_reads {ps : List (Phase N)} {r : ProcRead} (hr : r ∈ w.reads B ps) :
    ∃ rs, rs <+: allCalls ps ∧ r.store = (w.run B rs).2.store := by
  induction ps generalizing w with
  | nil => exact absurd hr List.not_mem_nil
  | cons p ps ih =>
    rw [allCalls, List.flatMap_cons]
    rcases List.mem_cons.1 hr with rfl | hr
    · exact ⟨p.calls, List.prefix_append _ _, rfl⟩
    · obtain ⟨rs, hrs, hstore⟩ := ih hr
      refine ⟨p.calls ++ rs, (List.prefix_append_right_inj p.calls).2 hrs, ?_⟩
      rw [hstore, run_append]

theorem asked_reads (ps : List (Phase N)) : asked (w.reads B ps) = askedIn ps := by
  induction ps generalizing w with
  | nil => rfl
  | cons p ps ih =>
    have htail := ih (w := (w.run B p.calls).2)
    rw [asked, askedIn] at htail ⊢
    rw [World.reads, List.filter_cons, List.filter_cons]
    dsimp only
    split
    · rw [List.map_cons, List.map_cons, List.sum_cons, List.sum_cons, htail]
    · exact htail

/-- As long as the files are counted, a device is shown as in use if it has open
    files. -/
theorem shown_shows (hw : w.Counts B) (d : Fin N) : w.Shows B d (B.shown d w.store) := by
  rw [Board.shown, hw.inUse d, B.slotNr_ofNat]
  exact {
    finite := hw.finite d
    unused := fun h => if_pos (ofNat_eq_zero_iff.2 h)
    used := fun h => if_neg fun h0 => h (ofNat_eq_zero_iff.1 h0) }

end

/-- **The proc file shows the open files.**  A file of the proc file is read
    while the processes make system calls on a module just loaded.  However the
    reading is split between the devices and interrupted, the devices shown are
    the first ones, and each is shown as a part of the calls left it: with the
    contents of its bars then, or as not in use if the number of its open files
    is a multiple of `2 ^ 32`.  Reads that are not interrupted and ask for as
    many devices as there are show them all. -/
theorem proc_shows_open_files {out : Outcomes} {mem : Ptr → ℕ → U32} (hN : N ≤ 2 ^ 32)
    (hl : (loaded N out mem).1 = 0) (user : UserMem) (ps : List (Phase N)) :
    let B := Board.loaded hl hN
    let w := (World.start (loaded N out mem).2.store : World N)
    ∃ (p : ℕ) (lines : ℕ → List SeqLine),
      B.readProc user (w.reads B ps) (0, []) = (p, (List.range p).flatMap lines) ∧
      p ≤ N ∧ (N ≤ askedIn ps → p = N) ∧
      ∀ d : Fin N, (d : ℕ) < p →
        ∃ rs, rs <+: allCalls ps ∧ (w.run B rs).2.Shows B d (lines d) := by
  intro B w
  obtain ⟨p, found, hp, hread, hfound, hall⟩ := proc_file_complete B user (w.reads B ps)
  rw [asked_reads] at hall
  refine ⟨p, fun d => B.shown d (found d), hread, hp, hall, fun d hd => ?_⟩
  obtain ⟨r, hr, hfind⟩ := hfound d hd
  obtain ⟨rs, hrs, hstore⟩ := mem_reads hr
  refine ⟨rs, hrs, ?_⟩
  dsimp only
  rw [hfind, hstore]
  refine shown_shows (World.run_invariant (I := fun w => w.Counts B) (fun _ _ h => step_counts h)
    (World.start_counts fun d => ?_) rs) d
  rw [(loaded_ready hl).store]
  rfl

/-- The first three devices are read, then a file of device 4 is opened, and the
    others are read. -/
theorem proc_shows_open_files_one :
    let ps : List (Phase nrDevs) := [⟨[], 3, []⟩,
      ⟨[⟨.opn ⟨4, 0⟩, .ofBytes fun _ => 0, []⟩], 16, []⟩]
    let w := (World.start (loaded nrDevs .success fun _ _ => 0#32).2.store : World nrDevs)
    ∃ lines, (loadedBoard.readProc (.ofBytes fun _ => 0) (w.reads loadedBoard ps) (0, [])).2 =
        (List.range nrDevs).flatMap lines ∧
      ∀ d : Fin nrDevs, ∃ rs, rs <+: allCalls ps ∧ (w.run loadedBoard rs).2.Shows loadedBoard d
        (lines d) := by
  intro ps w
  obtain ⟨p, lines, hread, -, hall, hshows⟩ := proc_shows_open_files (N := nrDevs) (by decide)
    (loaded_success nrDevs fun _ _ => 0#32) (.ofBytes fun _ => 0) ps
  obtain rfl := hall (by decide)
  exact ⟨lines, congrArg Prod.snd hread, fun d => hshows d d.isLt⟩

end MtcaDummy

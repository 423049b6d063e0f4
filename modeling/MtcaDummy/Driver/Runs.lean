/-
  The runs of the module are those of the crate.

  The crate never gives up (`Crate.step_not_givesUp`), and a call of the module
  gives up without effect or does what the crate does (`refines_crate`).
  `runs_refine_crate`: without the calls that were interrupted, the replies of
  a run of system calls are those of the crate, and the state is one of the
  crate.  The crate has no memory behind the bars, so no read by DMA may wrap.
-/
import MtcaDummy.Driver.Restart
import MtcaDummy.Driver.Transfers

namespace MtcaDummy

open Conc

variable {N : ℕ}

/-! ## The crate never gives up -/

theorem not_givesUp_of_nonneg {e : ℤ} (h : 0 ≤ e) : ¬ GivesUp e :=
  fun he => Int.not_lt.2 h he.lt

theorem not_givesUp_fault : ¬ GivesUp (-EFAULT) := by decide

theorem not_givesUp_io : ¬ GivesUp (- EIO) := by decide

theorem answer_not_givesUp {u : UserMem} {dst : ℕ} {a : Answer} (ha : ¬ GivesUp a.val) :
    ¬ GivesUp (u.answer dst a).1 := by
  unfold UserMem.answer
  dsimp only
  split
  · exact ha
  · exact not_givesUp_fault

theorem structReply_not_givesUp (b : Bars) (slotNr : U32) (u : UserMem) (buf count : ℕ) :
    ¬ GivesUp (b.structReply slotNr u buf count).val := by
  unfold Bars.structReply
  split
  · generalize DeviceRw.ofBytes (u.fetch buf sizeofDeviceRw) = r
    unfold Bars.structAnswer
    split_ifs
    · exact not_givesUp_of_nonneg (Int.natCast_nonneg _)
    · split
      · exact not_givesUp_fault
      · split
        · exact not_givesUp_io
        · exact not_givesUp_of_nonneg (Int.natCast_nonneg _)
    · exact not_givesUp_of_nonneg (Int.le_refl 0)
    · exact not_givesUp_fault
    · exact not_givesUp_of_nonneg (Int.natCast_nonneg _)
    · exact not_givesUp_fault
  · exact not_givesUp_fault

theorem ioctl_not_givesUp (c : IoctlConstants) (slotNr : U32) (b : Bars) (u : UserMem) (cmd : U32)
    (arg : ℕ) : ¬ GivesUp (c.answer slotNr b u cmd arg).val := by
  have hzero : ¬ GivesUp 0 := by decide
  have htty : ¬ GivesUp (-ENOTTY) := by decide
  have hdata : ∀ fill, ¬ GivesUp (dataAnswer u arg fill).val := fun fill => by
    unfold dataAnswer
    split
    · exact hzero
    · exact not_givesUp_fault
  unfold IoctlConstants.answer IoctlConstants.command
  split_ifs
  · exact htty
  · exact not_givesUp_fault
  · exact hdata _
  · exact hdata _
  · unfold Bars.dmaAnswer
    dsimp only
    split
    · exact hzero
    · exact not_givesUp_fault
  · exact htty

theorem deliver_not_givesUp {b : Bars} {bar : Bar} {w k : ℕ} {u : UserMem} {buf : ℕ} {e : ℤ}
    (h : (b.deliver bar w k u buf).err = some e) : ¬ GivesUp e := by
  unfold Bars.deliver at h
  dsimp only at h
  split_ifs at h
  · cases h
    exact not_givesUp_fault
  · cases h
    exact not_givesUp_io

theorem block_not_givesUp {spiFail : ℕ → Bool} {bar : Bar} {w : ℕ} {copy : ℕ → U32 × Bool}
    {k i : ℕ} {b : Bars} {e : ℤ} (h : (Bars.block spiFail bar w copy k i b).err = some e) :
    ¬ GivesUp e := by
  induction k generalizing i b with
  | zero => cases h
  | succ k ih =>
    rw [Bars.block] at h
    split_ifs at h
    · cases h
      exact not_givesUp_fault
    · cases h
      exact not_givesUp_io
    · exact ih h

/-- The return value of a transfer of words: an error, or the bytes. -/
theorem getD_not_givesUp {err : Option ℤ} {n : ℕ} (h : ∀ e, err = some e → ¬ GivesUp e) :
    ¬ GivesUp (err.getD (4 * n)) := by
  cases err with
  | none => exact not_givesUp_of_nonneg (by rw [Option.getD_none]; omega)
  | some e => exact h e rfl

namespace Interface

variable {slotNr : U32} {fails : Flag → Bool} {b : Bars} {u : UserMem} {buf count pos : ℕ}
  {I : Interface} {t : Transfer}

theorem read_not_givesUp (h : I.read slotNr fails b u buf count pos = some t) :
    ¬ GivesUp t.ret := by
  cases I with
  | bare => cases h
  | struct c =>
    unfold read at h
    dsimp only at h
    split at h
    · cases h
      exact not_givesUp_fault
    · cases h
      exact answer_not_givesUp (structReply_not_givesUp _ _ _ _ _)
  | plain c =>
    cases h
    unfold Bars.noStructRead
    split
    · exact not_givesUp_fault
    · split
      · rename_i e he
        rw [span_error he]
        exact not_givesUp_fault
      · exact getD_not_givesUp fun e he => deliver_not_givesUp he

theorem write_not_givesUp (h : I.write fails b u buf count pos = some t) : ¬ GivesUp t.ret := by
  cases I with
  | bare => cases h
  | struct c =>
    cases h
    unfold Bars.structPut
    split
    · exact not_givesUp_fault
    · split
      · exact not_givesUp_fault
      · dsimp only
        split
        · exact not_givesUp_io
        · exact not_givesUp_of_nonneg (Int.natCast_nonneg _)
  | plain c =>
    cases h
    unfold Bars.plainPut
    split
    · exact not_givesUp_fault
    · split
      · rename_i e he
        rw [span_error he]
        exact not_givesUp_fault
      · exact getD_not_givesUp fun e he => block_not_givesUp he

theorem ioctl_not_givesUp {cmd : U32} {arg : ℕ} (h : I.ioctl slotNr b u cmd arg = some t) :
    ¬ GivesUp t.ret := by
  obtain ⟨c, -, rfl⟩ := Option.map_eq_some_iff.1 h
  exact answer_not_givesUp (MtcaDummy.ioctl_not_givesUp c slotNr b u cmd arg)

end Interface

theorem Crate.finish_not_givesUp {k : Crate N} {u : UserMem} {missing : ℤ} {h : Handle N}
    {moved : Option ℕ} {t : Option Transfer} (hmissing : ¬ GivesUp missing)
    (ht : ∀ x, t = some x → ¬ GivesUp x.ret) :
    ¬ GivesUp (k.finish u missing h moved t).1.ret := by
  cases t with
  | none => exact hmissing
  | some x => exact ht x rfl

/-- **The crate never gives up.** -/
theorem Crate.step_not_givesUp (k : Crate N) (I : Fin N → Interface) (r : Request (Handle N)) :
    ¬ GivesUp (k.step I r).1.ret := by
  have hbadf : ¬ GivesUp (-EBADF) := by decide
  have hinval : ¬ GivesUp (-EINVAL) := by decide
  have hzero : ¬ GivesUp 0 := by decide
  unfold Crate.step
  cases r.call with
  | opn h =>
    dsimp only
    split
    · exact hbadf
    · split
      · exact hinval
      · exact hzero
  | release h =>
    dsimp only
    split
    · exact hbadf
    · exact hzero
  | read h buf count pos =>
    dsimp only
    split
    · exact hbadf
    · exact finish_not_givesUp hinval fun x hx => Interface.read_not_givesUp hx
  | write h buf count pos =>
    dsimp only
    split
    · exact hbadf
    · exact finish_not_givesUp hinval fun x hx => Interface.write_not_givesUp hx
  | ioctl h cmd arg =>
    dsimp only
    split
    · exact hbadf
    · exact finish_not_givesUp (by decide) fun x hx => Interface.ioctl_not_givesUp hx
  | procWrite ubuf count =>
    dsimp only
    split
    · exact not_givesUp_fault
    · exact not_givesUp_of_nonneg (Int.natCast_nonneg _)

/-! ## Runs -/

/-- The calls of a run of the crate with their replies, and the crate it
    leaves. -/
def Crate.run (I : Fin N → Interface) (k : Crate N) (rs : List (Request (Handle N))) :
    List (Request (Handle N) × Reply) × Crate N :=
  answers (fun k r => k.step I r) k rs

theorem World.run_eq_answers (B : Board N) (w : World N) (rs : List (Request (Handle N))) :
    w.run B rs = answers (fun w r => w.step B r) w rs := by
  induction rs generalizing w with
  | nil => rfl
  | cons r rs ih => rw [run_cons, answers_cons, ih]

/-- The reply of a call that a signal interrupted. -/
def Reply.GaveUp (x : Reply) : Prop := GivesUp x.ret

instance : DecidablePred Reply.GaveUp := fun _ => instDecidableOr

section
variable {B : Board N} {w : World N} {r : Request (Handle N)}

/-- A call gives up and changes nothing, or does what the crate does. -/
theorem step_gaveUp_or_sameAs (hw : w.Counts B) (hr : r.Bearable) (hin : r.InRange B) :
    ((w.step B r).1.GaveUp ∧ (w.step B r).1.user = r.user ∧ (w.step B r).2 = w) ∨
      (¬ (w.step B r).1.GaveUp ∧ SameAs B (w.step B r) ((w.crate B).step B.interface r)) := by
  rcases step_patient (B := B) (w := w) hr with ⟨e, he, hstep⟩ | hstep
  · rw [hstep]
    exact .inl ⟨he, rfl, rfl⟩
  · have hsame : SameAs B (w.step B r) ((w.crate B).step B.interface r) := by
      rw [hstep]
      exact step_sameAs (r := r.calm) hw rfl hin
    refine .inr ⟨fun hgave => ?_, hsame⟩
    rw [Reply.GaveUp, hsame.1] at hgave
    exact Crate.step_not_givesUp _ _ _ hgave

end

/-- **The module refines the crate**, as long as the open files are counted, no
    signal reaches the firmware and no read by DMA wraps. -/
theorem refines_crate (B : Board N) :
    Refines (fun w r => World.step B w r) (fun k r => Crate.step k B.interface r)
      (fun r => r.Bearable ∧ r.InRange B) (fun w => w.Counts B) Reply.GaveUp (World.crate B) where
  keeps _ _ hw _ := step_counts hw
  skips w r hw hr hskip := by
    rcases step_gaveUp_or_sameAs hw hr.1 hr.2 with ⟨-, -, hstep⟩ | ⟨hnot, -⟩
    · exact congrArg (World.crate B) hstep
    · exact absurd hskip hnot
  answer w r hw hr hnot := by
    rcases step_gaveUp_or_sameAs hw hr.1 hr.2 with ⟨hskip, -, -⟩ | ⟨-, hsame⟩
    · exact absurd hskip hnot
    · exact hsame.1
  state w r hw hr hnot := by
    rcases step_gaveUp_or_sameAs hw hr.1 hr.2 with ⟨hskip, -, -⟩ | ⟨-, hsame⟩
    · exact absurd hskip hnot
    · exact hsame.2

/-- What a call that gave up leaves to its process, and that one without
    signals does not give up. -/
theorem step_gaveUp {B : Board N} {w : World N} {r : Request (Handle N)} (hw : w.Counts B)
    (hr : r.Bearable ∧ r.InRange B) : (w.step B r).1.GaveUp →
      (w.step B r).1.user = r.user ∧ r.signals ≠ [] := by
  intro hgave
  refine ⟨?_, fun hsig => ?_⟩
  · rcases step_gaveUp_or_sameAs hw hr.1 hr.2 with ⟨-, huser, -⟩ | ⟨hnot, -⟩
    · exact huser
    · exact absurd hgave hnot
  · have hsame := step_sameAs (B := B) hw hsig hr.2
    rw [Reply.GaveUp, hsame.1] at hgave
    exact Crate.step_not_givesUp _ _ _ hgave

/-! ## The module just loaded -/

/-- The interface of a slot. -/
def slotInterface (slot : ℕ) : Interface :=
  if slot = 4 then .struct (some llrfDummyConstants)
  else if slot = 5 then .bare
  else if slot = 6 then .plain pcieuniDummyConstants
  else .struct (some mtcaDummyConstants)

/-- The words of a device just set up. -/
def Contents.initial : Contents := fun bar i => initialWord bar i

/-- A crate that nobody has used. -/
def Crate.fresh : Crate N where
  bars _ := .initial
  fails _ := false
  files _ := none

section
variable {out : Outcomes} {mem : Ptr → ℕ → U32}

theorem interface_loaded (hN : N ≤ 2 ^ 32) (hl : (loaded N out mem).1 = 0) (d : Fin N) :
    (Board.loaded hl hN).interface d = slotInterface d := by
  rw [Board.interface, Board.loaded_data, readyData, if_pos d.isLt]
  dsimp only [readyDevice]
  unfold slotOps slotInterface
  split_ifs <;> rfl

theorem fresh_crate (hN : N ≤ 2 ^ 32) (hl : (loaded N out mem).1 = 0) :
    (World.start (loaded N out mem).2.store).crate (Board.loaded hl hN) =
      (Crate.fresh : Crate N) := by
  rw [World.crate, Crate.fresh, Crate.mk.injEq]
  refine ⟨funext fun d => funext fun bar => funext fun i => ?_, funext fun f => ?_, rfl⟩
  · have hword := readyStore_bar (Board.loaded_data hl hN) mem d.isLt i.isLt
    rw [← (loaded_ready hl).store] at hword
    exact (bars_word bar i).symm.trans hword
  · rw [World.start, (loaded_ready hl).store]
    rfl

/-- **The module is the crate.**  In every run of system calls of a module just
    loaded, on any files, the calls that a signal interrupted fail and change
    nothing; and without them the run has exactly the replies of the fresh
    crate, and leaves its bars, error flags and positions.  Writes may be
    interrupted at the locks they take themselves, and a read by DMA has to ask
    for a range whose end does not wrap, if it passes the check. -/
theorem runs_refine_crate (hN : N ≤ 2 ^ 32) (hl : (loaded N out mem).1 = 0) :
    let B := Board.loaded hl hN
    let w := (World.start (loaded N out mem).2.store : World N)
    ∀ rs : List (Request (Handle N)), (∀ r ∈ rs, r.Bearable ∧ r.InRange B) →
      let done := (w.run B rs).1.filter fun x => ¬ x.2.GaveUp
      Crate.fresh.run (fun d => slotInterface d) (done.map Prod.fst) =
          (done, (w.run B rs).2.crate B) ∧
        ∀ x ∈ (w.run B rs).1, x.2.GaveUp → x.2.user = x.1.user ∧ x.1.signals ≠ [] := by
  intro B w rs hrs
  have hcounts : w.Counts B := World.start_counts fun d => by
    rw [(loaded_ready hl).store]
    rfl
  have hI : B.interface = fun d : Fin N => slotInterface d := funext (interface_loaded hN hl)
  have hfresh : w.crate B = Crate.fresh := fresh_crate hN hl
  rw [World.run_eq_answers, ← hI, ← hfresh]
  exact ⟨(refines_crate B).answers hrs hcounts,
    answers_all (Q := fun r x => x.GaveUp → x.user = r.user ∧ r.signals ≠ [])
      (refines_crate B).keeps (fun w r hw hr => step_gaveUp hw hr) hrs hcounts⟩

end

/-- After the calls on two devices, a word is written in vain, the words are
    read again, and a device without methods is opened. -/
def interruptedRun : List (Request (Handle nrDevs)) :=
  let six : Handle nrDevs := ⟨pcieuniSlot, 0⟩
  twoDeviceRun ++ [⟨.write six 0 4 (some (2 * 2 ^ 60)), .ofBytes fun _ => 1, [false, true]⟩,
    ⟨.read six 0 8 (some (2 * 2 ^ 60)), .ofBytes fun _ => 0, []⟩,
    ⟨.opn ⟨noIoctlSlot, 0⟩, .ofBytes fun _ => 0, []⟩]

theorem interruptedRun_replies :
    let w : World nrDevs := .start (loaded nrDevs .success fun _ _ => 0#32).2.store
    ((w.run loadedBoard interruptedRun).1.map fun x =>
        (x.2.ret, wordAt x.2.user.byte 0, wordAt x.2.user.byte 4)) =
      [(0, 0#32, 0#32), (0, 0#32, 0#32), (8, 17#32, 34#32), (24, 0#32, 51#32), (4, 51#32, 0#32),
        (0, 17#32, 34#32), (-ERESTARTSYS, 0x01010101#32, 0x01010101#32), (8, 17#32, 34#32),
        (0, 0#32, 0#32)] := by
  rw [loadedBoard_eq, loaded_success_store]
  decide +kernel

/-- Without the write in vain, this is the run of the crate. -/
theorem runs_refine_crate_interrupted :
    let w : World nrDevs := .start (loaded nrDevs .success fun _ _ => 0#32).2.store
    let done := (w.run loadedBoard interruptedRun).1.filter fun x => ¬ x.2.GaveUp
    ((w.run loadedBoard interruptedRun).1.map fun x =>
        (x.2.ret, wordAt x.2.user.byte 0, wordAt x.2.user.byte 4)) =
      [(0, 0#32, 0#32), (0, 0#32, 0#32), (8, 17#32, 34#32), (24, 0#32, 51#32), (4, 51#32, 0#32),
        (0, 17#32, 34#32), (-ERESTARTSYS, 0x01010101#32, 0x01010101#32), (8, 17#32, 34#32),
        (0, 0#32, 0#32)] ∧
    Crate.fresh.run (fun d => slotInterface d) (done.map Prod.fst) =
      (done, (w.run loadedBoard interruptedRun).2.crate loadedBoard) := by
  have hin : ∀ r ∈ interruptedRun, r.Bearable ∧ r.InRange loadedBoard := by
    have hdecodes : ∀ r ∈ interruptedRun, r.decodesInRange = true := by decide +kernel
    refine fun r hr => ⟨?_, (Request.dmaInRange_of_decodes (hdecodes r hr)).inRange⟩
    simp only [interruptedRun, twoDeviceRun, List.cons_append, List.nil_append, List.mem_cons,
      List.not_mem_nil, or_false] at hr
    rcases hr with rfl | rfl | rfl | rfl | rfl | rfl | rfl | rfl | rfl <;> simp [Request.Bearable]
  refine ⟨interruptedRun_replies, ?_⟩
  generalize interruptedRun = rs at hin
  exact (runs_refine_crate (by decide) (loaded_success nrDevs fun _ _ => 0#32) rs hin).1

end MtcaDummy

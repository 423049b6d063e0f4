/-
  Error injection: while an error flag is set, the calls it is for fail, and
  the run goes on as if they had not been made.

  `gated_calls_leave_no_trace`: every open with `open_error` set, every read
  with `read_error` set and every write with `write_error` set returns an
  error and leaves the memory of its process alone, and without these calls a
  run has the same replies and ends in the same world.
-/
import MtcaDummy.Driver.Vfs
import MtcaDummy.Driver.Init

namespace MtcaDummy

variable {N : ℕ}

/-! ## One call -/

/-- The flag is set that lets the call fail. -/
def World.gated (w : World N) (r : Request (Handle N)) : Bool :=
  match r.call with
  | .opn _ => w.store (.flag .openError)
  | .read _ _ _ _ => w.store (.flag .readError)
  | .write _ _ _ _ => w.store (.flag .writeError)
  | _ => false

/-- The call fails and changes nothing but the signals to come. -/
def Fails (x : KM ℤ) (ℓ : Local) (s : Store) : Prop :=
  (exec x ℓ s).val < 0 ∧ (exec x ℓ s).loc.user = ℓ.user ∧ (exec x ℓ s).store = s

/-- The gate at the start of an entry point: a flag is read under the control
    mutex, and the call fails if it is set. -/
theorem fails_of_flag {f : Flag} {e : ℤ} {k : KM ℤ} {ℓ : Local} {s : Store} (he : e < 0)
    (hf : s (.flag f) = true) : Fails (do
      if ← mutexLockInterruptible .controlMutex then
        return -ERESTARTSYS
      else
        let v ← controlData f
        mutexUnlock .controlMutex
        if v then return e else k) ℓ s := by
  simp only [Fails, exec_bind, exec_lock, next_mk]
  cases ℓ.signals.headD false with
  | true => exact ⟨show -ERESTARTSYS < 0 by decide, rfl, rfl⟩
  | false =>
    simp only [Bool.false_eq_true, if_false, exec_bind, exec_controlData, next_mk, exec_unlock, hf,
      if_true, exec_pure, he, true_and]

section
variable {B : Board N} {d buf count : ℕ} {ℓ : Local} {s : Store}

theorem fails_open (hf : s (.flag .openError) = true) : Fails (mtcaDummyOpen d) ℓ s :=
  fails_of_flag (by decide) hf

theorem fails_read (hf : s (.flag .readError) = true) : Fails (mtcaDummyRead B d buf count) ℓ s :=
  fails_of_flag (by decide) hf

theorem fails_write (hf : s (.flag .writeError) = true) :
    Fails (mtcaDummyWrite B d buf count) ℓ s :=
  fails_of_flag (by decide) hf

theorem fails_readNoStruct (hf : s (.flag .readError) = true) :
    Fails (mtcaDummyReadNoStruct B d buf count) ℓ s :=
  fails_of_flag (by decide) hf

theorem fails_writeNoStruct (hf : s (.flag .writeError) = true) :
    Fails (mtcaDummyWriteNoStruct B d buf count) ℓ s :=
  fails_of_flag (by decide) hf

end

/-- The tables that have an open, a read and a write method. -/
def FopsName.Serves : FopsName → Prop
  | mtcaDummyFileOps | llrfDummyFileOps | pcieuniDummyFileOps => True
  | _ => False

/-- The device has one of these tables. -/
def Board.Served (B : Board N) (d : Fin N) : Prop :=
  ∃ name, (B.dummyPrivateData d).cdevOps = some name ∧ name.Serves

section
variable {B : Board N} {d : Fin N} {ℓ : Local} {s : Store}

/-- The open method of such a device. -/
theorem Board.Served.opn (h : B.Served d) : (B.ops d).opn = some .opn := by
  obtain ⟨name, hname, hserves⟩ := h
  rw [Board.ops, hname]
  cases name <;> first | rfl | exact hserves.elim

/-- Its read method is that of one of the interfaces. -/
theorem Board.Served.read (h : B.Served d) :
    (B.ops d).read = some .read ∨ (B.ops d).read = some .readNoStruct := by
  obtain ⟨name, hname, hserves⟩ := h
  rw [Board.ops, hname]
  cases name <;> first | exact .inl rfl | exact .inr rfl | exact hserves.elim

/-- So is its write method. -/
theorem Board.Served.write (h : B.Served d) :
    (B.ops d).write = some .write ∨ (B.ops d).write = some .writeNoStruct := by
  obtain ⟨name, hname, hserves⟩ := h
  rw [Board.ops, hname]
  cases name <;> first | exact .inl rfl | exact .inr rfl | exact hserves.elim

/-- A transfer by a method that fails. -/
theorem vfsTransfer_fails {w : World N} {r : Request (Handle N)} {h : Handle N} {pos : Option ℕ}
    {m : Fin N → Entry N} (hm : r.method B = some m)
    (hfails : ∀ p ℓ, Fails ((m p).body B) ℓ w.store) :
    (w.vfsTransfer B r h pos).1.ret < 0 ∧ (w.vfsTransfer B r h pos).1.user = r.user ∧
      (w.vfsTransfer B r h pos).2 = w := by
  unfold World.vfsTransfer
  cases hfile : w.files h with
  | none => exact ⟨show -EBADF < 0 by decide, rfl, rfl⟩
  | some f =>
    simp only [World.run₁, hm, Option.bind_some]
    cases toDevice f.privateData with
    | none => exact ⟨show -EINVAL < 0 by decide, rfl, rfl⟩
    | some p =>
      obtain ⟨hval, huser, hstore⟩ := hfails p (World.enter r (pos.getD f.fPos) f.privateData)
      simp only [Option.map_some, Int.not_le.2 hval, and_false, if_false, hstore]
      exact ⟨hval, huser, trivial⟩

/-- **A gated call fails** and leaves the world and the memory of its process
    as they are. -/
theorem step_gated {w : World N} {r : Request (Handle N)}
    (hserved : ∀ h, r.call.file = some h → B.Served h.slot) (hg : w.gated r = true) :
    (w.step B r).1.ret < 0 ∧ (w.step B r).1.user = r.user ∧ (w.step B r).2 = w := by
  obtain ⟨call, user, signals⟩ := r
  cases call with
  | opn h =>
    simp only [World.step, World.chrdevOpen, Request.method, (hserved h rfl).opn]
    cases w.files h with
    | some f => exact ⟨show -EBADF < 0 by decide, rfl, rfl⟩
    | none =>
      obtain ⟨hval, huser, hstore⟩ := fails_open (d := h.slot)
        (ℓ := World.enter ⟨.opn h, user, signals⟩ 0 none) hg
      simp only [Entry.body, hval, if_true, hstore, true_and, and_true]
      exact huser
  | read h buf count pos =>
    rcases (hserved h rfl).read with hops | hops
    · have hm : Request.method B ⟨.read h buf count pos, user, signals⟩ =
          some fun p => .read p buf count := by simp [Request.method, hops]
      exact vfsTransfer_fails hm fun p ℓ => fails_read hg
    · have hm : Request.method B ⟨.read h buf count pos, user, signals⟩ =
          some fun p => .readNoStruct p buf count := by simp [Request.method, hops]
      exact vfsTransfer_fails hm fun p ℓ => fails_readNoStruct hg
  | write h buf count pos =>
    rcases (hserved h rfl).write with hops | hops
    · have hm : Request.method B ⟨.write h buf count pos, user, signals⟩ =
          some fun p => .write p buf count := by simp [Request.method, hops]
      exact vfsTransfer_fails hm fun p ℓ => fails_write hg
    · have hm : Request.method B ⟨.write h buf count pos, user, signals⟩ =
          some fun p => .writeNoStruct p buf count := by simp [Request.method, hops]
      exact vfsTransfer_fails hm fun p ℓ => fails_writeNoStruct hg
  | _ => cases hg

end

/-! ## Runs -/

/-- Which calls of a run are gated when they are made. -/
def World.gates (B : Board N) (w : World N) : List (Request (Handle N)) → List Bool
  | [] => []
  | r :: rs => w.gated r :: gates B (w.step B r).2 rs

/-- The entries of a list whose gate is open. -/
def ungated {α : Type} (gates : List Bool) (xs : List α) : List α :=
  ((xs.zip gates).filter fun x => !x.2).map Prod.fst

theorem ungated_cons {α : Type} (g : Bool) (gates : List Bool) (x : α) (xs : List α) :
    ungated (g :: gates) (x :: xs) = if g then ungated gates xs else x :: ungated gates xs := by
  cases g <;> rfl

/-- **Error injection is complete and leaves no trace.**  On devices with an
    open, a read and a write method, every gated call of a run returns an
    error and leaves the memory of its process as it was; and the run without
    these calls gives the same replies to the others and ends in the same
    world. -/
theorem gated_calls_leave_no_trace (B : Board N) (w : World N) (rs : List (Request (Handle N)))
    (hserved : ∀ r ∈ rs, ∀ h, r.call.file = some h → B.Served h.slot) :
    (∀ x ∈ (w.run B rs).1.zip (w.gates B rs), x.2 = true →
        x.1.2.ret < 0 ∧ x.1.2.user = x.1.1.user) ∧
      w.run B (ungated (w.gates B rs) rs) =
        (ungated (w.gates B rs) (w.run B rs).1, (w.run B rs).2) := by
  induction rs generalizing w with
  | nil => exact ⟨nofun, rfl⟩
  | cons r rs ih =>
    have hr := hserved r List.mem_cons_self
    obtain ⟨ihret, ihrun⟩ := ih (w.step B r).2 fun r hr => hserved r (List.mem_cons_of_mem _ hr)
    simp only [World.gates, run_cons, ungated_cons, List.zip_cons_cons]
    refine ⟨fun x hx hg => ?_, ?_⟩
    · rcases List.mem_cons.1 hx with rfl | hx
      · exact ⟨(step_gated hr hg).1, (step_gated hr hg).2.1⟩
      · exact ihret x hx hg
    · cases hg : w.gated r with
      | true =>
        -- the call is dropped: it left the world as it was
        have hw := (step_gated hr hg).2.2
        rw [hw] at ihrun ⊢
        exact ihrun
      | false =>
        simp only [Bool.false_eq_true, if_false, run_cons, ihrun]

/-- `open_error` is set through the proc file, and the device is opened. -/
theorem gated_calls_leave_no_trace_open :
    let rs : List (Request (Handle nrDevs)) :=
      [⟨.procWrite 0 6, .ofBytes fun i => [0x6F#8, 0x70#8, 0x65#8, 0x6E#8, 0x3A#8, 0x31#8].getD i 0,
        []⟩, ⟨.opn ⟨0, 0⟩, .ofBytes fun _ => 0, []⟩]
    let w := World.start (readyStore (fun _ _ => 0#32) nrDevs)
    (∀ x ∈ (w.run loadedBoard rs).1.zip (w.gates loadedBoard rs), x.2 = true →
        x.1.2.ret < 0 ∧ x.1.2.user = x.1.1.user) ∧
      w.run loadedBoard (ungated (w.gates loadedBoard rs) rs) =
        (ungated (w.gates loadedBoard rs) (w.run loadedBoard rs).1, (w.run loadedBoard rs).2) := by
  intro rs w
  refine gated_calls_leave_no_trace loadedBoard w rs fun r hr h hh => ?_
  have hslot : h.slot = 0 := by
    rcases List.mem_cons.1 hr with rfl | hr
    · cases hh
    · cases List.mem_singleton.1 hr
      cases hh
      rfl
  refine ⟨.mtcaDummyFileOps, ?_, trivial⟩
  rw [hslot, loadedBoard_data]
  rfl

end MtcaDummy

/-
  A system call of the module is one of the crate.

  `World.crate B w` is the crate that a world stands for.  The method of a
  request in range touches only the cells of its device, so it does the same
  where nothing lies behind the bars (`Board.trim`).  There it comes to the
  transfer of the interface (`run₁_read`, `run₁_write`, `run₁_ioctl`), and so a
  system call that no signal interrupts to the step of the crate
  (`step_sameAs`).
-/
import MtcaDummy.Driver.Crate
import MtcaDummy.Driver.Effects
import MtcaDummy.Driver.UseCount

namespace MtcaDummy

open Conc

variable {N : ℕ}

section
variable {B : Board N} {w : World N} {r : Request (Handle N)} {d : Fin N} {h : Handle N}

/-! ### The methods of an interface -/

theorem Board.read_eq (B : Board N) (d : Fin N) : (B.ops d).read =
    match B.interface d with
    | .struct _ => some .read
    | .plain _ => some .readNoStruct
    | .bare => none := by
  unfold Board.ops Board.interface
  cases (B.dummyPrivateData d).cdevOps with
  | none => rfl
  | some name => cases name <;> rfl

theorem Board.write_eq (B : Board N) (d : Fin N) : (B.ops d).write =
    match B.interface d with
    | .struct _ => some .write
    | .plain _ => some .writeNoStruct
    | .bare => none := by
  unfold Board.ops Board.interface
  cases (B.dummyPrivateData d).cdevOps with
  | none => rfl
  | some name => cases name <;> rfl

theorem Board.opn_eq (B : Board N) (d : Fin N) :
    (B.ops d).opn = if (B.interface d).HasMethods then some .opn else none := by
  unfold Board.ops Board.interface
  cases (B.dummyPrivateData d).cdevOps with
  | none => rfl
  | some name => cases name <;> rfl

theorem Board.release_eq (B : Board N) (d : Fin N) :
    (B.ops d).release = if (B.interface d).HasMethods then some .release else none := by
  unfold Board.ops Board.interface
  cases (B.dummyPrivateData d).cdevOps with
  | none => rfl
  | some name => cases name <;> rfl

/-- The ioctl is the copy with the constants of the interface. -/
theorem Board.ioctl_eq (B : Board N) (d : Fin N) :
    ((B.ops d).unlockedIoctl = none ∧ (B.interface d).constants = none) ∨
      ∃ m c, (B.ops d).unlockedIoctl = some m ∧ (B.interface d).constants = some c ∧
        (∀ p cmd arg, (m p cmd arg).body B = dummyIoctl B c p cmd arg) ∧
        ∀ p cmd arg ℓ, (m p cmd arg).InRange ℓ → some cmd = c.readDma →
          ∀ q, q = DeviceIoctrlDma.ofBytes (ℓ.user.fetch arg sizeofDeviceIoctrlDma) →
            SumPasses q.dmaOffset q.dmaSize → q.dmaOffset.toNat + q.dmaSize.toNat < 2 ^ 32 := by
  unfold Board.ops Board.interface
  cases (B.dummyPrivateData d).cdevOps with
  | none => exact .inl ⟨rfl, rfl⟩
  | some name =>
    cases name with
    | mtcaDummyFileOps =>
      refine .inr ⟨_, _, rfl, rfl, fun _ _ _ => rfl, ?_⟩
      rintro p cmd arg ℓ hin hcmd q rfl
      exact hin _ _ (if_pos (Option.some.inj hcmd))
    | llrfDummyFileOps =>
      refine .inr ⟨_, _, rfl, rfl, fun p cmd arg => ?_, ?_⟩
      · rw [Entry.body, llrfDummyIoctl_eq]
      · rintro p cmd arg ℓ - hcmd
        cases hcmd
    | pcieuniDummyFileOps =>
      refine .inr ⟨_, _, rfl, rfl, fun _ _ _ => rfl, ?_⟩
      rintro p cmd arg ℓ hin hcmd q rfl
      exact hin _ _ (if_pos (Option.some.inj hcmd))
    | noIoctlDummyFileOps => exact .inl ⟨rfl, rfl⟩
    | noIocltDummyFileOps => exact .inl ⟨rfl, rfl⟩

theorem toDevice_pointsTo (h : (B.interface d).HasMethods) :
    toDevice (B.pointsTo d) = some d := by
  rw [Board.pointsTo, B.opn_eq, if_pos h, if_neg (by simp), toDevice_some]

theorem Board.slotNr_ofNat (B : Board N) (d : Fin N) :
    (B.dummyPrivateData d).slotNr = BitVec.ofNat 32 d := by
  have hslot := B.slotNr_eq d d.isLt
  rw [← BitVec.toNat_inj, hslot, BitVec.toNat_ofNat, Nat.mod_eq_of_lt]
  exact hslot ▸ BitVec.isLt _

/-! ### What a method comes to -/

/-- The store with nothing behind the bars of the device. -/
def Board.trim (B : Board N) (d : Fin N) (s : Store) : Store :=
  B.put d (B.bars d s).contents.bars s

theorem trim_cell (s : Store) {l : Loc} (hl : B.Cell d l) : B.trim d s l = s l := by
  cases l with
  | word p i =>
    obtain ⟨bar, rfl, hi⟩ := hl
    exact ((put_word d.isLt bar i).trans (contents_bars_word _ hi)).trans (bars_word bar i).symm
  | flag f => rfl
  | inUse n => rfl

/-- The outcome of a method that a transfer stands for. -/
def Transfer.outcome (B : Board N) (d : Fin N) (ℓ : Local) (s : Store) (t : Transfer) : Outcome ℤ :=
  ⟨t.ret, { ℓ with user := t.user, fPos := ℓ.fPos + 4 * t.words }, B.put d t.bars s⟩

/-- The outcome of a method that leaves the bars alone. -/
theorem outcome_reads (ret : ℤ) (u : UserMem) (words : ℕ) (ℓ : Local) (s : Store) :
    Transfer.outcome B d ℓ s ⟨ret, u, B.bars d s, words⟩ =
      ⟨ret, { ℓ with user := u, fPos := ℓ.fPos + 4 * words }, s⟩ := by
  rw [Transfer.outcome, put_bars]

/-- The outcome is that of the transfer, as far as the bars and the flags go. -/
structure Transfer.Gives (B : Board N) (d : Fin N) (ℓ : Local) (s : Store) (o : Outcome ℤ)
    (t : Transfer) : Prop where
  val : o.val = t.ret
  loc : o.loc = { ℓ with user := t.user, fPos := ℓ.fPos + 4 * t.words }
  bars : (B.bars d o.store).contents = t.bars.contents
  other : ∀ e ≠ d, (B.bars e o.store).contents = (B.bars e s).contents
  flags : ∀ f, o.store (.flag f) = s (.flag f)

/-- **A call in range comes to a transfer** if it does so where nothing lies
    behind the bars. -/
theorem gives_of_trim {e : Entry N} (hd : e.device = some d) {ℓ : Local} (hin : e.InRange ℓ)
    {s : Store} {t : Transfer}
    (ht : exec (e.body B) ℓ (B.trim d s) = t.outcome B d ℓ (B.trim d s)) :
    Transfer.Gives B d ℓ s (exec (e.body B) ℓ s) t := by
  obtain ⟨hval, hloc, hstore⟩ := Entry.exec_like (B := B) hd hin fun l hl => (trim_cell s hl).symm
  rw [ht] at hval hloc hstore
  have hcell : ∀ (a : Fin N) (bar : Bar) (i : Fin (bar.size / 4)),
      B.Cell a (.word (bar.base (B.dummyPrivateData a)) i) := fun a bar i => ⟨bar, rfl, i.isLt⟩
  refine ⟨hval, hloc, funext fun bar => funext fun i => ?_, fun a ha => ?_, fun f => ?_⟩
  · exact (bars_word bar i).symm.trans
      ((hstore _ (hcell d bar i)).trans (put_word d.isLt bar i))
  · refine funext fun bar => funext fun i => ?_
    exact (bars_word bar i).symm.trans
      ((Entry.exec_other hd (Ne.symm ha) ℓ s (hcell a bar i)).trans (bars_word bar i))
  · exact hstore (.flag f) trivial

/-- A method of an open file is called on the device. -/
theorem run₁_some {m : Fin N → Entry N} (hm : r.method B = some m)
    (hI : (B.interface h.slot).HasMethods) {f : File} (hf : f.privateData = B.pointsTo h.slot)
    (p : ℕ) : w.run₁ B r f p =
      some (exec ((m h.slot).body B) (World.enter r p f.privateData) w.store) := by
  rw [World.run₁, hm, Option.bind_some, hf, toDevice_pointsTo hI, Option.map_some]

theorem run₁_none (hm : r.method B = none) (f : File) (p : ℕ) : w.run₁ B r f p = none := by
  rw [World.run₁, hm, Option.bind_none]

/-- What it means for a request of the struct interface to be in range. -/
theorem Entry.InRange.struct {a : Fin N} {buf count : ℕ} {ℓ : Local}
    (hin : (Entry.read a buf count).InRange ℓ) (q : DeviceRw)
    (hq : q = DeviceRw.ofBytes (ℓ.user.fetch buf sizeofDeviceRw)) (hmode : q.modeRw = rwDma) :
    SumPasses q.offsetRw q.sizeRw → q.offsetRw.toNat + q.sizeRw.toNat < 2 ^ 32 := by
  subst hq
  exact hin _ _ (if_pos hmode)

section
variable {buf count : ℕ} {pos : Option ℕ} (hsig : r.signals = []) {f : File}
  (hf : f.privateData = B.pointsTo h.slot) (p : ℕ)
include hsig hf

theorem run₁_read (hin : r.InRange B) (hr : r.call = .read h buf count pos) :
    Option.Rel (Transfer.Gives B h.slot (World.enter r p f.privateData) w.store) (w.run₁ B r f p)
      ((B.interface h.slot).read (BitVec.ofNat 32 h.slot) (fun f => w.store (.flag f))
        (B.bars h.slot w.store).contents.bars r.user buf (min count maxRwCount) p) := by
  have hmethod : r.method B = (B.ops h.slot).read.map fun m p => m p buf count := by
    rw [Request.method, hr]
  have hbars : B.bars h.slot (B.trim h.slot w.store) = (B.bars h.slot w.store).contents.bars :=
    bars_put h.slot.isLt
  rw [B.read_eq] at hmethod
  cases hI : B.interface h.slot with
  | bare =>
    rw [hI] at hmethod
    rw [run₁_none hmethod]
    exact .none
  | struct c =>
    rw [hI] at hmethod
    have hrange := hin _ h.slot (World.enter r p f.privateData) hmethod rfl
    rw [run₁_some hmethod (by rw [hI]; trivial) hf, Interface.read]
    have hrun := exec_read (B := B) (d := h.slot) (ℓ := World.enter r p f.privateData)
      (s := B.trim h.slot w.store) hsig buf (min count maxRwCount)
    rw [B.slotNr_ofNat] at hrun
    have hseen := answer_structReply_seen (B := B) (d := h.slot) (s := B.trim h.slot w.store)
      (BitVec.ofNat 32 h.slot) r.user (min count maxRwCount) hrange.struct buf
    by_cases hflag : w.store (.flag .readError) = true
    · rw [if_pos hflag]
      refine .some (gives_of_trim rfl hrange ?_)
      rw [Entry.body, hrun, ← hbars, outcome_reads]
      exact if_pos hflag
    · rw [if_neg hflag]
      refine .some (gives_of_trim rfl hrange ?_)
      rw [Entry.body, hrun, ← hbars, outcome_reads, ← hseen]
      exact if_neg hflag
  | plain c =>
    rw [hI] at hmethod
    have hmin : min count maxRwCount < 2 ^ 32 :=
      Nat.lt_of_le_of_lt (Nat.min_le_right ..) (by decide)
    rw [run₁_some hmethod (by rw [hI]; trivial) hf, Interface.read]
    refine .some (gives_of_trim rfl (Entry.inRange_of_none rfl) ?_)
    rw [Entry.body, exec_readNoStruct (ℓ := World.enter r p f.privateData) h.slot.isLt hsig hmin,
      ← hbars, outcome_reads]
    rfl

theorem run₁_write (hr : r.call = .write h buf count pos) :
    Option.Rel (Transfer.Gives B h.slot (World.enter r p f.privateData) w.store) (w.run₁ B r f p)
      ((B.interface h.slot).write (fun f => w.store (.flag f))
        (B.bars h.slot w.store).contents.bars r.user buf (min count maxRwCount) p) := by
  have hmethod : r.method B = (B.ops h.slot).write.map fun m p => m p buf count := by
    rw [Request.method, hr]
  rw [B.write_eq] at hmethod
  cases hI : B.interface h.slot with
  | bare =>
    rw [hI] at hmethod
    rw [run₁_none hmethod]
    exact .none
  | struct c =>
    rw [hI] at hmethod
    rw [run₁_some hmethod (by rw [hI]; trivial) hf]
    refine .some (gives_of_trim rfl (Entry.inRange_of_none rfl) ?_)
    have hrun := exec_write (B := B) (d := h.slot) h.slot.isLt
      (b := (B.bars h.slot w.store).contents.bars) (ℓ := World.enter r p f.privateData) hsig buf
      (min count maxRwCount) w.store
    rw [Transfer.outcome, Board.trim, put_put, Entry.body, hrun]
    rfl
  | plain c =>
    rw [hI] at hmethod
    have hmin : min count maxRwCount < 2 ^ 32 :=
      Nat.lt_of_le_of_lt (Nat.min_le_right ..) (by decide)
    rw [run₁_some hmethod (by rw [hI]; trivial) hf]
    refine .some (gives_of_trim rfl (Entry.inRange_of_none rfl) ?_)
    have hrun : exec (mtcaDummyWriteNoStruct B h.slot buf (min count maxRwCount))
        (World.enter r p f.privateData)
        (B.put h.slot (B.bars h.slot w.store).contents.bars w.store) = _ :=
      exec_writeNoStruct h.slot.isLt hmin hsig w.store
    rw [Transfer.outcome, Board.trim, put_put, Entry.body, hrun]
    rfl

theorem run₁_ioctl (hin : r.InRange B) {cmd : U32} {arg : ℕ} (hr : r.call = .ioctl h cmd arg) :
    Option.Rel (Transfer.Gives B h.slot (World.enter r p f.privateData) w.store) (w.run₁ B r f p)
      ((B.interface h.slot).ioctl (BitVec.ofNat 32 h.slot)
        (B.bars h.slot w.store).contents.bars r.user cmd arg) := by
  have hmethod : r.method B = (B.ops h.slot).unlockedIoctl.map fun m p => m p cmd arg := by
    rw [Request.method, hr]
  have hbars : B.bars h.slot (B.trim h.slot w.store) = (B.bars h.slot w.store).contents.bars :=
    bars_put h.slot.isLt
  rcases B.ioctl_eq h.slot with ⟨hnone, hc⟩ | ⟨m, c, hm, hc, hbody, hdma⟩
  · rw [hnone] at hmethod
    rw [run₁_none hmethod, Interface.ioctl, hc]
    exact .none
  · rw [hm] at hmethod
    have hhas : (B.interface h.slot).HasMethods := by
      cases hI : B.interface h.slot with
      | bare =>
        rw [hI] at hc
        cases hc
      | struct c => trivial
      | plain c => trivial
    have hrange := hin _ h.slot (World.enter r p f.privateData) hmethod rfl
    rw [run₁_some hmethod hhas hf, Interface.ioctl, hc]
    refine .some (gives_of_trim (Request.method_device hmethod _) hrange ?_)
    have hseen := answer_ioctl_seen (B := B) (d := h.slot) (s := B.trim h.slot w.store)
      (BitVec.ofNat 32 h.slot) (hdma _ _ _ _ hrange) arg
    rw [hbody, exec_ioctl (ℓ := World.enter r p f.privateData) c hsig, B.slotNr_ofNat]
    dsimp only
    rw [hseen, ← hbars, outcome_reads]
    rfl

end

/-! ### The state -/

/-- The crate after a transfer. -/
theorem Transfer.Gives.crate {ℓ : Local} {o : Outcome ℤ} {t : Transfer}
    (ho : Transfer.Gives B d ℓ w.store o t) :
    (World.mk o.store w.files).crate B = (w.crate B).setBars d t.bars := by
  simp only [World.crate, Crate.setBars, Crate.mk.injEq]
  refine ⟨funext fun e => ?_, funext ho.flags, trivial⟩
  by_cases he : e = d
  · rw [he, ho.bars, Function.update_self]
  · rw [ho.other e he, Function.update_of_ne he]

theorem crate_setFile (f : Option File) :
    (w.setFile h f).crate B = (w.crate B).setFile h (f.map File.fPos) := by
  simp only [World.crate, World.setFile, Crate.setFile, Crate.mk.injEq, true_and]
  refine funext fun h' => ?_
  by_cases hh : h' = h
  · subst hh
    simp only [Function.update_self]
  · simp only [Function.update_of_ne hh]

/-- The use counters are not part of the crate. -/
theorem crate_inUse (n : ℕ) (v : U32) :
    (World.mk (Function.update w.store (.inUse n) v) w.files).crate B = w.crate B := by
  simp [World.crate, Board.bars]

theorem crate_flags (v : Flag → Bool) :
    (World.mk (w.store.withFlags v) w.files).crate B = { w.crate B with fails := v } := rfl

/-! ### Calls -/

/-- The reply and the crate after a call are those of the crate. -/
def SameAs (B : Board N) (x : Reply × World N) (y : Reply × Crate N) : Prop :=
  x.1 = y.1 ∧ x.2.crate B = y.2

theorem sameAs_refuse (w : World N) (r : Request (Handle N)) (ret : ℤ) :
    SameAs B (w.refuse r ret) ((w.crate B).refuse r.user ret) := ⟨rfl, rfl⟩

theorem sameAs_open (hsig : r.signals = []) (hr : r.call = .opn h) :
    SameAs B (w.chrdevOpen B r h) ((w.crate B).step B.interface r) := by
  have hmethod : r.method B = (B.ops h.slot).opn := by rw [Request.method, hr]
  rw [Crate.step, hr]
  dsimp only
  cases hf : w.files h with
  | some f =>
    have hk : (w.crate B).files h = some f.fPos := congrArg (Option.map File.fPos) hf
    rw [World.chrdevOpen, hf, hk]
    exact sameAs_refuse w r _
  | none =>
    have hk : (w.crate B).files h = none := congrArg (Option.map File.fPos) hf
    rw [hk]
    dsimp only
    rw [B.opn_eq] at hmethod
    by_cases hI : (B.interface h.slot).HasMethods
    · rw [if_pos hI] at hmethod
      rw [chrdevOpen_eq hmethod hf, hsig, List.headD_nil, if_neg Bool.false_ne_true]
      by_cases hflag : w.store (.flag .openError) = true
      · rw [if_pos hflag, if_pos ⟨hI, hflag⟩]
        exact sameAs_refuse w r _
      · rw [if_neg hflag, if_neg fun hh => hflag hh.2]
        refine ⟨rfl, ?_⟩
        rw [crate_setFile, crate_inUse]
        rfl
    · rw [if_neg hI] at hmethod
      rw [World.chrdevOpen, hf, hmethod, if_neg fun hh => hI hh.1]
      exact ⟨rfl, crate_setFile _⟩

theorem sameAs_release (hw : w.Counts B) (hr : r.call = .release h) :
    SameAs B (w.fput B r h) ((w.crate B).step B.interface r) := by
  have hmethod : r.method B = (B.ops h.slot).release := by rw [Request.method, hr]
  rw [Crate.step, hr]
  dsimp only
  cases hf : w.files h with
  | none =>
    have hk : (w.crate B).files h = none := congrArg (Option.map File.fPos) hf
    rw [World.fput, hf, hk]
    exact sameAs_refuse w r _
  | some f =>
    have hk : (w.crate B).files h = some f.fPos := congrArg (Option.map File.fPos) hf
    rw [hk]
    dsimp only
    rw [B.release_eq] at hmethod
    by_cases hI : (B.interface h.slot).HasMethods
    · rw [if_pos hI] at hmethod
      have hp : toDevice f.privateData = some h.slot := by
        rw [hw.files h f hf, toDevice_pointsTo hI]
      rw [fput_eq hmethod hf hp]
      refine ⟨rfl, ?_⟩
      rw [crate_setFile, crate_inUse]
      rfl
    · rw [if_neg hI] at hmethod
      rw [World.fput, hf]
      dsimp only
      rw [run₁_none hmethod]
      exact ⟨rfl, crate_setFile _⟩

/-- A read or a write, when the method comes to the transfer `t`. -/
theorem sameAs_transfer {f : File} (hf : w.files h = some f) {pos : Option ℕ} {t : Option Transfer}
    (hrun : Option.Rel (Transfer.Gives B h.slot (World.enter r (pos.getD f.fPos) f.privateData)
      w.store) (w.run₁ B r f (pos.getD f.fPos)) t) :
    SameAs B (w.vfsTransfer B r h pos) ((w.crate B).finish r.user (-EINVAL) h
      (if pos = none then some f.fPos else none) t) := by
  rw [World.vfsTransfer, hf]
  dsimp only
  generalize w.run₁ B r f (pos.getD f.fPos) = o at hrun
  cases hrun with
  | none => exact sameAs_refuse w r _
  | @some o t ho =>
    refine ⟨?_, ?_⟩
    · simp only [Crate.finish, ho.val, ho.loc]
    cases pos with
    | some p =>
      have hpos : ¬ (some p = (none : Option ℕ)) := fun h => by cases h
      simp only [Crate.finish, hpos, false_and, if_false]
      exact ho.crate
    | none =>
      simp only [Crate.finish, true_and, if_true, ho.val, ho.loc]
      split
      · rw [crate_setFile, ho.crate]
        rfl
      · exact ho.crate

theorem sameAs_ioctl (hw : w.Counts B) (hsig : r.signals = []) (hin : r.InRange B) {cmd : U32}
    {arg : ℕ}
    (hr : r.call = .ioctl h cmd arg) :
    SameAs B (w.vfsIoctl B r h) ((w.crate B).step B.interface r) := by
  rw [Crate.step, hr, World.vfsIoctl]
  dsimp only
  cases hf : w.files h with
  | none =>
    have hk : (w.crate B).files h = none := congrArg (Option.map File.fPos) hf
    rw [hk]
    exact sameAs_refuse w r _
  | some f =>
    have hk : (w.crate B).files h = some f.fPos := congrArg (Option.map File.fPos) hf
    rw [hk]
    dsimp only
    have hrun := run₁_ioctl (w := w) hsig (hw.files h f hf) f.fPos hin hr
    change SameAs B _ ((w.crate B).finish r.user (-ENOTTY) h none ((B.interface h.slot).ioctl
      (BitVec.ofNat 32 h.slot) (B.bars h.slot w.store).contents.bars r.user cmd arg))
    generalize w.run₁ B r f f.fPos = o at hrun
    generalize (B.interface h.slot).ioctl (BitVec.ofNat 32 h.slot)
      (B.bars h.slot w.store).contents.bars r.user cmd arg = t at hrun
    cases hrun with
    | none => exact sameAs_refuse w r _
    | @some o t ho =>
      refine ⟨?_, ho.crate⟩
      simp only [Crate.finish, ho.val, ho.loc]

theorem sameAs_procWrite (hsig : r.signals = []) {ubuf count : ℕ}
    (hr : r.call = .procWrite ubuf count) :
    SameAs B (w.procWrite B r ubuf count) ((w.crate B).step B.interface r) := by
  have hhead : (World.enter r 0 none).signals.headD false = false := by
    rw [World.enter, hsig]
    rfl
  have hrun := exec_procWrite ubuf (min count maxRwCount) hhead w.store
  rw [show (World.enter r 0 none).user = r.user from rfl] at hrun
  rw [Crate.step, hr, World.procWrite, Entry.body, hrun]
  dsimp only
  cases command r.user ubuf (min count maxRwCount) with
  | none => exact sameAs_refuse w r _
  | some o => exact ⟨rfl, crate_flags _⟩

/-- **One system call.** -/
theorem step_sameAs (hw : w.Counts B) (hsig : r.signals = []) (hin : r.InRange B) :
    SameAs B (w.step B r) ((w.crate B).step B.interface r) := by
  unfold World.step
  cases hr : r.call with
  | opn h => exact sameAs_open hsig hr
  | release h => exact sameAs_release hw hr
  | read h buf count pos =>
    rw [Crate.step, hr]
    dsimp only
    cases hf : w.files h with
    | none =>
      have hk : (w.crate B).files h = none := congrArg (Option.map File.fPos) hf
      rw [World.vfsTransfer, hf, hk]
      exact sameAs_refuse w r _
    | some f =>
      have hk : (w.crate B).files h = some f.fPos := congrArg (Option.map File.fPos) hf
      rw [hk]
      exact sameAs_transfer hf (run₁_read hsig (hw.files h f hf) (pos.getD f.fPos) hin hr)
  | write h buf count pos =>
    rw [Crate.step, hr]
    dsimp only
    cases hf : w.files h with
    | none =>
      have hk : (w.crate B).files h = none := congrArg (Option.map File.fPos) hf
      rw [World.vfsTransfer, hf, hk]
      exact sameAs_refuse w r _
    | some f =>
      have hk : (w.crate B).files h = some f.fPos := congrArg (Option.map File.fPos) hf
      rw [hk]
      exact sameAs_transfer hf (run₁_write hsig (hw.files h f hf) (pos.getD f.fPos) hr)
  | ioctl h cmd arg => exact sameAs_ioctl hw hsig hin hr
  | procWrite ubuf count => exact sameAs_procWrite hsig hr

end

end MtcaDummy

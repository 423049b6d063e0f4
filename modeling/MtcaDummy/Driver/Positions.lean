/-
  The positions of the open files.

  A transfer through the other interface moves the position of its file by the
  bytes it returns, and cannot pass word 18 of bar 0, which no call can read or
  write.  `positions_count_bytes`: after every run of system calls, the
  position of a file is the number of bytes transferred there since it was
  opened, and at most the offset of that word.  So without a `pread` or a
  `pwrite` nothing beyond is accessed.
-/
import MtcaDummy.Driver.Accounts
import MtcaDummy.Driver.Runs

namespace MtcaDummy

open Conc

variable {N : ℕ}

/-! ## The methods -/

section
variable {B : Board N} {d : ℕ} (hd : d < N) {buf count : ℕ} {ℓ : Local} {s : Store}

/-- Word 18 of bar 0 is not among the words. -/
def Span.Avoids (t : Span) : Prop := ∀ j < t.words, ¬ (t.bar = .system ∧ t.first + j = 18)

/-- The position moves by the bytes returned. -/
def Moves (count : ℕ) (ℓ : Local) (out : Outcome ℤ) : Prop :=
  ∃ t, span count ℓ.fPos = .ok t ∧ t.Avoids ∧ out.val = 4 * t.words ∧
    out.loc.fPos = ℓ.fPos + 4 * t.words

section
include hd

theorem readNoStruct_moves (hcount : count < 2 ^ 32)
    (hval : 0 ≤ (exec (mtcaDummyReadNoStruct B d buf count) ℓ s).val) :
    Moves count ℓ (exec (mtcaDummyReadNoStruct B d buf count) ℓ s) := by
  by_cases hp : Passes .readError ℓ s ∧ ∃ t, span count ℓ.fPos = .ok t
  swap
  · exact absurd (quits_transfer hd hcount hp).val_lt (not_lt.2 hval)
  obtain ⟨hp, t, ht⟩ := hp
  have hle := span_le ht
  have hsize := t.bar.size_le
  have hwords : (t.information (B.dummyPrivateData d)).nBytesToTransfer / 4 = t.words := by
    simp only [Span.information]
    omega
  have hexec := (continues_transfer (B := B) hd hcount (x := fun t =>
    readNoStructLoop B d t buf (t.nBytesToTransfer / 4) 0) hp ht).exec
  rw [hwords, exec_readLoop (by omega)] at hexec
  have hrun : exec (mtcaDummyReadNoStruct B d buf count) ℓ s = _ := hexec
  rw [hrun] at hval ⊢
  simp only [Nat.add_zero, Nat.mul_zero] at hval ⊢
  cases herr : ((B.bars d s).deliver t.bar t.first t.words ℓ.inside.user buf).err with
  | some e =>
    rw [herr] at hval
    exact absurd (Bars.deliver_err_lt herr) (not_lt.2 hval)
  | none =>
    refine ⟨t, ht, fun j hj hbroken => ?_, rfl, ?_⟩
    · exact Bars.deliver_err_iff.1 herr j hj (.inl ((Bar.rejectsRead_iff (by omega)).2 hbroken))
    · rw [Bars.deliver_words herr]
      rfl

theorem writeNoStruct_moves (hcount : count < 2 ^ 32)
    (hval : 0 ≤ (exec (mtcaDummyWriteNoStruct B d buf count) ℓ s).val) :
    Moves count ℓ (exec (mtcaDummyWriteNoStruct B d buf count) ℓ s) := by
  by_cases hp : Passes .writeError ℓ s ∧ ∃ t, span count ℓ.fPos = .ok t
  swap
  · have hquits := quits_transfer (B := B) (s := s) (x := fun t =>
      writeNoStructLoop B d t buf (t.nBytesToTransfer / 4) 0) hd hcount hp
    exact absurd hquits.val_lt (not_lt.2 hval)
  obtain ⟨hp, t, ht⟩ := hp
  have hle := span_le ht
  have hsize := t.bar.size_le
  have hwords : (t.information (B.dummyPrivateData d)).nBytesToTransfer / 4 = t.words := by
    simp only [Span.information]
    omega
  have hexec := (continues_transfer (B := B) hd hcount (x := fun t =>
    writeNoStructLoop B d t buf (t.nBytesToTransfer / 4) 0) hp ht).exec
  have hrun : exec (mtcaDummyWriteNoStruct B d buf count) ℓ s = _ := hexec
  have hs : s = B.put d (B.bars d s) s := put_bars.symm
  have hloop := exec_writeLoop (B := B) hd (ℓ := ℓ.inside) (s := s) (b := B.bars d s) (t := t)
    (k := t.words) (i := 0) buf (fun j => ((ℓ.user.copyWord buf j).1,
      (ℓ.user.copyWord buf j).2 && !ℓ.inside.cuts t.bar j))
    (by omega) fun j => by rw [Nat.zero_add]; rfl
  rw [← hs, ← hwords, ← hrun, hwords] at hloop
  obtain ⟨hret, hpos, -⟩ := hloop
  cases herr : (Bars.block (fun _ => s (.flag .spiError)) t.bar t.first (fun j =>
      ((ℓ.user.copyWord buf j).1, (ℓ.user.copyWord buf j).2 && !ℓ.inside.cuts t.bar j)) t.words 0
      (B.bars d s)).err with
  | some e =>
    have hlt : (exec (mtcaDummyWriteNoStruct B d buf count) ℓ s).val < 0 := by
      rw [hret, if_neg (by rw [herr]; exact Option.some_ne_none e)]
      split <;> decide
    exact absurd hlt (not_lt.2 hval)
  | none =>
    refine ⟨t, ht, fun j hj hbroken => ?_, by rw [hret, if_pos herr], ?_⟩
    · have hgood := (Bars.block_err_iff.1 herr j hj).2
      obtain ⟨hsystem, hword⟩ := hbroken
      rw [hsystem, Nat.zero_add, hword] at hgood
      exact absurd hgood (by decide)
    · rw [hpos, Bars.block_words herr]
      rfl

end

/-- A call that gives up leaves the position alone ... -/
theorem Quits.keeps {x : KM ℤ} (h : Quits x ℓ s) : (exec x ℓ s).loc.fPos = ℓ.fPos := by
  have hpos := congrArg Local.fPos h.loc
  exact hpos

/-- ... and so does the struct interface. -/
theorem read_keeps : (exec (mtcaDummyRead B d buf count) ℓ s).loc.fPos = ℓ.fPos := by
  by_cases hp : Passes .readError ℓ s
  · have hrun : exec (mtcaDummyRead B d buf count) ℓ s = _ := (continues_gates hp).exec
    rw [hrun, exec_readLocked]
    rfl
  · have hquits : Quits (mtcaDummyRead B d buf count) ℓ s := quits_gates hp
    exact hquits.keeps

include hd in
theorem write_keeps : (exec (mtcaDummyWrite B d buf count) ℓ s).loc.fPos = ℓ.fPos := by
  by_cases hp : Passes .writeError ℓ s
  swap
  · have hquits : Quits (mtcaDummyWrite B d buf count) ℓ s := quits_gates hp
    exact hquits.keeps
  have hrun : Continues (mtcaDummyWrite B d buf count) ℓ _ _ s :=
    (continues_gates hp).trans (.of_eq (writeLocked_eq buf count))
  rw [hrun.exec]
  cases structWord ℓ.inside.user buf count with
  | none => rfl
  | some word =>
    obtain ⟨bar, i, v⟩ := word
    have hs : s = B.put d (B.bars d s) s := put_bars.symm
    dsimp only
    rw [hs, exec_storeAndAct hd]
    exact act_fPos ℓ.inside bar

end

/-! ## The positions of the files -/

/-- Where a file may be after `n` bytes. -/
def Interface.At (n p : ℕ) : Interface → Prop
  | plain _ => p = n ∧ p % 4 = 0 ∧ p ≤ 0x48
  | _ => p = 0

theorem Interface.at_zero (I : Interface) : I.At 0 0 := by
  cases I with
  | plain c => exact ⟨rfl, rfl, Nat.zero_le _⟩
  | struct c => exact rfl
  | bare => exact rfl

/-- A position up to word 18 is one of bar 0. -/
theorem span_low {count pos : ℕ} {t : Span} (hpos : pos ≤ 0x48) (ht : span count pos = .ok t) :
    t.bar = .system ∧ t.first = pos / 4 := by
  have hbar : pos / 2 ^ 60 % 8 = 0 := by omega
  have hoff : pos % 2 ^ 60 = pos := by omega
  have hsystem : Bar.ofNumber (BitVec.ofNat 32 0) = some .system := rfl
  unfold span at ht
  rw [hbar, hoff, hsystem] at ht
  dsimp only at ht
  split_ifs at ht
  cases ht
  exact ⟨rfl, rfl⟩

/-- From there a transfer does not pass it. -/
theorem Moves.at {count n : ℕ} {ℓ : Local} {out : Outcome ℤ} {c : IoctlConstants}
    (h : Moves count ℓ out) (hpos : (Interface.plain c).At n ℓ.fPos) :
    (Interface.plain c).At (n + out.val.toNat) out.loc.fPos := by
  obtain ⟨t, ht, havoids, hval, hmoved⟩ := h
  obtain ⟨rfl, hmod, hle⟩ := hpos
  have hspan := span_low hle ht
  have hwords : t.first + t.words ≤ 18 := by
    by_contra hno
    exact havoids (18 - t.first) (by omega) ⟨hspan.1, by omega⟩
  rw [hval, hmoved]
  refine ⟨?_, ?_, ?_⟩ <;> omega

/-- The bytes that calls on a file transferred at its own position since it was
    opened, after one more call. -/
def transferred (h : Handle N) (n : ℕ) (x : Request (Handle N) × Reply) : ℕ :=
  match x.1.call with
  | .opn g => if g = h ∧ x.2.ret = 0 then 0 else n
  | .read g _ _ none | .write g _ _ none => if g = h then n + x.2.ret.toNat else n
  | _ => n

/-- Every open file is where the bytes counted by `n` lead. -/
def World.Placed (B : Board N) (n : Handle N → ℕ) (w : World N) : Prop :=
  ∀ h f, w.files h = some f → (B.interface h.slot).At (n h) f.fPos

section
variable {B : Board N} {w : World N} {r : Request (Handle N)} {h : Handle N} {n : Handle N → ℕ}

theorem World.Placed.store (hw : w.Placed B n) (s : Store) :
    ({ w with store := s } : World N).Placed B n := hw

theorem World.Placed.setFile (hw : w.Placed B n) {f : Option File} {n' : Handle N → ℕ}
    (hf : ∀ x, f = some x → (B.interface h.slot).At (n' h) x.fPos) (hn : ∀ g, g ≠ h → n' g = n g) :
    (w.setFile h f).Placed B n' := by
  intro g x hx
  by_cases hg : g = h
  · subst hg
    exact hf x (by simpa [World.setFile] using hx)
  · rw [hn g hg]
    exact hw g x (by simpa [World.setFile, hg] using hx)

/-! ### Calls -/

section
variable {buf count : ℕ} {pos : Option ℕ} {f : File} {o : Outcome ℤ} {p m : ℕ}
  (hf : f.privateData = B.pointsTo h.slot)
  (ho : w.run₁ B r f p = some o) (hval : 0 ≤ o.val) (hp : (B.interface h.slot).At m p)
include hf ho hval hp

theorem run₁_read_at (hr : r.call = .read h buf count pos) :
    (B.interface h.slot).At (m + o.val.toNat) o.loc.fPos := by
  have hmethod : r.method B = (B.ops h.slot).read.map fun m p => m p buf count := by
    rw [Request.method, hr]
  rw [B.read_eq] at hmethod
  cases hI : B.interface h.slot with
  | bare =>
    rw [hI] at hmethod
    rw [run₁_none hmethod] at ho
    cases ho
  | struct c =>
    rw [hI] at hmethod hp
    rw [run₁_some hmethod (by rw [hI]; trivial) hf] at ho
    cases ho
    exact read_keeps.trans hp
  | plain c =>
    rw [hI] at hmethod hp
    rw [run₁_some hmethod (by rw [hI]; trivial) hf] at ho
    cases ho
    have hmin : min count maxRwCount < 2 ^ 32 :=
      Nat.lt_of_le_of_lt (Nat.min_le_right ..) (by decide)
    exact (readNoStruct_moves h.slot.isLt hmin hval).at hp

theorem run₁_write_at (hr : r.call = .write h buf count pos) :
    (B.interface h.slot).At (m + o.val.toNat) o.loc.fPos := by
  have hmethod : r.method B = (B.ops h.slot).write.map fun m p => m p buf count := by
    rw [Request.method, hr]
  rw [B.write_eq] at hmethod
  cases hI : B.interface h.slot with
  | bare =>
    rw [hI] at hmethod
    rw [run₁_none hmethod] at ho
    cases ho
  | struct c =>
    rw [hI] at hmethod hp
    rw [run₁_some hmethod (by rw [hI]; trivial) hf] at ho
    cases ho
    exact (write_keeps h.slot.isLt).trans hp
  | plain c =>
    rw [hI] at hmethod hp
    rw [run₁_some hmethod (by rw [hI]; trivial) hf] at ho
    cases ho
    have hmin : min count maxRwCount < 2 ^ 32 :=
      Nat.lt_of_le_of_lt (Nat.min_le_right ..) (by decide)
    exact (writeNoStruct_moves h.slot.isLt hmin hval).at hp

end

/-- A call that fails transfers nothing. -/
theorem counted_of_neg {c : Handle N → Prop} [DecidablePred c] {ret : ℤ} (hret : ret < 0) :
    (fun g => if c g then n g + ret.toNat else n g) = n := by
  funext g
  rw [Int.toNat_of_nonpos (Int.le_of_lt hret), Nat.add_zero, ite_self]

/-- A read or a write of a file. -/
theorem vfsTransfer_placed (pos : Option ℕ) (hc : w.Counts B) (hw : w.Placed B n)
    (hrun : ∀ f o, f.privateData = B.pointsTo h.slot → w.run₁ B r f f.fPos = some o → 0 ≤ o.val →
      (B.interface h.slot).At (n h) f.fPos →
        (B.interface h.slot).At (n h + o.val.toNat) o.loc.fPos) :
    (w.vfsTransfer B r h pos).2.Placed B fun g =>
      if pos = none ∧ h = g then n g + (w.vfsTransfer B r h pos).1.ret.toNat else n g := by
  unfold World.vfsTransfer
  cases hf : w.files h with
  | none =>
    rw [counted_of_neg (by exact (by decide : -EBADF < 0))]
    exact hw
  | some f =>
    dsimp only
    cases ho : w.run₁ B r f (pos.getD f.fPos) with
    | none =>
      rw [counted_of_neg (by exact (by decide : -EINVAL < 0))]
      exact hw
    | some o =>
      dsimp only
      by_cases hneg : o.val < 0
      · rw [counted_of_neg hneg, if_neg fun h => Int.not_lt.2 h.2 hneg]
        exact hw.store o.store
      cases pos with
      | some p =>
        have hn : (fun g => if some p = none ∧ h = g then n g + o.val.toNat else n g) = n :=
          funext fun g => if_neg fun h => by cases h.1
        rw [hn, if_neg fun h => by cases h.1]
        exact hw.store o.store
      | none =>
        have hval := Int.not_lt.1 hneg
        rw [if_pos ⟨rfl, hval⟩]
        refine (hw.store o.store).setFile ?_ fun g hg => if_neg fun he => hg he.2.symm
        rintro x ⟨⟩
        rw [if_pos ⟨rfl, rfl⟩]
        exact hrun f o (hc.files h f hf) ho hval (hw h f hf)

/-- Opening a file that is not open. -/
theorem World.Placed.opn (hw : w.Placed B n) (s : Store) (p : Option ℕ) :
    (World.setFile ⟨s, w.files⟩ h (some ⟨0, p⟩)).Placed B fun g =>
      if h = g ∧ (0 : ℤ) = 0 then 0 else n g := by
  refine (hw.store s).setFile ?_ fun g hg => if_neg fun he => hg he.1.symm
  rintro x ⟨⟩
  rw [if_pos ⟨rfl, rfl⟩]
  exact (B.interface h.slot).at_zero

/-- An `open` that fails. -/
theorem opened_of_ne {ret : ℤ} (hret : ret ≠ 0) :
    (fun g => if h = g ∧ ret = 0 then 0 else n g) = n :=
  funext fun _ => if_neg fun he => hret he.2

theorem chrdevOpen_placed (hw : w.Placed B n) (hr : r.call = .opn h) :
    (w.chrdevOpen B r h).2.Placed B fun g =>
      if h = g ∧ (w.chrdevOpen B r h).1.ret = 0 then 0 else n g := by
  cases hf : w.files h with
  | some f =>
    unfold World.chrdevOpen
    rw [hf]
    dsimp only
    rw [opened_of_ne (by exact (by decide : -EBADF ≠ 0))]
    exact hw
  | none =>
    have hmethod : r.method B = (B.ops h.slot).opn := by
      rw [Request.method, hr]
    rcases B.opn_or_none h.slot with ⟨hopn, -⟩ | ⟨hopn, -⟩
    · rw [chrdevOpen_eq (hmethod.trans hopn) hf]
      split_ifs
      · rw [opened_of_ne (by exact (by decide : -ERESTARTSYS ≠ 0))]
        exact hw
      · rw [opened_of_ne (by exact (by decide : -EINVAL ≠ 0))]
        exact hw
      · exact hw.opn _ _
    · unfold World.chrdevOpen
      rw [hf, hmethod, hopn]
      exact hw.opn _ _

theorem fput_placed (hw : w.Placed B n) : (w.fput B r h).2.Placed B n := by
  unfold World.fput
  cases w.files h with
  | none => exact hw
  | some f =>
    dsimp only
    cases w.run₁ B r f f.fPos with
    | none => exact hw.setFile (fun x hx => by cases hx) fun _ _ => rfl
    | some o => exact (hw.store o.store).setFile (fun x hx => by cases hx) fun _ _ => rfl

theorem vfsIoctl_placed (hw : w.Placed B n) : (w.vfsIoctl B r h).2.Placed B n := by
  unfold World.vfsIoctl
  cases w.files h with
  | none => exact hw
  | some f =>
    dsimp only
    cases w.run₁ B r f f.fPos with
    | none => exact hw
    | some o => exact hw.store o.store

/-- **Every system call leads the files where its bytes do.** -/
theorem step_placed (hc : w.Counts B) (hw : w.Placed B n) :
    (w.step B r).2.Placed B fun g => transferred g (n g) (r, (w.step B r).1) := by
  unfold World.step transferred
  cases hr : r.call with
  | opn h => exact chrdevOpen_placed hw hr
  | release h => exact fput_placed hw
  | read h buf count pos =>
    have hplaced := vfsTransfer_placed pos hc hw fun f o hf ho hval hp =>
      run₁_read_at hf ho hval hp hr
    cases pos with
    | none => simpa using hplaced
    | some p => simpa using hplaced
  | write h buf count pos =>
    have hplaced := vfsTransfer_placed pos hc hw fun f o hf ho hval hp =>
      run₁_write_at hf ho hval hp hr
    cases pos with
    | none => simpa using hplaced
    | some p => simpa using hplaced
  | ioctl h cmd arg => exact vfsIoctl_placed hw
  | procWrite ubuf count => exact hw

/-! ## Runs -/

/-- The bytes that a run transferred at the own position of a file since it was
    opened. -/
def transferredIn (h : Handle N) (xs : List (Request (Handle N) × Reply)) (n : ℕ) : ℕ :=
  xs.foldl (transferred h) n

theorem run_placed (hc : w.Counts B) (hw : w.Placed B n) (rs : List (Request (Handle N))) :
    (w.run B rs).2.Placed B fun h => transferredIn h (w.run B rs).1 (n h) := by
  induction rs generalizing w n with
  | nil => exact hw
  | cons r rs ih => exact ih (step_counts hc) (step_placed hc hw)

end

/-- **The position of a file is the number of bytes transferred there.**  After
    every run of system calls of a module just loaded, whatever the signals,
    the faults, the error flags and the positions that a `pread` or a `pwrite`
    named, an open file of the device with the other interface is where the
    bytes returned since it was opened lead, and at most at word 18 of bar 0;
    the other files are at the start. -/
theorem positions_count_bytes {out : Outcomes} {mem : Ptr → ℕ → U32} (hN : N ≤ 2 ^ 32)
    (hl : (loaded N out mem).1 = 0) (rs : List (Request (Handle N))) :
    let w := (World.start (loaded N out mem).2.store).run (Board.loaded hl hN) rs
    ∀ h f, w.2.files h = some f →
      f.fPos = (if (h.slot : ℕ) = 6 then transferredIn h w.1 0 else 0) ∧
        f.fPos % 4 = 0 ∧ f.fPos ≤ 0x48 := by
  intro w h f hf
  have hcounts : (World.start (loaded N out mem).2.store : World N).Counts (Board.loaded hl hN) :=
    World.start_counts fun d => by
      rw [(loaded_ready hl).store]
      rfl
  have hplaced := run_placed (n := fun _ => 0) hcounts (fun h f hf => by cases hf) rs h f hf
  rw [interface_loaded hN hl, slotInterface] at hplaced
  by_cases hslot : (h.slot : ℕ) = 6
  · rw [if_neg (by omega), if_neg (by omega), if_pos hslot] at hplaced
    rw [if_pos hslot]
    exact hplaced
  · have hzero : f.fPos = 0 := by
      split_ifs at hplaced
      · exact hplaced
      · exact hplaced
      · exact hplaced
    rw [if_neg hslot, hzero]
    exact ⟨rfl, rfl, Nat.zero_le _⟩

/-- Two registers are read, then 20, which is refused, and a word of bar 2 is
    read by a `pread`. -/
def positionRun : List (Request (Handle nrDevs)) :=
  let u := UserMem.ofBytes fun _ => 0
  let six : Handle nrDevs := ⟨pcieuniSlot, 0⟩
  [⟨.opn six, u, []⟩, ⟨.read six 0 8 none, u, []⟩, ⟨.read six 0 80 none, u, []⟩,
    ⟨.read six 0 4 (some (2 * 2 ^ 60)), u, []⟩]

theorem positionRun_position :
    ((World.run loadedBoard (World.start (loaded nrDevs .success fun _ _ => 0#32).2.store)
      positionRun).2.files ⟨pcieuniSlot, 0⟩).map File.fPos = some 8 := by
  rw [loadedBoard_eq, loaded_success_store]
  decide +kernel

theorem positions_count_bytes_reads :
    let h : Handle nrDevs := ⟨pcieuniSlot, 0⟩
    let w : World nrDevs := .start (loaded nrDevs .success fun _ _ => 0#32).2.store
    ∃ f, (w.run loadedBoard positionRun).2.files h = some f ∧ f.fPos = 8 ∧
      transferredIn h (w.run loadedBoard positionRun).1 0 = 8 := by
  intro h w
  have hfile := positionRun_position
  generalize positionRun = rs at hfile ⊢
  obtain ⟨f, hf, hpos⟩ := Option.map_eq_some_iff.1 hfile
  refine ⟨f, hf, hpos, ?_⟩
  obtain ⟨hcount, -⟩ := positions_count_bytes (N := nrDevs) (by decide)
    (loaded_success nrDevs fun _ _ => 0#32) rs h f hf
  exact hcount.symm.trans hpos

end MtcaDummy

/-
  The device without ioctl, in slot 5, against the device in slot 0.

  The table that slot 5 is given was declared and never filled in: it has no
  method at all (the methods stand in a table of a slightly different name,
  which nothing uses).  `noIoctl_same_run` tells for which runs this makes no
  difference: those that never read or write an open file, whose opens all
  succeed, and that release what they opened, or leave a multiple of `2 ^ 32`
  files open, which the use counter does not tell from none.
-/
import MtcaDummy.Driver.Isolation
import Mathlib.Data.List.Forall2
import Mathlib.Data.Set.Card

namespace MtcaDummy

open Conc

/-- The same call on the file of a slot. -/
def onSlot (x : Fin nrDevs) (r : Request ℕ) : Request (Handle nrDevs) := r.map fun fd => ⟨x, fd⟩

/-- The address is in the slot number that `RW_INFO` reports. -/
def Request.InfoSlot {H : Type} (r : Request H) (addr : ℕ) : Prop :=
  ∃ h buf count pos, r.call = .read h buf count pos ∧
    (DeviceRw.ofBytes (r.user.fetch buf sizeofDeviceRw)).modeRw = rwInfo ∧
    buf + 12 ≤ addr ∧ addr < buf + 16

/-- Two replies to the same call, up to the slot number of `RW_INFO`. -/
structure SameReply {H : Type} (r : Request H) (x y : Reply) : Prop where
  ret : x.ret = y.ret
  user : ∀ addr, ¬ r.InfoSlot addr → x.user.byte addr = y.user.byte addr

/-- The run on slot 0 and the one on slot 5 give the same replies, the same use
    counter and the same bars. -/
structure SameRun (B : Board nrDevs) (s : Store) (rs : List (Request ℕ)) : Prop where
  replies : List.Forall₂ (fun x y => SameReply x.1 x.2 y.2)
    ((World.start s).run B (rs.map (onSlot 0))).1 ((World.start s).run B (rs.map (onSlot 5))).1
  inUse : ((World.start s).run B (rs.map (onSlot 0))).2.store (.inUse (0 : Fin nrDevs)) =
    ((World.start s).run B (rs.map (onSlot 5))).2.store (.inUse (5 : Fin nrDevs))
  bars : ∀ bar : Bar, ∀ i < bar.size / 4,
    ((World.start s).run B (rs.map (onSlot 0))).2.store
        (.word (bar.base (B.dummyPrivateData (0 : Fin nrDevs))) i) =
      ((World.start s).run B (rs.map (onSlot 5))).2.store
        (.word (bar.base (B.dummyPrivateData (5 : Fin nrDevs))) i)

/-- The call, made on slot 0, does what a device without methods does: an open
    succeeds, and no open file is read or written. -/
def Unseen (w : World nrDevs) (r : Request ℕ) : Prop :=
  match r.call with
  | .opn fd => w.files ⟨0, fd⟩ = none →
    w.store (.flag .openError) = false ∧ r.signals.getD 0 false = false
  | .read fd _ _ _ | .write fd _ _ _ => w.files ⟨0, fd⟩ = none
  | _ => True

/-- The open files of a slot. -/
def World.openFiles {N : ℕ} (w : World N) (x : Fin N) : Set ℕ := {fd | w.files ⟨x, fd⟩ ≠ none}

/-- Every call of the run on slot 0 is unseen, and the number of files open at
    the end is a multiple of `2 ^ 32`. -/
def AllUnseen (B : Board nrDevs) (s : Store) (rs : List (Request ℕ)) : Prop :=
  (∀ p r q, rs = p ++ r :: q → Unseen ((World.start s).run B (p.map (onSlot 0))).2 r) ∧
    2 ^ 32 ∣ (((World.start s).run B (rs.map (onSlot 0))).2.openFiles 0).ncard

/-! ## What reads and writes return -/

/-- The value returned satisfies `P`, whatever the program does. -/
def Returns {α : Type} (P : α → Prop) (x : KM α) : Prop := ∀ ℓ s, P (exec x ℓ s).val

section
variable {α β : Type} {P : α → Prop}

theorem returns_pure {a : α} (h : P a) : Returns P (pure a) := fun _ _ => h

theorem Returns.bind {x : KM β} {f : β → KM α} (hf : ∀ b, Returns P (f b)) :
    Returns P (x >>= f) := by
  intro ℓ s
  rw [exec_bind]
  exact hf _ _ _

theorem Returns.ite {c : Prop} [Decidable c] {x y : KM α} (hx : Returns P x) (hy : Returns P y) :
    Returns P (if c then x else y) := by
  split
  · exact hx
  · exact hy

end

variable {N : ℕ} {B : Board N}

theorem natCast_ne_EINVAL (n : ℕ) : (n : ℤ) ≠ -EINVAL := by
  have := Int.natCast_nonneg n
  intro h
  rw [h] at this
  exact absurd this (by decide)

theorem read_ne_EINVAL (d buf count : ℕ) : Returns (· ≠ -EINVAL) (mtcaDummyRead B d buf count) := by
  unfold mtcaDummyRead mtcaDummyReadLocked
  repeat' first
    | exact returns_pure (natCast_ne_EINVAL _)
    | exact returns_pure (by decide)
    | refine Returns.ite ?_ ?_
    | refine Returns.bind fun _ => ?_
    | split

theorem write_ne_EINVAL (d buf count : ℕ) :
    Returns (· ≠ -EINVAL) (mtcaDummyWrite B d buf count) := by
  unfold mtcaDummyWrite mtcaDummyWriteLocked
  repeat' first
    | exact returns_pure (natCast_ne_EINVAL _)
    | exact returns_pure (by decide)
    | refine Returns.ite ?_ ?_
    | refine Returns.bind fun _ => ?_
    | split

/-! ## One call on both slots -/

/-- The worlds of the two runs while nothing was seen: `L` are the files open
    in both. -/
structure Paired (B : Board nrDevs) (L : List ℕ) (w w' : World nrDevs) : Prop where
  flags : ∀ f, w.store (.flag f) = w'.store (.flag f)
  nodup : L.Nodup
  mem : ∀ fd, fd ∈ L ↔ w.files ⟨0, fd⟩ ≠ none
  mem' : ∀ fd, fd ∈ L ↔ w'.files ⟨5, fd⟩ ≠ none
  opened : ∀ fd f, w.files ⟨0, fd⟩ = some f → f.privateData = some 0
  inUse : w.store (.inUse (0 : Fin nrDevs)) = BitVec.ofNat 32 L.length
  inUse' : w'.store (.inUse (5 : Fin nrDevs)) = 0#32
  bars : ∀ bar : Bar, ∀ i < bar.size / 4,
    w.store (.word (bar.base (B.dummyPrivateData (0 : Fin nrDevs))) i) =
      w'.store (.word (bar.base (B.dummyPrivateData (5 : Fin nrDevs))) i)

/-- What the two slots do with a call: as long as it is unseen they reply alike
    and stay paired, and if it is seen their return values differ. -/
structure PairedStep (B : Board nrDevs) (w w' : World nrDevs) (r : Request ℕ) : Prop where
  same : Unseen w r → SameReply (onSlot 0 r) (w.step B (onSlot 0 r)).1 (w'.step B (onSlot 5 r)).1 ∧
    ∃ L, Paired B L (w.step B (onSlot 0 r)).2 (w'.step B (onSlot 5 r)).2
  differ : ¬ Unseen w r →
    (w.step B (onSlot 0 r)).1.ret ≠ (w'.step B (onSlot 5 r)).1.ret

section
variable {B : Board nrDevs} {L : List ℕ} {w w' : World nrDevs}

theorem setFile_files (v : World nrDevs) (x : Fin nrDevs) (fd fd' : ℕ) (f : Option File) :
    (v.setFile ⟨x, fd⟩ f).files ⟨x, fd'⟩ = if fd' = fd then f else v.files ⟨x, fd'⟩ := by
  simp only [World.setFile, Function.update_apply, Handle.mk.injEq, true_and]

/-- A file is opened on both slots. -/
theorem Paired.opn (h : Paired B L w w') {fd : ℕ} (hfd : fd ∉ L) {s : Store} {n : ℕ}
    (hs : s = Function.update w.store (.inUse (0 : Fin nrDevs))
      (w.store (.inUse (0 : Fin nrDevs)) + 1 : U32)) :
    Paired B (fd :: L) ({ w with store := s }.setFile ⟨0, fd⟩ (some ⟨n, some 0⟩))
      (w'.setFile ⟨5, fd⟩ (some ⟨0, none⟩)) := by
  subst hs
  refine ⟨fun f => ?_, List.nodup_cons.2 ⟨hfd, h.nodup⟩, fun fd' => ?_, fun fd' => ?_,
    fun fd' f hf => ?_, ?_, h.inUse', fun bar i hi => ?_⟩
  · simp [World.setFile, h.flags f]
  · rw [List.mem_cons, setFile_files, h.mem]
    split <;> simp [*]
  · rw [List.mem_cons, setFile_files, h.mem']
    split <;> simp [*]
  · rw [setFile_files] at hf
    split at hf
    · cases hf
      rfl
    · exact h.opened fd' f hf
  · simp only [World.setFile, Function.update_self, h.inUse, List.length_cons]
    exact (BitVec.ofNat_add L.length 1).symm
  · simp only [World.setFile, update_inUse_word]
    exact h.bars bar i hi

/-- A file is released on both slots. -/
theorem Paired.release (h : Paired B L w w') {fd : ℕ} (hfd : fd ∈ L) {s : Store}
    (hs : s = Function.update w.store (.inUse (0 : Fin nrDevs))
      (w.store (.inUse (0 : Fin nrDevs)) - 1 : U32)) :
    Paired B (L.erase fd) ({ w with store := s }.setFile ⟨0, fd⟩ none)
      (w'.setFile ⟨5, fd⟩ none) := by
  subst hs
  refine ⟨fun f => ?_, h.nodup.erase fd, fun fd' => ?_, fun fd' => ?_, fun fd' f hf => ?_, ?_,
    h.inUse', fun bar i hi => ?_⟩
  · simp [World.setFile, h.flags f]
  · rw [h.nodup.mem_erase_iff, setFile_files, h.mem]
    split <;> simp [*]
  · rw [h.nodup.mem_erase_iff, setFile_files, h.mem']
    split <;> simp [*]
  · rw [setFile_files] at hf
    split at hf
    · cases hf
    · exact h.opened fd' f hf
  · have hlen : L.length = (L.erase fd).length + 1 := by
      have hpos : 0 < L.length := List.length_pos_of_mem hfd
      rw [List.length_erase_of_mem hfd]
      omega
    simp only [World.setFile, Function.update_self, h.inUse, hlen]
    exact ofNat_succ_sub_one _
  · simp only [World.setFile, update_inUse_word]
    exact h.bars bar i hi

theorem SameReply.refl {H : Type} (r : Request H) (ret : ℤ) (user : UserMem) :
    SameReply r ⟨ret, user⟩ ⟨ret, user⟩ := ⟨rfl, fun _ _ => rfl⟩

theorem Paired.files (h : Paired B L w w') {fd : ℕ} :
    w.files ⟨0, fd⟩ = none ↔ w'.files ⟨5, fd⟩ = none := by
  have h₁ := h.mem fd
  have h₂ := h.mem' fd
  rw [not_iff_not.symm]
  exact h₁.symm.trans h₂

/-- As many files are open as are on the list. -/
theorem Paired.ncard (h : Paired B L w w') : (w.openFiles 0).ncard = L.length := by
  have hset : w.openFiles 0 = (L.toFinset : Set ℕ) := by
    ext fd
    rw [List.coe_toFinset]
    exact (h.mem fd).symm
  rw [hset, Set.ncard_coe_finset, List.toFinset_card_of_nodup h.nodup]

variable (h₀ : B.ops 0 = mtcaDummyFileOps) (h₅ : B.ops 5 = noIoctlDummyFileOps)

include h₅ in
/-- Slot 5 has no method. -/
theorem method_five (r : Request ℕ) : (onSlot 5 r).method B = none := by
  obtain ⟨call, user, signals⟩ := r
  cases call <;> simp [onSlot, Request.map, Call.map, Request.method, h₅, noIoctlDummyFileOps]

include h₅ in
theorem run₁_five (r : Request ℕ) (f : File) (pos : ℕ) : w'.run₁ B (onSlot 5 r) f pos = none := by
  rw [World.run₁, method_five h₅, Option.bind_none]

include h₀ h₅

theorem pairedStep_opn (h : Paired B L w w') (fd : ℕ) (user : UserMem) (signals : List Bool) :
    PairedStep B w w' ⟨.opn fd, user, signals⟩ := by
  have hm₀ : (onSlot 0 ⟨.opn fd, user, signals⟩).method B = some .opn := by
    simp [onSlot, Request.map, Call.map, Request.method, h₀, mtcaDummyFileOps]
  have hstep₀ : w.step B (onSlot 0 ⟨.opn fd, user, signals⟩) =
      w.chrdevOpen B (onSlot 0 ⟨.opn fd, user, signals⟩) ⟨0, fd⟩ := rfl
  have hstep₅ : w'.step B (onSlot 5 ⟨.opn fd, user, signals⟩) =
      w'.chrdevOpen B (onSlot 5 ⟨.opn fd, user, signals⟩) ⟨5, fd⟩ := rfl
  cases hf : w.files ⟨0, fd⟩ with
  | some f =>
    obtain ⟨f', hf'⟩ := Option.ne_none_iff_exists'.1 fun hn => by
      rw [h.files.2 hn] at hf
      cases hf
    refine ⟨fun _ => ?_, fun hun => absurd (fun hn => by rw [hf] at hn; cases hn) hun⟩
    rw [hstep₀, hstep₅, World.chrdevOpen, World.chrdevOpen, hf, hf']
    exact ⟨.refl _ _ _, L, h⟩
  | none =>
    have hfd : fd ∉ L := fun hmem => (h.mem fd).1 hmem hf
    have hun : Unseen w ⟨.opn fd, user, signals⟩ ↔
        w.store (.flag .openError) = false ∧ signals.headD false = false := by
      rw [headD_eq_getD]
      exact ⟨fun hu => hu hf, fun hu _ => hu⟩
    have hopen₅ : w'.chrdevOpen B (onSlot 5 ⟨.opn fd, user, signals⟩) ⟨5, fd⟩ =
        (⟨0, user⟩, w'.setFile ⟨5, fd⟩ (some ⟨0, none⟩)) := by
      rw [World.chrdevOpen, h.files.1 hf, method_five h₅]
      rfl
    have hopen₀ := chrdevOpen_eq hm₀ hf
    refine ⟨fun hu => ?_, fun hu => ?_⟩
    · obtain ⟨hflag, hintr⟩ := hun.1 hu
      rw [hstep₀, hstep₅, hopen₀, hopen₅, if_neg (by simpa [onSlot, Request.map] using hintr),
        if_neg (by simp [hflag])]
      exact ⟨.refl _ _ _, fd :: L, h.opn hfd rfl⟩
    · rw [hun] at hu
      rw [hstep₀, hstep₅, hopen₀, hopen₅]
      split
      · exact show -ERESTARTSYS ≠ 0 by decide
      · split
        · exact show -EINVAL ≠ 0 by decide
        · rename_i hintr hflag
          exact absurd ⟨by simpa using hflag, by simpa [onSlot, Request.map] using hintr⟩ hu

theorem pairedStep_release (h : Paired B L w w') (fd : ℕ) (user : UserMem) (signals : List Bool) :
    PairedStep B w w' ⟨.release fd, user, signals⟩ := by
  refine ⟨fun _ => ?_, fun hun => absurd trivial hun⟩
  have hm₀ : (onSlot 0 ⟨.release fd, user, signals⟩).method B = some .release := by
    simp [onSlot, Request.map, Call.map, Request.method, h₀, mtcaDummyFileOps]
  have hstep₀ : w.step B (onSlot 0 ⟨.release fd, user, signals⟩) =
      w.fput B (onSlot 0 ⟨.release fd, user, signals⟩) ⟨0, fd⟩ := rfl
  have hstep₅ : w'.step B (onSlot 5 ⟨.release fd, user, signals⟩) =
      w'.fput B (onSlot 5 ⟨.release fd, user, signals⟩) ⟨5, fd⟩ := rfl
  rw [hstep₀, hstep₅]
  cases hf : w.files ⟨0, fd⟩ with
  | none =>
    rw [World.fput, World.fput, hf, h.files.1 hf]
    exact ⟨.refl _ _ _, L, h⟩
  | some f =>
    obtain ⟨f', hf'⟩ := Option.ne_none_iff_exists'.1 fun hn => by
      rw [h.files.2 hn] at hf
      cases hf
    have hfd : fd ∈ L := (h.mem fd).2 (by simp [hf])
    have hp : toDevice f.privateData = some (0 : Fin nrDevs) := by
      rw [h.opened fd f hf]
      rfl
    have hput₅ : w'.fput B (onSlot 5 ⟨.release fd, user, signals⟩) ⟨5, fd⟩ =
        (⟨0, user⟩, w'.setFile ⟨5, fd⟩ none) := by
      rw [World.fput, hf']
      dsimp only
      rw [run₁_five h₅]
      rfl
    rw [fput_eq hm₀ hf hp, hput₅]
    exact ⟨.refl _ _ _, L.erase fd, h.release hfd rfl⟩

omit h₀ in
/-- A transfer, by a method of slot 0 that never returns `-EINVAL`. -/
theorem pairedStep_transfer (h : Paired B L w w') {r : Request ℕ} (fd : ℕ) (pos : Option ℕ)
    {m : Fin nrDevs → Entry nrDevs} (hm : (onSlot 0 r).method B = some m)
    (hret : ∀ p, Returns (· ≠ -EINVAL) ((m p).body B))
    (hun : Unseen w r ↔ w.files ⟨0, fd⟩ = none)
    (hstep₀ : w.step B (onSlot 0 r) = w.vfsTransfer B (onSlot 0 r) ⟨0, fd⟩ pos)
    (hstep₅ : w'.step B (onSlot 5 r) = w'.vfsTransfer B (onSlot 5 r) ⟨5, fd⟩ pos) :
    PairedStep B w w' r := by
  constructor
  · intro hu
    rw [hun] at hu
    rw [hstep₀, hstep₅, World.vfsTransfer, World.vfsTransfer, hu, h.files.1 hu]
    exact ⟨.refl _ _ _, L, h⟩
  · intro hu
    rw [hun] at hu
    obtain ⟨f, hf⟩ := Option.ne_none_iff_exists'.1 hu
    obtain ⟨f', hf'⟩ := Option.ne_none_iff_exists'.1 fun hn => hu (h.files.2 hn)
    have hp : toDevice f.privateData = some (0 : Fin nrDevs) := by
      rw [h.opened fd f hf]
      rfl
    rw [hstep₀, hstep₅, World.vfsTransfer, World.vfsTransfer, hf, hf']
    dsimp only
    rw [run₁_five h₅, World.run₁, hm, Option.bind_some, hp, Option.map_some]
    exact hret 0 _ _

omit h₀ h₅ in
/-- A write of the proc file changes the flags, and depends on nothing else. -/
theorem pairedStep_procWrite (h : Paired B L w w') (ubuf count : ℕ) (user : UserMem)
    (signals : List Bool) : PairedStep B w w' ⟨.procWrite ubuf count, user, signals⟩ := by
  refine ⟨fun _ => ?_, fun hun => absurd trivial hun⟩
  have htouch := every_procWrite ubuf (min count maxRwCount) ⟨user, signals, 0, none, []⟩
  have hsame : ∀ l ∈ {l | ∃ f, l = Loc.flag f}, w.store l = w'.store l := by
    rintro l ⟨f, rfl⟩
    exact h.flags f
  obtain ⟨hret, hflags⟩ := Prog.exec_agree htouch hsame
  have hframe : ∀ (s : Store) l, (¬ ∃ f, l = .flag f) →
      (exec ((Entry.procWrite ubuf count).body B) ⟨user, signals, 0, none, []⟩ s).store l = s l :=
    fun s l hl => Prog.exec_frame (htouch.mono fun i hi hw => hl (hi l hw.touches)) s
  refine ⟨⟨congrArg Prod.fst hret, fun addr _ => ?_⟩, L, fun f => hflags _ ⟨f, rfl⟩, h.nodup, h.mem,
    h.mem', h.opened, ?_, ?_, fun bar i hi => ?_⟩
  · exact congrArg (fun x : ℤ × Local => x.2.user.byte addr) hret
  · exact (hframe w.store (.inUse (0 : Fin nrDevs)) (by simp)).trans h.inUse
  · exact (hframe w'.store (.inUse (5 : Fin nrDevs)) (by simp)).trans h.inUse'
  · exact (hframe w.store (.word _ i) (by simp)).trans
      ((h.bars bar i hi).trans (hframe w'.store (.word _ i) (by simp)).symm)

/-- **One call on both slots.** -/
theorem pairedStep (h : Paired B L w w') {r : Request ℕ}
    (hr : ∀ fd cmd arg, r.call ≠ .ioctl fd cmd arg) : PairedStep B w w' r := by
  obtain ⟨call, user, signals⟩ := r
  cases call with
  | opn fd => exact pairedStep_opn h₀ h₅ h fd user signals
  | release fd => exact pairedStep_release h₀ h₅ h fd user signals
  | read fd buf count pos =>
    have hm : (onSlot 0 ⟨.read fd buf count pos, user, signals⟩).method B =
        some fun p => .read p buf count := by
      simp [onSlot, Request.map, Call.map, Request.method, h₀, mtcaDummyFileOps]
    exact pairedStep_transfer h₅ h fd pos hm
      (fun p => read_ne_EINVAL _ _ _) Iff.rfl rfl rfl
  | write fd buf count pos =>
    have hm : (onSlot 0 ⟨.write fd buf count pos, user, signals⟩).method B =
        some fun p => .write p buf count := by
      simp [onSlot, Request.map, Call.map, Request.method, h₀, mtcaDummyFileOps]
    exact pairedStep_transfer h₅ h fd pos hm
      (fun p => write_ne_EINVAL _ _ _) Iff.rfl rfl rfl
  | ioctl fd cmd arg => exact absurd rfl (hr fd cmd arg)
  | procWrite ubuf count => exact pairedStep_procWrite h ubuf count user signals

/-! ## Runs -/

omit h₀ h₅ in
theorem forall_split_cons {α : Type} {P : List α → α → Prop} {a : α} {l : List α} :
    (∀ p x q, a :: l = p ++ x :: q → P p x) ↔
      P [] a ∧ ∀ p x q, l = p ++ x :: q → P (a :: p) x := by
  constructor
  · intro h
    refine ⟨h [] a l rfl, fun p x q hl => h (a :: p) x q ?_⟩
    rw [hl, List.cons_append]
  · rintro ⟨ha, hl⟩ p x q hp
    cases p with
    | nil =>
      cases hp
      exact ha
    | cons b p =>
      injection hp with hb hp
      subst hb
      exact hl p x q hp

/-- The replies agree if and only if every call is unseen, and then the worlds
    stay paired. -/
theorem run_paired (rs : List (Request ℕ))
    (hrs : ∀ r ∈ rs, ∀ fd cmd arg, r.call ≠ .ioctl fd cmd arg)
    (h : Paired B L w w') :
    (List.Forall₂ (fun x y => SameReply x.1 x.2 y.2) (w.run B (rs.map (onSlot 0))).1
        (w'.run B (rs.map (onSlot 5))).1 ↔
      ∀ p r q, rs = p ++ r :: q → Unseen (w.run B (p.map (onSlot 0))).2 r) ∧
    ((∀ p r q, rs = p ++ r :: q → Unseen (w.run B (p.map (onSlot 0))).2 r) →
      ∃ L, Paired B L (w.run B (rs.map (onSlot 0))).2 (w'.run B (rs.map (onSlot 5))).2) := by
  induction rs generalizing w w' L with
  | nil => exact ⟨⟨fun _ p r q hp => by simp at hp, fun _ => .nil⟩, fun _ => ⟨L, h⟩⟩
  | cons r rs ih =>
    have hr := pairedStep h₀ h₅ h (hrs r List.mem_cons_self)
    have hrs' : ∀ r ∈ rs, ∀ fd cmd arg, r.call ≠ .ioctl fd cmd arg :=
      fun r hr => hrs r (List.mem_cons_of_mem _ hr)
    rw [forall_split_cons]
    simp only [List.map_cons, List.map_nil, run_cons, run_nil, List.forall₂_cons]
    constructor
    · constructor
      · rintro ⟨hsame, hrest⟩
        have hu : Unseen w r := by
          by_contra hu
          exact hr.differ hu hsame.ret
        obtain ⟨-, L', h'⟩ := hr.same hu
        exact ⟨hu, (ih hrs' h').1.1 hrest⟩
      · rintro ⟨hu, hrest⟩
        obtain ⟨hsame, L', h'⟩ := hr.same hu
        exact ⟨hsame, (ih hrs' h').1.2 hrest⟩
    · rintro ⟨hu, hrest⟩
      obtain ⟨-, L', h'⟩ := hr.same hu
      exact (ih hrs' h').2 hrest

/-- **The two slots are told apart by exactly the other runs.** -/
theorem sameRun_iff {s : Store} (h : Paired B [] (.start s) (.start s)) (rs : List (Request ℕ))
    (hrs : ∀ r ∈ rs, ∀ fd cmd arg, r.call ≠ .ioctl fd cmd arg) :
    SameRun B s rs ↔ AllUnseen B s rs := by
  obtain ⟨hiff, hpaired⟩ := run_paired h₀ h₅ rs hrs h
  constructor
  · rintro ⟨hreplies, hinUse, -⟩
    have hun := hiff.1 hreplies
    obtain ⟨L, hL⟩ := hpaired hun
    refine ⟨hun, ?_⟩
    rw [hL.inUse, hL.inUse'] at hinUse
    rw [hL.ncard]
    exact ofNat_eq_zero_iff.1 hinUse
  · rintro ⟨hun, hopen⟩
    obtain ⟨L, hL⟩ := hpaired hun
    refine ⟨hiff.2 hun, ?_, hL.bars⟩
    rw [hL.ncard] at hopen
    rw [hL.inUse, hL.inUse']
    exact ofNat_eq_zero_iff.2 hopen

omit h₅ in
/-- A file is opened. -/
theorem step_opn_start {s : Store} (hflag : s (.flag .openError) = false) (user : UserMem) :
    ((World.start s).step B (onSlot 0 ⟨.opn 0, user, []⟩)).2 = World.setFile
      ⟨Function.update s (.inUse (0 : Fin nrDevs)) (s (.inUse (0 : Fin nrDevs)) + 1 : U32),
        fun _ => none⟩ ⟨0, 0⟩ (some ⟨0, some 0⟩) := by
  have hm : (onSlot 0 ⟨.opn 0, user, []⟩).method B = some .opn := by
    simp [onSlot, Request.map, Call.map, Request.method, h₀, mtcaDummyFileOps]
  have hopen := chrdevOpen_eq (w := .start s) (h := ⟨0, 0⟩) hm rfl
  rw [if_neg (by simp [onSlot, Request.map]), if_neg (by simp [World.start, hflag])] at hopen
  exact congrArg Prod.snd hopen

omit h₅ in
/-- A file is opened and released. -/
theorem allUnseen_release {s : Store} (hflag : s (.flag .openError) = false) (user : UserMem) :
    AllUnseen B s [⟨.opn 0, user, []⟩, ⟨.release 0, user, []⟩] := by
  refine ⟨forall_split_cons.2 ⟨fun _ => ⟨hflag, rfl⟩, forall_split_cons.2 ⟨trivial, by simp⟩⟩, ?_⟩
  have hm : (onSlot 0 ⟨.release 0, user, []⟩).method B = some .release := by
    simp [onSlot, Request.map, Call.map, Request.method, h₀, mtcaDummyFileOps]
  have hempty : (((World.start s).run B ([⟨.opn 0, user, []⟩, ⟨.release 0, user, []⟩].map
      (onSlot 0))).2.openFiles 0) = ∅ := by
    simp only [List.map_cons, List.map_nil, run_cons, run_nil, step_opn_start h₀ hflag user]
    have hput := fput_eq (w := World.setFile ⟨Function.update s (.inUse (0 : Fin nrDevs))
      (s (.inUse (0 : Fin nrDevs)) + 1 : U32), fun _ => none⟩ ⟨0, 0⟩ (some ⟨0, some 0⟩))
      (h := ⟨0, 0⟩) (f := ⟨0, some 0⟩) hm (by simp [World.setFile]) rfl
    change World.openFiles (World.fput _ _ _ ⟨0, 0⟩).2 0 = ∅
    rw [hput]
    ext fd
    simp [World.openFiles, World.setFile]
  rw [hempty, Set.ncard_empty]
  exact dvd_zero _

omit h₅ in
/-- A file that was opened is read. -/
theorem not_allUnseen_read {s : Store} {user : UserMem} {buf count : ℕ} : ¬ AllUnseen B s
    [⟨.opn 0, user, []⟩, ⟨.read 0 buf count none, user, []⟩] := by
  rintro ⟨hun, -⟩
  obtain ⟨hflag, -⟩ := hun [] _ _ rfl rfl
  have hread := hun [⟨.opn 0, user, []⟩] _ _ rfl
  simp only [Unseen, List.map_cons, List.map_nil, run_cons, run_nil,
    step_opn_start (s := s) h₀ hflag user] at hread
  simp [World.setFile] at hread

end

/-! ## The loaded module -/

section
variable {k : Outcomes} {mem : Ptr → ℕ → U32} (hl : (loaded nrDevs k mem).1 = 0)
include hl

theorem loaded_ops (d : Fin nrDevs) : (Board.loaded hl (by decide)).ops d = (slotOps d).ops := by
  rw [Board.ops, Board.loaded_data, readyData, if_pos d.isLt]
  rfl

theorem paired_loaded : Paired (Board.loaded hl (by decide)) []
    (.start (loaded nrDevs k mem).2.store) (.start (loaded nrDevs k mem).2.store) := by
  have hstore := (loaded_ready hl).store
  refine ⟨fun _ => rfl, List.nodup_nil, by simp [World.start], by simp [World.start],
    nofun, ?_, ?_, fun bar i hi => ?_⟩
  · simp only [World.start, hstore]
    rfl
  · simp only [World.start, hstore]
    rfl
  · have hdata := Board.loaded_data hl (show nrDevs ≤ 2 ^ 32 by decide)
    simp only [World.start, hstore]
    exact (readyStore_bar hdata mem (Fin.isLt 0) hi).trans
      (readyStore_bar hdata mem (Fin.isLt 5) hi).symm

end

/-- **The device without ioctl.**  A run of calls other than ioctls, on the
    files of slot 5 of a module just loaded, goes as on slot 0 if and only if
    on slot 0 no open file is read or written, every open succeeds, and the
    number of files open in the end is a multiple of `2 ^ 32`. -/
theorem noIoctl_same_run {k : Outcomes} {mem : Ptr → ℕ → U32} (hl : (loaded nrDevs k mem).1 = 0)
    (rs : List (Request ℕ)) (hrs : ∀ r ∈ rs, ∀ fd cmd arg, r.call ≠ .ioctl fd cmd arg) :
    SameRun (Board.loaded hl (by decide)) (loaded nrDevs k mem).2.store rs ↔
      AllUnseen (Board.loaded hl (by decide)) (loaded nrDevs k mem).2.store rs :=
  sameRun_iff (loaded_ops hl 0) (loaded_ops hl 5) (paired_loaded hl) rs hrs

/-- A file is opened and released. -/
theorem noIoctl_same_run_released : SameRun (Board.loaded (loaded_success nrDevs fun _ _ => 0#32)
    (by decide)) (loaded nrDevs .success fun _ _ => 0#32).2.store
    [⟨.opn 0, .ofBytes fun _ => 0, []⟩, ⟨.release 0, .ofBytes fun _ => 0, []⟩] := by
  have hl := loaded_success nrDevs fun _ _ => 0#32
  have hflag : (loaded nrDevs .success fun _ _ => 0#32).2.store (.flag .openError) = false :=
    congrFun (loaded_ready hl).store (.flag .openError)
  exact (noIoctl_same_run hl _ (by simp)).2 (allUnseen_release (loaded_ops hl 0) hflag _)

/-- A file is opened and read: on slot 5 there is no method to read it. -/
theorem noIoctl_read_differs : ¬ SameRun (Board.loaded (loaded_success nrDevs fun _ _ => 0#32)
    (by decide)) (loaded nrDevs .success fun _ _ => 0#32).2.store
    [⟨.opn 0, .ofBytes fun _ => 0, []⟩, ⟨.read 0 0 24 none, .ofBytes fun _ => 0, []⟩] := by
  have hl := loaded_success nrDevs fun _ _ => 0#32
  rw [sameRun_iff (loaded_ops hl 0) (loaded_ops hl 5) (paired_loaded hl) _ (by simp)]
  exact not_allUnseen_read (loaded_ops hl 0)

end MtcaDummy

/-
  The three copies of the ioctl agree.

  A command is the word of its four fields (`eq_ioc_iff`), and what a copy does
  depends only on the answers of its tests (`dummyIoctl_congr`).  So
  `pcieuniDummy_ioctl` does what `mtcaDummy_ioctl` does for the command with
  the other type, and `llrfDummy_ioctl` what it does for a command with a
  number that is higher by 40: `ioctl_copies_agree`.
-/
import MtcaDummy.Driver.Drv

namespace MtcaDummy

/-! ## The fields of a command (linux/ioctl.h) -/

def iocDir (cmd : U32) : U32 := cmd >>> 30

/-- `_IOC(dir, type, nr, size)`. -/
def ioc (dir type nr size : U32) : U32 := (dir <<< 30) ||| (size <<< 16) ||| (type <<< 8) ||| nr

/-- The fields have no more bits than a command has for them. -/
structure IocFits (dir type nr size : U32) : Prop where
  dir : dir.toNat < 2 ^ 2
  type : type.toNat < 2 ^ 8
  nr : nr.toNat < 2 ^ 8
  size : size.toNat < 2 ^ 14

theorem iocDir_toNat (cmd : U32) : (iocDir cmd).toNat = cmd.toNat / 2 ^ 30 := by
  rw [iocDir, BitVec.toNat_ushiftRight, Nat.shiftRight_eq_div_pow]

theorem iocType_toNat (cmd : U32) : (iocType cmd).toNat = cmd.toNat / 2 ^ 8 % 2 ^ 8 := by
  rw [iocType, BitVec.toNat_and, BitVec.toNat_ushiftRight, Nat.shiftRight_eq_div_pow]
  exact Nat.and_two_pow_sub_one_eq_mod _ 8

theorem iocNr_toNat (cmd : U32) : (iocNr cmd).toNat = cmd.toNat % 2 ^ 8 := by
  rw [iocNr, BitVec.toNat_and]
  exact Nat.and_two_pow_sub_one_eq_mod _ 8

theorem iocSize_toNat (cmd : U32) : (iocSize cmd).toNat = cmd.toNat / 2 ^ 16 % 2 ^ 14 := by
  rw [iocSize, BitVec.toNat_and, BitVec.toNat_ushiftRight, Nat.shiftRight_eq_div_pow]
  exact Nat.and_two_pow_sub_one_eq_mod _ 14

theorem ioc_fits (cmd : U32) : IocFits (iocDir cmd) (iocType cmd) (iocNr cmd) (iocSize cmd) := by
  have hlt := cmd.isLt
  constructor
  · rw [iocDir_toNat]; omega
  · rw [iocType_toNat]; omega
  · rw [iocNr_toNat]; omega
  · rw [iocSize_toNat]; omega

section
variable {dir type nr size : U32}

theorem ioc_toNat (h : IocFits dir type nr size) : (ioc dir type nr size).toNat =
    2 ^ 30 * dir.toNat + (2 ^ 16 * size.toNat + (2 ^ 8 * type.toNat + nr.toNat)) := by
  obtain ⟨hdir, htype, hnr, hsize⟩ := h
  have h₁ := Nat.two_pow_add_eq_or_of_lt hnr type.toNat
  have h₂ := Nat.two_pow_add_eq_or_of_lt (i := 16)
    (by omega : 2 ^ 8 * type.toNat + nr.toNat < 2 ^ 16) size.toNat
  have h₃ := Nat.two_pow_add_eq_or_of_lt (i := 30)
    (by omega : 2 ^ 16 * size.toNat + (2 ^ 8 * type.toNat + nr.toNat) < 2 ^ 30) dir.toNat
  simp only [ioc, BitVec.toNat_or, BitVec.toNat_shiftLeft, Nat.shiftLeft_eq]
  rw [Nat.mod_eq_of_lt (by omega), Nat.mod_eq_of_lt (by omega), Nat.mod_eq_of_lt (by omega),
    Nat.or_assoc, Nat.or_assoc, Nat.mul_comm type.toNat, Nat.mul_comm size.toNat,
    Nat.mul_comm dir.toNat, h₃, h₂, h₁]

/-- **A command is the word of its fields.** -/
theorem eq_ioc_iff (h : IocFits dir type nr size) (cmd : U32) : cmd = ioc dir type nr size ↔
    iocDir cmd = dir ∧ iocType cmd = type ∧ iocNr cmd = nr ∧ iocSize cmd = size := by
  have hlt := cmd.isLt
  obtain ⟨hdir, htype, hnr, hsize⟩ := id h
  simp only [← BitVec.toNat_inj, ioc_toNat h, iocDir_toNat, iocType_toNat, iocNr_toNat,
    iocSize_toNat]
  constructor <;> omega

theorem iocType_ioc (h : IocFits dir type nr size) : iocType (ioc dir type nr size) = type :=
  ((eq_ioc_iff h _).1 rfl).2.1

theorem iocNr_ioc (h : IocFits dir type nr size) : iocNr (ioc dir type nr size) = nr :=
  ((eq_ioc_iff h _).1 rfl).2.2.1

theorem iocSize_ioc (h : IocFits dir type nr size) : iocSize (ioc dir type nr size) = size :=
  ((eq_ioc_iff h _).1 rfl).2.2.2

theorem iocDir_ioc (h : IocFits dir type nr size) : iocDir (ioc dir type nr size) = dir :=
  ((eq_ioc_iff h _).1 rfl).1

end

/-- The commands of the interface transfer an `int` both ways. -/
theorem eq_iowrInt_iff {type nr : U32} (htype : type.toNat < 2 ^ 8) (hnr : nr.toNat < 2 ^ 8)
    (cmd : U32) : cmd = iowrInt type nr ↔
      iocType cmd = type ∧ iocNr cmd = nr ∧ iocDir cmd = 3#32 ∧ iocSize cmd = 4#32 := by
  have h : cmd = iowrInt type nr ↔ _ := eq_ioc_iff ⟨by decide, htype, hnr, by decide⟩ cmd
  rw [h]
  constructor
  · rintro ⟨hdir, ht, hn, hsize⟩
    exact ⟨ht, hn, hdir, hsize⟩
  · rintro ⟨ht, hn, hdir, hsize⟩
    exact ⟨hdir, ht, hn, hsize⟩

/-- The command with another type. -/
def withType (cmd type : U32) : U32 := ioc (iocDir cmd) type (iocNr cmd) (iocSize cmd)

/-- The command with another number. -/
def withNr (cmd nr : U32) : U32 := ioc (iocDir cmd) (iocType cmd) nr (iocSize cmd)

theorem fits_withType (cmd : U32) {type : U32} (h : type.toNat < 2 ^ 8) :
    IocFits (iocDir cmd) type (iocNr cmd) (iocSize cmd) :=
  { ioc_fits cmd with type := h }

theorem fits_withNr (cmd : U32) {nr : U32} (h : nr.toNat < 2 ^ 8) :
    IocFits (iocDir cmd) (iocType cmd) nr (iocSize cmd) :=
  { ioc_fits cmd with nr := h }

/-! ## What a copy depends on -/

section
variable {N : ℕ} {B : Board N} {c c' : IoctlConstants} {cmd cmd' : U32}

/-- The tests of two copies answer alike to two commands. -/
structure TestsAgree (c c' : IoctlConstants) (cmd cmd' : U32) : Prop where
  type : iocType cmd = c.ioc ↔ iocType cmd' = c'.ioc
  nr : c.wrongNr cmd = c'.wrongNr cmd'
  size : iocSize cmd = iocSize cmd'
  physicalSlot : cmd = c.physicalSlot ↔ cmd' = c'.physicalSlot
  driverVersion : cmd = c.driverVersion ↔ cmd' = c'.driverVersion
  firmwareVersion : cmd = c.firmwareVersion ↔ cmd' = c'.firmwareVersion
  readDma : some cmd = c.readDma ↔ some cmd' = c'.readDma

theorem dummyIoctlLocked_congr (h : TestsAgree c c' cmd cmd') (d arg : ℕ) :
    dummyIoctlLocked B c d cmd arg = dummyIoctlLocked B c' d cmd' arg := by
  unfold dummyIoctlLocked
  simp only [h.physicalSlot, h.driverVersion, h.firmwareVersion, h.readDma]

/-- **The copies are one program up to their tests.** -/
theorem dummyIoctl_congr (h : TestsAgree c c' cmd cmd') (d arg : ℕ) :
    dummyIoctl B c d cmd arg = dummyIoctl B c' d cmd' arg := by
  unfold dummyIoctl
  simp only [ne_eq, h.type, h.nr, h.size, dummyIoctlLocked_congr h]

/-- A command of another type, or out of the ranges. -/
theorem dummyIoctl_refuses (h : iocType cmd ≠ c.ioc ∨ c.wrongNr cmd = true) (d arg : ℕ) :
    dummyIoctl B c d cmd arg = pure (-ENOTTY) := by
  unfold dummyIoctl
  by_cases htype : iocType cmd ≠ c.ioc
  · rw [if_pos htype]
  · rw [if_neg htype, h.resolve_left htype, if_pos rfl]

end

/-! ## The copies -/

/-- The type tells the commands of two interfaces apart, and nothing else. -/
theorem eq_iowrInt_withType {cmd type type' nr : U32} (h : iocType cmd = type)
    (htype : type.toNat < 2 ^ 8) (htype' : type'.toNat < 2 ^ 8) (hnr : nr.toNat < 2 ^ 8) :
    cmd = iowrInt type nr ↔ withType cmd type' = iowrInt type' nr := by
  have hfits := fits_withType cmd htype'
  rw [eq_iowrInt_iff htype hnr, eq_iowrInt_iff htype' hnr, withType, iocType_ioc hfits,
    iocNr_ioc hfits, iocDir_ioc hfits, iocSize_ioc hfits]
  simp only [h, true_and]

/-- A shift of the numbers takes commands to commands. -/
theorem eq_iowrInt_withNr {cmd type nr k : U32} (htype : type.toNat < 2 ^ 8)
    (hcmd : (iocNr cmd + k).toNat < 2 ^ 8) (hnr : nr.toNat < 2 ^ 8)
    (hnr' : (nr + k).toNat < 2 ^ 8) :
    cmd = iowrInt type nr ↔ withNr cmd (iocNr cmd + k) = iowrInt type (nr + k) := by
  have hfits := fits_withNr cmd hcmd
  rw [eq_iowrInt_iff htype hnr, eq_iowrInt_iff htype hnr', withNr, iocType_ioc hfits,
    iocNr_ioc hfits, iocDir_ioc hfits, iocSize_ioc hfits, BitVec.add_left_inj]

theorem pcieuni_agrees {cmd : U32} (h : iocType cmd = pcieuniIoc) :
    TestsAgree pcieuniDummyConstants mtcaDummyConstants cmd (withType cmd pciedoocsIoc) := by
  have hlt : pcieuniIoc.toNat < 2 ^ 8 := by decide
  have hlt' : pciedoocsIoc.toNat < 2 ^ 8 := by decide
  have hfits := fits_withType cmd hlt'
  constructor
  · exact ⟨fun _ => iocType_ioc hfits, fun _ => h⟩
  · simp only [IoctlConstants.wrongNr, withType, iocNr_ioc hfits]
    rfl
  · exact (iocSize_ioc hfits).symm
  · exact eq_iowrInt_withType h hlt hlt' (by decide)
  · exact eq_iowrInt_withType h hlt hlt' (by decide)
  · exact eq_iowrInt_withType h hlt hlt' (by decide)
  · simp only [pcieuniDummyConstants, mtcaDummyConstants, Option.some.injEq]
    exact eq_iowrInt_withType h hlt hlt' (by decide)

/-- The numbers of `llrfDummy_ioctl`. -/
def IsLlrfNr (nr : U32) : Prop := 20#32 ≤ nr ∧ nr ≤ 22#32

instance (nr : U32) : Decidable (IsLlrfNr nr) := inferInstanceAs (Decidable (_ ∧ _))

theorem IsLlrfNr.toNat {nr : U32} (h : IsLlrfNr nr) : 20 ≤ nr.toNat ∧ nr.toNat ≤ 22 := h

theorem IsLlrfNr.add {nr : U32} (h : IsLlrfNr nr) : (nr + 40#32).toNat = nr.toNat + 40 := by
  have hmax := h.toNat.2
  rw [BitVec.toNat_add]
  exact Nat.mod_eq_of_lt (show nr.toNat + 40 < 2 ^ 32 by omega)

theorem llrf_agrees {cmd : U32} (hnr : IsLlrfNr (iocNr cmd)) :
    TestsAgree llrfDummyConstants mtcaDummyConstants cmd (withNr cmd (iocNr cmd + 40#32)) := by
  obtain ⟨hmin, hmax⟩ := hnr.toNat
  have hlt : llrfdrvIoc.toNat < 2 ^ 8 := by decide
  have hadd := hnr.add
  have hcmd : (iocNr cmd + 40#32).toNat < 2 ^ 8 := by omega
  have hfits := fits_withNr cmd hcmd
  constructor
  · rw [withNr, iocType_ioc hfits]
    rfl
  · have hno : llrfDummyConstants.wrongNr cmd = false := by
      simp only [IoctlConstants.wrongNr, llrfDummyConstants, Option.all_none, and_true,
        decide_eq_false_iff_not, not_or]
      exact ⟨Nat.not_lt.2 hmin, Nat.not_lt.2 hmax⟩
    have hno' : mtcaDummyConstants.wrongNr (withNr cmd (iocNr cmd + 40#32)) = false := by
      rw [IoctlConstants.wrongNr, withNr, iocNr_ioc hfits, decide_eq_false_iff_not]
      rintro ⟨hlow | hhigh, -⟩
      · have hlow : (iocNr cmd + 40#32).toNat < 60 := hlow
        omega
      · have hhigh : 63 < (iocNr cmd + 40#32).toNat := hhigh
        omega
    rw [hno, hno']
  · exact (iocSize_ioc hfits).symm
  · exact eq_iowrInt_withNr hlt hcmd (by decide) (by decide)
  · exact eq_iowrInt_withNr hlt hcmd (by decide) (by decide)
  · exact eq_iowrInt_withNr hlt hcmd (by decide) (by decide)
  · -- the DMA read would have the number 32
    constructor
    · intro hnone
      cases hnone
    · intro hdma
      have h72 := ((eq_iowrInt_iff (by decide) (by decide) _).1 (Option.some.inj hdma)).2.1
      rw [withNr, iocNr_ioc hfits] at h72
      have h72 : (iocNr cmd + 40#32).toNat = 72 := congrArg BitVec.toNat h72
      omega

theorem llrf_wrongNr {cmd : U32} (h : ¬ IsLlrfNr (iocNr cmd)) :
    llrfDummyConstants.wrongNr cmd = true := by
  simp only [IoctlConstants.wrongNr, llrfDummyConstants, Option.all_none, and_true,
    decide_eq_true_eq]
  by_contra hno
  obtain ⟨hmin, hmax⟩ := not_or.1 hno
  exact h ⟨Nat.not_lt.1 hmin, Nat.not_lt.1 hmax⟩

/-- **The three copies of the ioctl agree**: they are the same programs, so
    that they do the same with the memory of the process, its signals and the
    device, alone and between the steps of others.  A command that a copy does
    not know is answered before anything is looked at. -/
theorem ioctl_copies_agree {N : ℕ} (B : Board N) (d : ℕ) (cmd : U32) (arg : ℕ) :
    pcieuniDummyIoctl B d cmd arg =
      (if iocType cmd = pcieuniIoc then mtcaDummyIoctl B d (withType cmd pciedoocsIoc) arg
        else pure (-ENOTTY)) ∧
    llrfDummyIoctl B d cmd arg =
      (if iocType cmd = llrfdrvIoc ∧ IsLlrfNr (iocNr cmd) then
          mtcaDummyIoctl B d (withNr cmd (iocNr cmd + 40#32)) arg
        else pure (-ENOTTY)) := by
  constructor
  · by_cases htype : iocType cmd = pcieuniIoc
    · rw [if_pos htype]
      exact dummyIoctl_congr (pcieuni_agrees htype) d arg
    · rw [if_neg htype]
      exact dummyIoctl_refuses (.inl htype) d arg
  · by_cases htype : iocType cmd = llrfdrvIoc
    · by_cases hnr : IsLlrfNr (iocNr cmd)
      · rw [if_pos ⟨htype, hnr⟩, llrfDummyIoctl_eq]
        exact dummyIoctl_congr (llrf_agrees hnr) d arg
      · rw [if_neg fun h => hnr h.2, llrfDummyIoctl_eq]
        exact dummyIoctl_refuses (.inr (llrf_wrongNr hnr)) d arg
    · rw [if_neg fun h => htype h.1, llrfDummyIoctl_eq]
      exact dummyIoctl_refuses (.inl htype) d arg

end MtcaDummy

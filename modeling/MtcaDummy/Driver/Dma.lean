/-
  The bulk reads of bar 2: `RW_DMA` through `read`, and the two ioctls that
  read by DMA.

  The check of the range is one sum of 32 bit words.  `dma_read_inside_bar`:
  the copy stays in the bar for exactly the requests whose sum does not wrap
  into the range allowed, and every other request reads no word.
-/
import MtcaDummy.Driver.Entry
import MtcaDummy.Driver.Init

namespace MtcaDummy

open Conc

variable {N : ℕ}

/-! ## Requests -/

/-- Offset and size of the request, if the call is one to read by DMA. -/
def Entry.dmaRequest (ℓ : Local) : Entry N → Option (U32 × U32)
  | .read _ buf _ =>
    let r := DeviceRw.ofBytes (ℓ.user.fetch buf sizeofDeviceRw)
    if r.modeRw = rwDma then some (r.offsetRw, r.sizeRw) else none
  | .ioctl _ cmd arg =>
    let r := DeviceIoctrlDma.ofBytes (ℓ.user.fetch arg sizeofDeviceIoctrlDma)
    if cmd = pciedevReadDma then some (r.dmaOffset, r.dmaSize) else none
  | .pcieuniIoctl _ cmd arg =>
    let r := DeviceIoctrlDma.ofBytes (ℓ.user.fetch arg sizeofDeviceIoctrlDma)
    if cmd = pcieuniReadDma then some (r.dmaOffset, r.dmaSize) else none
  | _ => none

/-- What the ioctls check besides the sum. -/
def ioctlDmaChecks (arg : ℕ) (ℓ : Local) (offset : U32) : Prop :=
  ℓ.user.accessOk arg 4 = true ∧ ℓ.signals.getD 0 false = false ∧
    ℓ.user.readLen arg sizeofDeviceIoctrlDma = sizeofDeviceIoctrlDma ∧
    offset.toNat % 4 = 0

/-- What the path checks besides the sum. -/
def Entry.dmaChecks (ℓ : Local) (s : Store) (offset size : U32) : Entry N → Prop
  | .read _ buf count =>
    ℓ.signals.getD 0 false = false ∧ s (.flag .readError) = false ∧
      ℓ.signals.getD 1 false = false ∧ sizeofDeviceRw ≤ min count maxRwCount ∧
      ℓ.user.readLen buf sizeofDeviceRw = sizeofDeviceRw ∧ size ≠ 0#32
  | .ioctl _ _ arg | .pcieuniIoctl _ _ arg => ioctlDmaChecks arg ℓ offset
  | _ => False

/-- The call is one of `read`, where a request for no bytes succeeds. -/
def Entry.isRead : Entry N → Prop
  | .read _ _ _ => True
  | _ => False

/-- A run that copies at most the requested range, which lies in the bar, and
    if it copies nothing, reads no word and is refused, or has nothing to
    read. -/
structure DmaSafe (dmaBar : Ptr) (offset size : U32) (empty : Prop) (tr : List KInstr) (r : ℤ) :
    Prop where
  inside : ∀ b w n, .note (.copyToUser b w n) ∈ tr →
    b = dmaBar ∧ w = offset.toNat / 4 ∧ n = size.toNat ∧ 4 * w + n ≤ dmaSize
  refused : (∀ nt, .note nt ∉ tr) →
    (∀ b j, .load (.word b j) ∉ tr) ∧ (r < 0 ∨ empty ∧ size = 0#32 ∧ r = 0)

/-! ## The copy -/

theorem note_notMem_copyWords (cell : ℕ → Ptr × ℕ) (k dst w n : ℕ) (ℓ : Local) (s : Store)
    (nt : Note) : .note nt ∉ trace (copyWords cell k dst w n) ℓ s := by
  have hall : Every (fun i : KInstr => i ≠ .note nt) (copyWords cell k dst w n) := by
    induction k generalizing dst w n with
    | zero => exact every_pure _
    | succ k ih =>
      refine Every.bind (fun _ => ⟨nofun, fun _ => trivial⟩) fun v => ?_
      exact Every.bind (fun _ => trivial) fun left => (every_pure _).ite (ih _ _ _)
  exact fun h => (hall ℓ).mem_trace h rfl

/-- The notes of a copy. -/
theorem note_mem_copyToUserFrom {B : Board N} {dst : ℕ} {b : Ptr} {size w n : ℕ} {ℓ : Local}
    {s : Store} {nt : Note} :
    .note nt ∈ trace (copyToUserFrom B dst b size w n) ℓ s ↔ nt = .copyToUser b w n := by
  have htr : trace (copyToUserFrom B dst b size w n) ℓ s = .note (.copyToUser b w n) ::
      trace (if !ℓ.user.accessOk dst n then pure n
        else copyWords (B.locate b size) ((n + 3) / 4) dst w n) ℓ s := rfl
  rw [htr, List.mem_cons, trace_ite]
  constructor
  · rintro (h | h)
    · cases h
      rfl
    · split at h
      · cases h
      · exact absurd h (note_notMem_copyWords _ _ _ _ _ _ _ _)
  · rintro rfl
    exact .inl rfl

/-! ## The check -/

/-- The sum, as the check computes it, is in range. -/
def SumPasses (offset size : U32) : Prop := ¬ offset + size > BitVec.ofNat 32 dmaSize

/-- **The check bounds the range exactly if the sum does not wrap.** -/
theorem range_inside_iff {offset size : U32} (h : SumPasses offset size) :
    4 * (offset.toNat / 4) + size.toNat ≤ dmaSize ↔ offset.toNat + size.toNat < 2 ^ 32 := by
  have hdma : dmaSize = 4096 := rfl
  have hsum : (offset.toNat + size.toNat) % 2 ^ 32 ≤ 4096 := by
    simp only [SumPasses, hdma, gt_iff_lt, BitVec.lt_def, BitVec.toNat_add, BitVec.toNat_ofNat] at h
    omega
  omega

/-- A request to read by DMA whose sum passes does not wrap. -/
def Entry.InRange (ℓ : Local) (e : Entry N) : Prop :=
  ∀ offset size, e.dmaRequest ℓ = some (offset, size) → SumPasses offset size →
    offset.toNat + size.toNat < 2 ^ 32

theorem Entry.inRange_of_none {ℓ : Local} {e : Entry N} (h : e.dmaRequest ℓ = none) :
    e.InRange ℓ := by
  intro offset size hreq
  rw [h] at hreq
  cases hreq

/-- The run of a request for `size` bytes from `offset` on, if the checks
    `checks` pass, or not. -/
structure DmaRun (dmaBar : Ptr) (offset size : U32) (checks empty : Prop) (tr : List KInstr)
    (r : ℤ) : Prop where
  copies : checks → SumPasses offset size → ∀ nt, .note nt ∈ tr ↔
    nt = .copyToUser dmaBar (offset.toNat / 4) size.toNat
  refuses : ¬ (checks ∧ SumPasses offset size) →
    (∀ nt, .note nt ∉ tr) ∧ (∀ b j, .load (.word b j) ∉ tr) ∧ (r < 0 ∨ empty ∧ size = 0#32 ∧ r = 0)

theorem DmaRun.safe_iff {dmaBar : Ptr} {offset size : U32} {checks empty : Prop}
    {tr : List KInstr} {r : ℤ} (h : DmaRun dmaBar offset size checks empty tr r) :
    DmaSafe dmaBar offset size empty tr r ↔
      ¬ (checks ∧ SumPasses offset size ∧ 2 ^ 32 ≤ offset.toNat + size.toNat) := by
  constructor
  · rintro hs ⟨hc, hp, hwrap⟩
    have := (hs.inside _ _ _ ((h.copies hc hp _).2 rfl)).2.2.2
    have := (range_inside_iff hp).1 this
    omega
  · intro hno
    by_cases hcp : checks ∧ SumPasses offset size
    · obtain ⟨hc, hp⟩ := hcp
      refine ⟨fun b w n hnt => ?_, fun hnone => absurd ((h.copies hc hp _).2 rfl) (hnone _)⟩
      cases (h.copies hc hp _).1 hnt
      have hlt : offset.toNat + size.toNat < 2 ^ 32 := Nat.lt_of_not_le fun hge => hno ⟨hc, hp, hge⟩
      exact ⟨rfl, rfl, rfl, (range_inside_iff hp).2 hlt⟩
    · obtain ⟨hnote, hload, hr⟩ := h.refuses hcp
      exact ⟨fun b w n hnt => absurd hnt (hnote _), fun _ => ⟨hload, hr⟩⟩

/-! ## The paths -/

/-- The request of an ioctl. -/
theorem dmaRun_ioctl (B : Board N) (c : IoctlConstants) (cmd : U32) (hcmd : c.readDma = some cmd)
    (htype : iocType cmd = c.ioc) (hnr : c.wrongNr cmd = false) (hsize : (iocSize cmd).toNat = 4)
    (hne : cmd ≠ c.physicalSlot ∧ cmd ≠ c.driverVersion ∧ cmd ≠ c.firmwareVersion) {d arg : ℕ}
    {ℓ : Local} {s : Store} {r : DeviceIoctrlDma}
    (hr : DeviceIoctrlDma.ofBytes (ℓ.user.fetch arg sizeofDeviceIoctrlDma) = r) :
    DmaRun (B.dummyPrivateData d).dmaBar r.dmaOffset r.dmaSize (ioctlDmaChecks arg ℓ r.dmaOffset)
      False (trace (dummyIoctl B c d cmd arg) ℓ s) (exec (dummyIoctl B c d cmd arg) ℓ s).val := by
  rw [ioctlDmaChecks, ← headD_eq_getD]
  simp only [dummyIoctl, dummyIoctlLocked, htype, hnr, hsize, hne, hcmd]
  constructor
  · rintro ⟨h₁, h₂, h₃, h₄⟩ hp nt
    rw [SumPasses] at hp
    simp [h₁, h₂, h₃, hr, h₄, hp, note_mem_copyToUserFrom, -List.headD_eq_head?_getD]
  · intro hno
    cases h₁ : ℓ.user.accessOk arg 4 with
    | false => simp [h₁, EFAULT]
    | true =>
      cases h₂ : ℓ.signals.headD false with
      | true => simp [h₁, h₂, ERESTARTSYS, -List.headD_eq_head?_getD]
      | false =>
        by_cases h₃ : ℓ.user.readLen arg sizeofDeviceIoctrlDma = sizeofDeviceIoctrlDma
        · by_cases hp : SumPasses r.dmaOffset r.dmaSize
          · have h₄ : r.dmaOffset.toNat % 4 ≠ 0 := fun h₄ => hno ⟨⟨h₁, h₂, h₃, h₄⟩, hp⟩
            rw [SumPasses] at hp
            simp [h₁, h₂, h₃, hr, h₄, hp, EFAULT, -List.headD_eq_head?_getD]
          · rw [SumPasses, not_not] at hp
            simp [h₁, h₂, h₃, hr, hp, EFAULT, -List.headD_eq_head?_getD]
        · have hleft := UserMem.readLeft_ne_zero h₃
          simp [h₁, h₂, hleft, EFAULT, -List.headD_eq_head?_getD]

/-- The request of `read` for `size` bytes from `offset` on. -/
theorem dmaRun_read (B : Board N) {d buf count : ℕ} {ℓ : Local} {s : Store} {r : DeviceRw}
    (hr : DeviceRw.ofBytes (ℓ.user.fetch buf sizeofDeviceRw) = r) (hmode : r.modeRw = rwDma) :
    DmaRun (B.dummyPrivateData d).dmaBar r.offsetRw r.sizeRw
      (ℓ.signals.getD 0 false = false ∧ s (.flag .readError) = false ∧
        ℓ.signals.getD 1 false = false ∧ sizeofDeviceRw ≤ count ∧
        ℓ.user.readLen buf sizeofDeviceRw = sizeofDeviceRw ∧ r.sizeRw ≠ 0#32)
      True (trace (mtcaDummyRead B d buf count) ℓ s) (exec (mtcaDummyRead B d buf count) ℓ s).val := by
  have hm : rwDma ≠ rwInfo ∧ rwDma ≠ rwD32 ∧ rwDma ≠ rwD8 ∧ rwDma ≠ rwD16 := by decide
  rw [← headD_eq_getD, ← getD_tail, ← headD_eq_getD]
  simp only [mtcaDummyRead, mtcaDummyReadLocked]
  constructor
  · rintro ⟨h₁, h₂, h₃, h₄, h₅, h₆⟩ hp nt
    rw [SumPasses, BitVec.add_comm] at hp
    have h₄' : ¬ count < sizeofDeviceRw := by omega
    simp [h₁, h₂, h₃, h₄', h₅, hr, hmode, hm, h₆, hp, note_mem_copyToUserFrom,
      -List.headD_eq_head?_getD]
  · intro hno
    cases h₁ : ℓ.signals.headD false with
    | true => simp [h₁, ERESTARTSYS, -List.headD_eq_head?_getD]
    | false =>
      cases h₂ : s (.flag .readError) with
      | true => simp [h₁, h₂, EFAULT, -List.headD_eq_head?_getD]
      | false =>
        cases h₃ : ℓ.signals.tail.headD false with
        | true => simp [h₁, h₂, h₃, ERESTARTSYS, -List.headD_eq_head?_getD]
        | false =>
          by_cases h₄ : count < sizeofDeviceRw
          · simp [h₁, h₂, h₃, h₄, EFAULT, -List.headD_eq_head?_getD]
          by_cases h₅ : ℓ.user.readLen buf sizeofDeviceRw = sizeofDeviceRw
          · by_cases h₆ : r.sizeRw = 0#32
            · simp [h₁, h₂, h₃, h₄, h₅, hr, hmode, hm, h₆, -List.headD_eq_head?_getD]
            · have hp : ¬ SumPasses r.offsetRw r.sizeRw := fun hp =>
                hno ⟨⟨h₁, h₂, h₃, Nat.le_of_not_lt h₄, h₅, h₆⟩, hp⟩
              rw [SumPasses, not_not, BitVec.add_comm] at hp
              simp [h₁, h₂, h₃, h₄, h₅, hr, hmode, hm, h₆, hp, EFAULT, -List.headD_eq_head?_getD]
          · have hleft := UserMem.readLeft_ne_zero h₅
            simp [h₁, h₂, h₃, h₄, hleft, EFAULT, -List.headD_eq_head?_getD]

/-- The run of a read by DMA. -/
theorem Entry.dmaRun (B : Board N) {e : Entry N} {d : Fin N} (hd : e.device = some d) {ℓ : Local}
    (s : Store) {offset size : U32} (hreq : e.dmaRequest ℓ = some (offset, size)) :
    DmaRun (B.dummyPrivateData d).dmaBar offset size (e.dmaChecks ℓ s offset size) e.isRead
      (trace (e.body B) ℓ s) (exec (e.body B) ℓ s).val := by
  cases e with
  | read e buf count =>
    cases hd
    simp only [Entry.dmaRequest] at hreq
    split at hreq
    · rename_i hmode
      cases hreq
      exact dmaRun_read B rfl hmode
    · cases hreq
  | ioctl e cmd arg =>
    cases hd
    simp only [Entry.dmaRequest] at hreq
    split at hreq
    · rename_i hcmd
      cases hreq
      subst hcmd
      exact dmaRun_ioctl B mtcaDummyConstants _ rfl (by decide) (by decide) (by decide)
        (by decide) rfl
    · cases hreq
  | pcieuniIoctl e cmd arg =>
    cases hd
    simp only [Entry.dmaRequest] at hreq
    split at hreq
    · rename_i hcmd
      cases hreq
      subst hcmd
      exact dmaRun_ioctl B pcieuniDummyConstants _ rfl (by decide) (by decide) (by decide)
        (by decide) rfl
    · cases hreq
  | _ => cases hreq

/-- **The bulk reads.**  For any state and any request for `size` bytes from
    `offset` on, the copy stays in bar 2, or the request is refused without
    reading it, unless the sum of the two wraps into the range allowed and the
    other checks pass. -/
theorem dma_read_inside_bar (B : Board N) {e : Entry N} {d : Fin N} (hd : e.device = some d)
    {ℓ : Local} (s : Store) {offset size : U32} (hreq : e.dmaRequest ℓ = some (offset, size)) :
    DmaSafe (B.dummyPrivateData d).dmaBar offset size e.isRead (trace (e.body B) ℓ s)
        (exec (e.body B) ℓ s).val ↔
      ¬ (e.dmaChecks ℓ s offset size ∧ SumPasses offset size ∧
        2 ^ 32 ≤ offset.toNat + size.toNat) :=
  (e.dmaRun B hd s hreq).safe_iff

/-- A process whose request at address 0 is to read `size` bytes from `offset`
    on. -/
def dmaLocal (offset size : U32) : Local :=
  ⟨.ofBytes (DeviceRw.bytes ⟨offset, 0#32, rwDma, 0#32, size, 0#32⟩), [], 0, none, []⟩

/-- The whole bar is read. -/
theorem dma_read_inside_bar_whole :
    DmaSafe (loadedBoard.dummyPrivateData (0 : Fin nrDevs)).dmaBar 0#32 4096#32 True
      (trace (Entry.body loadedBoard (.read 0 0 24)) (dmaLocal 0#32 4096#32)
        (readyStore (fun _ _ => 0#32) nrDevs))
      (exec (Entry.body loadedBoard (.read 0 0 24)) (dmaLocal 0#32 4096#32)
        (readyStore (fun _ _ => 0#32) nrDevs)).val := by
  have hreq : Entry.dmaRequest (dmaLocal 0#32 4096#32) (.read (0 : Fin nrDevs) 0 24) =
      some (0#32, 4096#32) := rfl
  exact (dma_read_inside_bar loadedBoard rfl _ hreq).2 fun h => absurd h.2.2 (by decide)

/-- Eight bytes from `0xFFFFFFFC` on: the sum is 4. -/
theorem dma_read_wraps :
    ¬ DmaSafe (loadedBoard.dummyPrivateData (0 : Fin nrDevs)).dmaBar 0xFFFFFFFC#32 8#32 True
      (trace (Entry.body loadedBoard (.read 0 0 24)) (dmaLocal 0xFFFFFFFC#32 8#32)
        (readyStore (fun _ _ => 0#32) nrDevs))
      (exec (Entry.body loadedBoard (.read 0 0 24)) (dmaLocal 0xFFFFFFFC#32 8#32)
        (readyStore (fun _ _ => 0#32) nrDevs)).val := by
  intro hsafe
  have hreq : Entry.dmaRequest (dmaLocal 0xFFFFFFFC#32 8#32) (.read (0 : Fin nrDevs) 0 24) =
      some (0xFFFFFFFC#32, 8#32) := rfl
  have hsum : SumPasses 0xFFFFFFFC#32 8#32 := by
    rw [SumPasses]
    decide
  exact (Entry.dmaRun loadedBoard rfl _ hreq).safe_iff.1 hsafe
    ⟨⟨rfl, rfl, rfl, by decide, rfl, by decide⟩, hsum, by decide⟩

end MtcaDummy

/-
  How much the struct interface delivers.

  `read_stays_in_buffer`: a read stays within the bytes asked for, except for a
  bulk read that is larger than the buffer.  `dma_reads_agree`: the bulk read
  and the ioctl that reads by DMA accept the same requests and deliver the same
  bytes, except for offsets in the middle of a word and for empty requests
  beyond the bar.
-/
import MtcaDummy.Driver.ProcFile
import MtcaDummy.Driver.Reads

namespace MtcaDummy

variable {N : ℕ} {B : Board N} {d : ℕ} {ℓ : Local} {s : Store}

/-! ## Reads whose lock attempts may be interrupted -/

/-- What the read checks before it takes the mutex of the device, and that it
    gets both mutexes. -/
structure ReadPasses (ℓ : Local) (s : Store) : Prop where
  control : ℓ.signals.getD 0 false = false
  clear : s (.flag .readError) = false
  device : ℓ.signals.getD 1 false = false

instance (ℓ : Local) (s : Store) : Decidable (ReadPasses ℓ s) :=
  decidable_of_iff (_ ∧ _ ∧ _) ⟨fun h => ⟨h.1, h.2.1, h.2.2⟩, fun h => ⟨h.1, h.2, h.3⟩⟩

theorem exec_read_passes (h : ReadPasses ℓ s) (buf count : ℕ) :
    exec (mtcaDummyRead B d buf count) ℓ s =
      let a := (B.seen d s).structReply (B.dummyPrivateData d).slotNr ℓ.user buf count
      ⟨(ℓ.user.answer buf a).1,
        { ℓ with user := (ℓ.user.answer buf a).2, signals := ℓ.signals.tail.tail }, s⟩ := by
  obtain ⟨h₀, hclear, h₁⟩ := h
  rw [← headD_eq_getD] at h₀
  rw [← getD_tail, ← headD_eq_getD] at h₁
  unfold mtcaDummyRead
  simp only [exec_bind, exec_lock, next_mk, exec_controlData, exec_unlock, h₀, hclear, h₁,
    Bool.false_eq_true, if_false, exec_readLocked]

/-- Otherwise it fails, and leaves the memory alone. -/
theorem exec_read_fails (h : ¬ ReadPasses ℓ s) (buf count : ℕ) :
    (exec (mtcaDummyRead B d buf count) ℓ s).val < 0 ∧
      (exec (mtcaDummyRead B d buf count) ℓ s).loc.user = ℓ.user := by
  unfold mtcaDummyRead
  simp only [exec_bind, exec_lock, next_mk, exec_ite, exec_controlData, exec_unlock, exec_pure]
  have hrestart : -ERESTARTSYS < 0 := by decide
  have hfault : -EFAULT < 0 := by decide
  cases h₀ : ℓ.signals.headD false with
  | true => exact ⟨hrestart, rfl⟩
  | false =>
    cases hclear : s (.flag .readError) with
    | true => exact ⟨hfault, rfl⟩
    | false =>
      cases h₁ : ℓ.signals.tail.headD false with
      | true => exact ⟨hrestart, rfl⟩
      | false =>
        rw [headD_eq_getD] at h₀
        rw [headD_eq_getD, getD_tail] at h₁
        exact absurd ⟨h₀, hclear, h₁⟩ h

/-! ## The buffer of the caller -/

/-- The byte at `a` is `v` instead. -/
def Local.poke (ℓ : Local) (a : ℕ) (v : Byte) : Local :=
  { ℓ with user := ℓ.user.set a 1 fun _ => v }

/-- The call does not write the byte at `a`: whatever it was before, it is
    after the call. -/
def Spares (x : KM ℤ) (ℓ : Local) (s : Store) (a : ℕ) : Prop :=
  ∀ v, (exec x (ℓ.poke a v) s).loc.user.byte a = v

/-- The read returns at most `count`, and writes no byte of the buffer from
    index `count` on. -/
structure StaysInBuffer (B : Board N) (d buf count : ℕ) (ℓ : Local) (s : Store) : Prop where
  le : 0 ≤ (exec (mtcaDummyRead B d buf count) ℓ s).val →
    (exec (mtcaDummyRead B d buf count) ℓ s).val ≤ count
  spares : ∀ j, count ≤ j → Spares (mtcaDummyRead B d buf count) ℓ s (buf + j)

/-- The request is a bulk read in range, larger than the buffer, and the memory
    can be written beyond the buffer, where `access_ok` accepts the whole range
    of the copy. -/
structure Overruns (buf count : ℕ) (ℓ : Local) (s : Store) : Prop where
  passes : ReadPasses ℓ s
  whole : sizeofDeviceRw ≤ count
  readable : ℓ.user.Readable buf sizeofDeviceRw
  mode : (DeviceRw.ofBytes (ℓ.user.fetch buf sizeofDeviceRw)).modeRw = rwDma
  range : ¬ (DeviceRw.ofBytes (ℓ.user.fetch buf sizeofDeviceRw)).sizeRw +
    (DeviceRw.ofBytes (ℓ.user.fetch buf sizeofDeviceRw)).offsetRw > BitVec.ofNat 32 dmaSize
  larger : count < (DeviceRw.ofBytes (ℓ.user.fetch buf sizeofDeviceRw)).sizeRw.toNat
  accessOk : ℓ.user.accessOk buf
    (DeviceRw.ofBytes (ℓ.user.fetch buf sizeofDeviceRw)).sizeRw.toNat = true
  writable : ℓ.user.Writable buf (count + 1)

/-- An answer returns an error, or the number of bytes it copies. -/
theorem structAnswer_val (b : Bars) (slotNr : U32) (r : DeviceRw) :
    (b.structAnswer slotNr r).size = 0 ∧ (b.structAnswer slotNr r).val ≤ 0 ∨
      (b.structAnswer slotNr r).val = (b.structAnswer slotNr r).size := by
  unfold Bars.structAnswer
  split_ifs
  · exact .inr rfl
  · split
    · exact .inl ⟨rfl, by decide⟩
    · split_ifs
      · exact .inl ⟨rfl, by decide⟩
      · exact .inr rfl
  · exact .inl ⟨rfl, by decide⟩
  · exact .inl ⟨rfl, by decide⟩
  · exact .inr rfl
  · exact .inl ⟨rfl, by decide⟩

/-- The answer to a bulk read. -/
theorem structAnswer_bulk (b : Bars) (slotNr : U32) {r : DeviceRw} (hmode : r.modeRw = rwDma) :
    b.structAnswer slotNr r =
      if r.sizeRw = 0#32 then .none 0
      else if r.sizeRw + r.offsetRw > BitVec.ofNat 32 dmaSize then .none (-EFAULT)
      else ⟨r.sizeRw.toNat, r.sizeRw.toNat, wordBytes b.dma (r.offsetRw.toNat / 4)⟩ := by
  have hne : rwDma ≠ rwInfo ∧ rwDma ≠ rwD32 := by decide
  rw [Bars.structAnswer, hmode, if_neg hne.1, if_neg hne.2, if_pos rfl]

/-- Only a bulk read copies more than the request. -/
theorem structAnswer_size (b : Bars) (slotNr : U32) (r : DeviceRw) {count : ℕ}
    (hcount : sizeofDeviceRw ≤ count) : count < (b.structAnswer slotNr r).size ↔
      r.modeRw = rwDma ∧ ¬ r.sizeRw + r.offsetRw > BitVec.ofNat 32 dmaSize ∧
        count < r.sizeRw.toNat := by
  unfold Bars.structAnswer
  have hsmall : ∀ n ≤ sizeofDeviceRw, ¬ count < n := fun n hn => by omega
  have hzero : ∀ val, ¬ count < (Answer.none val).size := fun _ => Nat.not_lt_zero count
  have hne : rwInfo ≠ rwDma ∧ rwD32 ≠ rwDma := by decide
  by_cases hinfo : r.modeRw = rwInfo
  · rw [if_pos hinfo, hinfo]
    exact iff_of_false (hsmall _ (Nat.le_refl _)) fun h => hne.1 h.1
  by_cases hword : r.modeRw = rwD32
  · rw [if_neg hinfo, if_pos hword, hword]
    refine iff_of_false ?_ fun h => hne.2 h.1
    split
    · exact hzero _
    · split_ifs
      · exact hzero _
      · exact hsmall _ (Nat.le_refl _)
  rw [if_neg hinfo, if_neg hword]
  by_cases hdma : r.modeRw = rwDma
  · rw [if_pos hdma]
    by_cases hsize : r.sizeRw = 0#32
    · rw [if_pos hsize]
      exact iff_of_false (hzero 0) fun h => by simp [hsize] at h
    rw [if_neg hsize]
    by_cases hsum : r.sizeRw + r.offsetRw > BitVec.ofNat 32 dmaSize
    · rw [if_pos hsum]
      exact iff_of_false (hzero _) fun h => h.2.1 hsum
    · rw [if_neg hsum]
      exact ⟨fun h => ⟨hdma, hsum, h⟩, fun h => h.2.2⟩
  · rw [if_neg hdma]
    exact iff_of_false (hzero _) fun h => hdma h.1

/-- The copy of the request does not depend on the bytes behind it. -/
theorem fetch_poke {a buf : ℕ} (v : Byte) (h : buf + sizeofDeviceRw ≤ a) :
    DeviceRw.ofBytes ((ℓ.poke a v).user.fetch buf sizeofDeviceRw) =
      DeviceRw.ofBytes (ℓ.user.fetch buf sizeofDeviceRw) := by
  refine DeviceRw.ofBytes_congr fun j hj => ?_
  simp only [Local.poke, UserMem.fetch, UserMem.set_readLen]
  rw [UserMem.set_byte_of_lt (by omega)]
  rfl

theorem poke_byte (a : ℕ) (v : Byte) : (ℓ.poke a v).user.byte a = v := by
  simp [Local.poke, UserMem.set_byte]

theorem ReadPasses.poke {a : ℕ} {v : Byte} : ReadPasses (ℓ.poke a v) s ↔ ReadPasses ℓ s :=
  ⟨fun h => ⟨h.1, h.2, h.3⟩, fun h => ⟨h.1, h.2, h.3⟩⟩

/-- The bytes of the buffer that a read writes are those of its answer. -/
theorem spares_iff {buf count j : ℕ} (hp : ReadPasses ℓ s) (hcount : sizeofDeviceRw ≤ count)
    (hread : ℓ.user.readLen buf sizeofDeviceRw = sizeofDeviceRw) (hj : count ≤ j) :
    Spares (mtcaDummyRead B d buf count) ℓ s (buf + j) ↔
      ¬ j < ℓ.user.writeLen buf ((B.seen d s).structAnswer (B.dummyPrivateData d).slotNr
        (DeviceRw.ofBytes (ℓ.user.fetch buf sizeofDeviceRw))).size := by
  have hbyte : ∀ v, (exec (mtcaDummyRead B d buf count) (ℓ.poke (buf + j) v) s).loc.user.byte
      (buf + j) = if j < ℓ.user.writeLen buf ((B.seen d s).structAnswer
        (B.dummyPrivateData d).slotNr (DeviceRw.ofBytes (ℓ.user.fetch buf sizeofDeviceRw))).size
      then ((B.seen d s).structAnswer (B.dummyPrivateData d).slotNr
        (DeviceRw.ofBytes (ℓ.user.fetch buf sizeofDeviceRw))).src j else v := by
    intro v
    rw [exec_read_passes (ReadPasses.poke.2 hp)]
    have hreadable : (ℓ.poke (buf + j) v).user.readLen = ℓ.user.readLen := rfl
    have hwritable : (ℓ.poke (buf + j) v).user.writeLen = ℓ.user.writeLen := rfl
    simp only [Bars.structReply, hreadable, if_pos (And.intro hcount hread),
      fetch_poke v (show buf + sizeofDeviceRw ≤ buf + j by omega), UserMem.answer, hwritable]
    rw [UserMem.set_byte, poke_byte, Nat.add_sub_cancel_left]
    exact if_congr (by omega) rfl rfl
  constructor
  · intro hspares hlt
    -- a byte that differs from what is written
    have hone : ∀ x : Byte, x + 1#8 ≠ x := by decide
    have := hspares (((B.seen d s).structAnswer (B.dummyPrivateData d).slotNr
      (DeviceRw.ofBytes (ℓ.user.fetch buf sizeofDeviceRw))).src j + 1#8)
    rw [hbyte, if_pos hlt] at this
    exact hone _ this.symm
  · intro hno v
    rw [hbyte, if_neg hno]

/-- The answer to a bulk read larger than the buffer is copied beyond its end. -/
theorem overruns_iff {buf count : ℕ} (hp : ReadPasses ℓ s) (hcount : sizeofDeviceRw ≤ count)
    (hread : ℓ.user.readLen buf sizeofDeviceRw = sizeofDeviceRw) : Overruns buf count ℓ s ↔
      count < ℓ.user.writeLen buf ((B.seen d s).structAnswer (B.dummyPrivateData d).slotNr
        (DeviceRw.ofBytes (ℓ.user.fetch buf sizeofDeviceRw))).size := by
  have hsize := structAnswer_size (B.seen d s) (B.dummyPrivateData d).slotNr
    (DeviceRw.ofBytes (ℓ.user.fetch buf sizeofDeviceRw)) hcount
  have hne : ∀ {x : U32}, count < x.toNat → x ≠ 0#32 := by
    rintro x hlt rfl
    exact Nat.not_lt_zero count hlt
  rw [UserMem.lt_writeLen_iff]
  constructor
  · intro h
    rw [structAnswer_bulk _ _ h.mode, if_neg (hne h.larger), if_neg h.range]
    exact ⟨h.accessOk, h.larger, h.writable⟩
  · rintro ⟨hok, hlt, hw⟩
    obtain ⟨hmode, hrange, hlarger⟩ := hsize.1 hlt
    rw [structAnswer_bulk _ _ hmode, if_neg (hne hlarger), if_neg hrange] at hok
    exact ⟨hp, hcount, UserMem.readLen_eq_iff.1 hread, hmode, hrange, hlarger, hok, hw⟩

/-- A bulk read larger than the buffer overruns it. -/
theorem Overruns.not_staysInBuffer {buf count : ℕ} (h : Overruns buf count ℓ s) :
    ¬ StaysInBuffer B d buf count ℓ s := by
  have hread := UserMem.readLen_eq_iff.2 h.readable
  intro hstays
  exact (spares_iff h.passes h.whole hread (Nat.le_refl count)).1
    (hstays.spares count (Nat.le_refl count)) ((overruns_iff h.passes h.whole hread).1 h)

/-- **The struct read stays within the buffer of its caller**, unless it is a
    bulk read larger than the buffer. -/
theorem read_stays_in_buffer {buf count : ℕ} :
    StaysInBuffer B d buf count ℓ s ↔ ¬ Overruns buf count ℓ s := by
  refine ⟨fun h hover => hover.not_staysInBuffer h, fun hno => ?_⟩
  have hfault : -EFAULT < 0 := by decide
  by_cases hp : ReadPasses ℓ s
  swap
  · refine ⟨fun h => absurd h (not_le.2 (exec_read_fails hp buf count).1), fun j _ v => ?_⟩
    rw [(exec_read_fails (fun h => hp (ReadPasses.poke.1 h)) buf count).2, poke_byte]
  have hrun := exec_read_passes (B := B) (d := d) hp buf count
  by_cases hok : sizeofDeviceRw ≤ count ∧ ℓ.user.readLen buf sizeofDeviceRw = sizeofDeviceRw
  swap
  · -- no request
    refine ⟨fun h => ?_, fun j _ v => ?_⟩
    · rw [hrun] at h
      simp only [Bars.structReply, if_neg hok, UserMem.answer_none] at h
      exact absurd h (not_le.2 hfault)
    · rw [exec_read_passes (ReadPasses.poke.2 hp)]
      have hpoked : ¬ (sizeofDeviceRw ≤ count ∧
        (ℓ.poke (buf + j) v).user.readLen buf sizeofDeviceRw = sizeofDeviceRw) := hok
      simp only [Bars.structReply, if_neg hpoked, UserMem.answer_none]
      exact poke_byte _ _
  obtain ⟨hcount, hread⟩ := hok
  have hval := structAnswer_val (B.seen d s) (B.dummyPrivateData d).slotNr
    (DeviceRw.ofBytes (ℓ.user.fetch buf sizeofDeviceRw))
  have hspares : ∀ j, count ≤ j → (Spares (mtcaDummyRead B d buf count) ℓ s (buf + j) ↔ _) :=
    fun j hj => spares_iff hp hcount hread hj
  rw [overruns_iff (B := B) (d := d) hp hcount hread] at hno
  simp only [Bars.structReply, if_pos (And.intro hcount hread), UserMem.answer] at hrun
  generalize (B.seen d s).structAnswer (B.dummyPrivateData d).slotNr
    (DeviceRw.ofBytes (ℓ.user.fetch buf sizeofDeviceRw)) = a at *
  refine ⟨fun h => ?_, fun j hj => (hspares j hj).2 (by omega)⟩
  rw [hrun] at h ⊢
  dsimp only at h ⊢
  split_ifs at h ⊢ with hwhole
  · rcases hval with hval | hval <;> omega
  · exact absurd h (not_le.2 hfault)

/-- A process whose request at address 0 is a bulk read of `size` bytes from
    `offset` on. -/
def bulkLocal (offset size : U32) : Local :=
  { user := UserMem.ofBytes (DeviceRw.bytes ⟨offset, 0#32, rwDma, 0#32, size, 0#32⟩) }

/-- 32 bytes are read into a buffer of 24. -/
theorem bulk_read_overruns :
    ¬ StaysInBuffer loadedBoard 0 0 24 (bulkLocal 0#32 32#32) clearFlags := by
  refine Overruns.not_staysInBuffer ?_
  have hr : DeviceRw.ofBytes ((bulkLocal 0#32 32#32).user.fetch 0 sizeofDeviceRw) =
      ⟨0#32, 0#32, rwDma, 0#32, 32#32, 0#32⟩ := (UserMem.ofBytes_request _).ofBytes
  refine ⟨⟨rfl, rfl, rfl⟩, by decide, fun _ _ => rfl, by rw [hr], ?_, ?_, rfl, fun _ _ => rfl⟩
  · rw [hr]
    decide
  · rw [hr]
    decide

/-! ## The two ways to read by DMA -/

/-- The memory holds the request of an ioctl for `size` bytes from `offset`
    on. -/
structure UserMem.DmaRequest (u : UserMem) (arg : ℕ) (offset size : U32) : Prop where
  accessOk : u.accessOk arg 4 = true
  readable : u.Readable arg sizeofDeviceIoctrlDma
  offset : wordAt (fun j => u.byte (arg + j)) 0 = offset
  size : wordAt (fun j => u.byte (arg + j)) 4 = size

/-- The memory `u'` is `u` with the bytes of bar 2 from `offset` on at `dst`. -/
def Delivered (b : Bars) (dst : ℕ) (offset size : U32) (u u' : UserMem) : Prop :=
  ∀ x, u'.byte x = if dst ≤ x ∧ x < dst + size.toNat then b.byte .dma (offset.toNat + (x - dst))
    else u.byte x

/-- The bulk read and the ioctl accept the same requests, and deliver the bytes
    asked for. -/
structure DmaReadsAgree (b : Bars) (dst dst' : ℕ) (offset size : U32) (u u' : UserMem)
    (o o' : Outcome ℤ) : Prop where
  accept : 0 ≤ o.val ↔ 0 ≤ o'.val
  deliver : 0 ≤ o.val → 0 ≤ o'.val →
    Delivered b dst offset size u o.loc.user ∧ Delivered b dst' offset size u' o'.loc.user

/-- The request is aligned, and either in range, or not and not empty. -/
def DmaRegular (offset size : U32) : Prop :=
  (offset.toNat + size.toNat ≤ dmaSize ∧ offset.toNat % 4 = 0) ∨
    (dmaSize < offset.toNat + size.toNat ∧ size ≠ 0#32)

/-- The sum of the check is exact if it does not wrap. -/
theorem sum_le_iff {a c : U32} (h : a.toNat + c.toNat < 2 ^ 32) :
    ¬ a + c > BitVec.ofNat 32 dmaSize ↔ a.toNat + c.toNat ≤ dmaSize := by
  have hdma : dmaSize = 4096 := rfl
  rw [gt_iff_lt, BitVec.lt_def, BitVec.toNat_add, BitVec.toNat_ofNat, Nat.mod_eq_of_lt h, hdma,
    not_lt]

/-- The bytes of an aligned range. -/
theorem delivered_of_aligned {b : Bars} {dst : ℕ} {offset size : U32} {u : UserMem}
    (h : offset.toNat % 4 = 0) : Delivered b dst offset size u
      (u.set dst size.toNat (wordBytes b.dma (offset.toNat / 4))) := by
  intro x
  rw [UserMem.set_byte]
  by_cases hx : dst ≤ x ∧ x < dst + size.toNat
  · rw [if_pos hx, if_pos hx]
    exact wordBytes_aligned b .dma h (x - dst)
  · rw [if_neg hx, if_neg hx]

/-- What the ioctl copies from the user. -/
theorem UserMem.DmaRequest.ofBytes {u : UserMem} {arg : ℕ} {offset size : U32}
    (h : u.DmaRequest arg offset size) :
    (DeviceIoctrlDma.ofBytes (u.fetch arg sizeofDeviceIoctrlDma)).dmaOffset = offset ∧
      (DeviceIoctrlDma.ofBytes (u.fetch arg sizeofDeviceIoctrlDma)).dmaSize = size := by
  have hs : sizeofDeviceIoctrlDma = 24 := rfl
  have hword : ∀ o, o + 4 ≤ 24 → wordAt (u.fetch arg sizeofDeviceIoctrlDma) o =
      wordAt (fun j => u.byte (arg + j)) o := fun o ho =>
    wordAt_congr fun j hj => UserMem.fetch_of_readable h.readable (by omega)
  exact ⟨(hword 0 (by decide)).trans h.offset, (hword 4 (by decide)).trans h.size⟩

section
variable {offset size : U32} {b : Bars} (hsum : offset.toNat + size.toNat < 2 ^ 32) {u : UserMem}
  {dst : ℕ} (hw : u.Writable dst size.toNat)
include hsum hw

/-- The answer to a bulk read. -/
theorem answer_bulk {slotNr : U32} {r : DeviceRw} (hmode : r.modeRw = rwDma)
    (hoffset : r.offsetRw = offset) (hsize : r.sizeRw = size) :
    u.answer dst (b.structAnswer slotNr r) =
      if size = 0#32 ∨ offset.toNat + size.toNat ≤ dmaSize then
        ((size.toNat : ℤ), u.set dst size.toNat (wordBytes b.dma (offset.toNat / 4)))
      else (-EFAULT, u) := by
  subst hoffset hsize
  rw [structAnswer_bulk _ _ hmode]
  by_cases hzero : r.sizeRw = 0#32
  · rw [if_pos hzero, if_pos (.inl hzero), hzero, UserMem.answer_none, BitVec.toNat_zero,
      UserMem.set_zero]
    rfl
  have hle := sum_le_iff (a := r.sizeRw) (c := r.offsetRw) (by omega)
  rw [Nat.add_comm] at hle
  rw [if_neg hzero]
  by_cases h : r.offsetRw.toNat + r.sizeRw.toNat ≤ dmaSize
  · rw [if_neg (hle.2 h), if_pos (.inr h)]
    exact UserMem.answer_of_writable hw
  · rw [if_pos (not_not.1 fun hn => h (hle.1 hn)), if_neg (not_or.2 ⟨hzero, h⟩),
      UserMem.answer_none]

/-- The answer of the ioctl. -/
theorem answer_ioctlDma (h : u.DmaRequest dst offset size) :
    u.answer dst (b.dmaReply u dst) =
      if offset.toNat + size.toNat ≤ dmaSize ∧ offset.toNat % 4 = 0 then
        ((0 : ℤ), u.set dst size.toNat (wordBytes b.dma (offset.toNat / 4)))
      else (-EFAULT, u) := by
  have hle := sum_le_iff (a := offset) (c := size) hsum
  rw [Bars.dmaReply, if_pos h.accessOk]
  unfold Bars.dmaAnswer
  dsimp only
  rw [h.ofBytes.1, h.ofBytes.2]
  by_cases hok : offset.toNat + size.toNat ≤ dmaSize ∧ offset.toNat % 4 = 0
  · rw [if_pos ⟨UserMem.readLen_eq_iff.2 h.readable, hle.2 hok.1, hok.2⟩, if_pos hok]
    exact UserMem.answer_of_writable hw
  · rw [if_neg fun h' => hok ⟨hle.1 h'.2.1, h'.2.2⟩, if_neg hok, UserMem.answer_none]

end

/-- **A bulk read.** -/
theorem exec_bulkRead {r : DeviceRw} {buf count : ℕ} (hr : ℓ.user.Request buf r)
    (hmode : r.modeRw = rwDma) (hcount : sizeofDeviceRw ≤ count)
    (hw : ℓ.user.Writable buf r.sizeRw.toNat) (hℓ : ℓ.signals = [])
    (hclear : s (.flag .readError) = false) (hsum : r.offsetRw.toNat + r.sizeRw.toNat < 2 ^ 32) :
    exec (mtcaDummyRead B d buf count) ℓ s =
      if r.sizeRw = 0#32 ∨ r.offsetRw.toNat + r.sizeRw.toNat ≤ dmaSize then
        ⟨r.sizeRw.toNat,
          { ℓ with user :=
              ℓ.user.set buf r.sizeRw.toNat (wordBytes (B.bars d s).dma (r.offsetRw.toNat / 4)) },
          s⟩
      else ⟨-EFAULT, ℓ, s⟩ := by
  have hrun := exec_read (B := B) (d := d) (s := s) hℓ buf count
  rw [hclear, if_neg Bool.false_ne_true, Bars.structReply_of_request _ _ hr hcount] at hrun
  dsimp only at hrun
  rw [answer_structAnswer_seen fun _ _ => hsum, answer_bulk hsum hw hmode rfl rfl] at hrun
  rw [hrun]
  split <;> rfl

/-- **A read by DMA through an ioctl.** -/
theorem exec_ioctlReadDma {c : IoctlConstants} {cmd : U32} (hc : c.ReadsDma cmd) {arg : ℕ}
    {offset size : U32} (hr : ℓ.user.DmaRequest arg offset size)
    (hw : ℓ.user.Writable arg size.toNat) (hℓ : ℓ.signals = [])
    (hsum : offset.toNat + size.toNat < 2 ^ 32) :
    exec (dummyIoctl B c d cmd arg) ℓ s =
      if offset.toNat + size.toNat ≤ dmaSize ∧ offset.toNat % 4 = 0 then
        ⟨0,
          { ℓ with user :=
              ℓ.user.set arg size.toNat (wordBytes (B.bars d s).dma (offset.toNat / 4)) },
          s⟩
      else ⟨-EFAULT, ℓ, s⟩ := by
  have hin : ∀ r, r = DeviceIoctrlDma.ofBytes (ℓ.user.fetch arg sizeofDeviceIoctrlDma) →
      SumPasses r.dmaOffset r.dmaSize → r.dmaOffset.toNat + r.dmaSize.toNat < 2 ^ 32 := by
    rintro r rfl -
    rw [hr.ofBytes.1, hr.ofBytes.2]
    exact hsum
  have hrun := exec_ioctlDma (B := B) (d := d) (s := s) hc hℓ arg
  dsimp only at hrun
  rw [answer_dmaReply_seen hin, answer_ioctlDma hsum hw hr] at hrun
  rw [hrun]
  split <;> rfl

/-- **The bulk read and the ioctl agree and deliver what was asked for**, for
    exactly the regular requests. -/
theorem dma_reads_agree {ℓ' : Local} {r : DeviceRw} {buf count arg : ℕ}
    (hr : ℓ.user.Request buf r) (hmode : r.modeRw = rwDma) (hcount : sizeofDeviceRw ≤ count)
    (hw : ℓ.user.Writable buf r.sizeRw.toNat) (hℓ : ℓ.signals = [])
    (hr' : ℓ'.user.DmaRequest arg r.offsetRw r.sizeRw) (hw' : ℓ'.user.Writable arg r.sizeRw.toNat)
    (hℓ' : ℓ'.signals = []) (hclear : s (.flag .readError) = false)
    (hsum : r.offsetRw.toNat + r.sizeRw.toNat < 2 ^ 32) :
    DmaReadsAgree (B.bars d s) buf arg r.offsetRw r.sizeRw ℓ.user ℓ'.user
        (exec (mtcaDummyRead B d buf count) ℓ s)
        (exec (mtcaDummyIoctl B d pciedevReadDma arg) ℓ' s) ↔
      DmaRegular r.offsetRw r.sizeRw := by
  have hdma : dmaSize = 4096 := rfl
  have hfault : ¬ 0 ≤ -EFAULT := by decide
  rw [exec_bulkRead hr hmode hcount hw hℓ hclear hsum, mtcaDummyIoctl,
    exec_ioctlReadDma mtcaDummyConstants_readsDma hr' hw' hℓ' hsum]
  generalize r.offsetRw = offset at *
  generalize r.sizeRw = size at *
  have hsize : size = 0#32 ↔ size.toNat = 0 := by
    constructor
    · rintro rfl
      rfl
    · exact fun h => BitVec.eq_of_toNat_eq h
  by_cases hok : offset.toNat + size.toNat ≤ dmaSize ∧ offset.toNat % 4 = 0
  · rw [if_pos (.inr hok.1), if_pos hok]
    refine iff_of_true ⟨iff_of_true (by simp) (by simp), fun _ _ => ?_⟩ (.inl hok)
    exact ⟨delivered_of_aligned hok.2, delivered_of_aligned hok.2⟩
  rw [if_neg hok]
  by_cases hacc : size = 0#32 ∨ offset.toNat + size.toNat ≤ dmaSize
  · -- only the bulk read accepts
    rw [if_pos hacc]
    refine iff_of_false (fun h => hfault (h.accept.1 (by simp))) fun h => ?_
    rcases h with h | h
    · exact hok h
    · rcases hacc with hacc | hacc
      · exact h.2 hacc
      · omega
  · rw [if_neg hacc]
    rw [not_or, not_le] at hacc
    exact iff_of_true ⟨iff_of_false hfault hfault, fun h => absurd h hfault⟩ (.inr ⟨hacc.2, hacc.1⟩)

/-- A process whose request at address 0 is an ioctl for `size` bytes from
    `offset` on. -/
def ioctlLocal (offset size : U32) : Local :=
  { user := UserMem.ofBytes (bytesOf [offset, size, 0#32, 0#32, 0#32, 0#32]) }

theorem ioctlLocal_dmaRequest (offset size : U32) :
    (ioctlLocal offset size).user.DmaRequest 0 offset size := by
  have hbyte : (fun j => (ioctlLocal offset size).user.byte (0 + j)) =
      bytesOf [offset, size, 0#32, 0#32, 0#32, 0#32] := by
    funext j
    exact congrArg _ (Nat.zero_add j)
  refine ⟨rfl, fun _ _ => rfl, ?_, ?_⟩
  · rw [hbyte]
    exact wordAt_bytesOf _ 0
  · rw [hbyte]
    exact wordAt_bytesOf _ 1

/-- The last word of the bar. -/
theorem dma_reads_agree_last :
    DmaReadsAgree (loadedBoard.bars 0 clearFlags) 0 0 4092#32 4#32 (bulkLocal 4092#32 4#32).user
      (ioctlLocal 4092#32 4#32).user
      (exec (mtcaDummyRead loadedBoard 0 0 24) (bulkLocal 4092#32 4#32) clearFlags)
      (exec (mtcaDummyIoctl loadedBoard 0 pciedevReadDma 0) (ioctlLocal 4092#32 4#32) clearFlags) :=
  (dma_reads_agree (r := ⟨4092#32, 0#32, rwDma, 0#32, 4#32, 0#32⟩) (UserMem.ofBytes_request _) rfl
    (by decide) (fun _ _ => rfl) rfl (ioctlLocal_dmaRequest _ _) (fun _ _ => rfl) rfl rfl
    (by decide)).2 (.inl ⟨by decide, by decide⟩)

/-- Four bytes from offset 2 on: the bulk read delivers those from offset 0
    on, the ioctl refuses. -/
theorem dma_reads_differ :
    ¬ DmaReadsAgree (loadedBoard.bars 0 clearFlags) 0 0 2#32 4#32 (bulkLocal 2#32 4#32).user
      (ioctlLocal 2#32 4#32).user
      (exec (mtcaDummyRead loadedBoard 0 0 24) (bulkLocal 2#32 4#32) clearFlags)
      (exec (mtcaDummyIoctl loadedBoard 0 pciedevReadDma 0) (ioctlLocal 2#32 4#32) clearFlags) := by
  intro h
  have hbulk : exec (mtcaDummyRead loadedBoard 0 0 24) (bulkLocal 2#32 4#32) clearFlags = _ :=
    exec_bulkRead (UserMem.ofBytes_request ⟨2#32, 0#32, rwDma, 0#32, 4#32, 0#32⟩)
      rfl (by decide) (fun _ _ => rfl) rfl rfl (by decide)
  have hioctl := exec_ioctlReadDma (B := loadedBoard) (d := 0) (s := clearFlags)
    mtcaDummyConstants_readsDma (ioctlLocal_dmaRequest 2#32 4#32) (fun _ _ => rfl) rfl (by decide)
  have haccept := h.accept
  rw [hbulk, mtcaDummyIoctl, hioctl, if_pos (.inr (by decide)), if_neg (by decide)] at haccept
  exact absurd (haccept.1 (by decide)) (by decide)

end MtcaDummy

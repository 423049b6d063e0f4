/-
  Transfers through the interface without the request struct.

  `no_struct_read`: which reads are refused, which meet the broken register,
  and what the others deliver.  `transfer_splits`: a transfer is the same as
  its first part followed by its second part, also where it reaches the end of
  the bar.
-/
import MtcaDummy.Driver.Discipline
import MtcaDummy.Driver.BulkReads

namespace MtcaDummy

/-! ## What a read does -/

/-- The sizes of the bars with memory, in bytes, by their number. -/
def barBytes (n : ℕ) : ℕ := if n = 0 then 128 else 4096

/-- The transfer of `count` bytes at offset `o` of bar `n` is refused. -/
def Refused (n o count : ℕ) : Prop :=
  o % 4 ≠ 0 ∨ count % 4 ≠ 0 ∨ (n ≠ 0 ∧ n ≠ 2) ∨ barBytes n < o

instance (n o count : ℕ) : Decidable (Refused n o count) :=
  inferInstanceAs (Decidable (_ ∨ _ ∨ _ ∨ _))

/-- The bytes from the offset on that are in the bar. -/
def clamped (n o count : ℕ) : ℕ := min count (barBytes n - o)

/-- They contain the broken register. -/
def MeetsBroken (n o count : ℕ) : Prop := n = 0 ∧ o ≤ 0x48 ∧ 0x48 < o + clamped n o count

instance (n o count : ℕ) : Decidable (MeetsBroken n o count) :=
  inferInstanceAs (Decidable (_ ∧ _ ∧ _))

theorem barBytes_number (bar : Bar) : barBytes bar.number.toNat = bar.size := by
  cases bar <;> rfl

/-- The parts of a packed position. -/
theorem packed_parts {n o : ℕ} (hn : n < 8) (ho : o < 2 ^ 60) :
    (n * 2 ^ 60 + o) / 2 ^ 60 % 8 = n ∧ (n * 2 ^ 60 + o) % 2 ^ 60 = o ∧
      (n * 2 ^ 60 + o) % 4 = o % 4 := by
  omega

/-- A transfer that is accepted has a bar. -/
theorem exists_bar_of_not_refused {n o count : ℕ} (h : ¬ Refused n o count) :
    ∃ bar : Bar, n = bar.number.toNat := by
  simp only [Refused, not_or, not_and_or, not_not] at h
  rcases h.2.2.1 with rfl | rfl
  · exact ⟨.system, rfl⟩
  · exact ⟨.dma, rfl⟩

theorem span_refused {n o count : ℕ} (hn : n < 8) (ho : o < 2 ^ 60) (h : Refused n o count) :
    span count (n * 2 ^ 60 + o) = .error (-EFAULT) := by
  obtain ⟨hdiv, hmod, hmod4⟩ := packed_parts hn ho
  unfold span
  rw [hdiv, hmod, hmod4]
  by_cases halign : o % 4 ≠ 0 ∨ count % 4 ≠ 0
  · rw [if_pos halign]
  rw [if_neg halign]
  cases hbar : Bar.ofNumber (BitVec.ofNat 32 n) with
  | none => rfl
  | some bar =>
    have hnum : n = bar.number.toNat := by
      rw [← Bar.ofNumber_eq_some hbar, BitVec.toNat_ofNat, Nat.mod_eq_of_lt (by omega)]
    have hsize := barBytes_number bar
    rw [← hnum] at hsize
    have hbars : n = 0 ∨ n = 2 := by
      rw [hnum]
      cases bar <;> decide
    refine if_pos ?_
    unfold Refused at h
    omega

/-- The words of a transfer that is accepted. -/
theorem span_packed {bar : Bar} {o count : ℕ} (ho : o < 2 ^ 60)
    (h : ¬ Refused bar.number.toNat o count) :
    span count (bar.number.toNat * 2 ^ 60 + o) =
      .ok ⟨bar, o / 4, clamped bar.number.toNat o count / 4⟩ := by
  have hn : bar.number.toNat < 8 := by cases bar <;> decide
  obtain ⟨hdiv, hmod, hmod4⟩ := packed_parts hn ho
  have h4 : bar.size % 4 = 0 := by cases bar <;> rfl
  unfold span clamped
  unfold Refused at h
  rw [barBytes_number] at h ⊢
  rw [hdiv, hmod, hmod4, if_neg (by omega), BitVec.ofNat_toNat, BitVec.setWidth_eq,
    Bar.ofNumber_number]
  dsimp only
  rw [if_neg (by omega)]
  congr 2
  omega

/-- The bytes in the bar are whole words. -/
theorem clamped_mod {bar : Bar} {o count : ℕ} (h : ¬ Refused bar.number.toNat o count) :
    4 * (clamped bar.number.toNat o count / 4) = clamped bar.number.toNat o count ∧ o % 4 = 0 := by
  have h4 : bar.size % 4 = 0 := by cases bar <;> rfl
  unfold Refused at h
  unfold clamped
  rw [barBytes_number] at h ⊢
  omega

section
variable {N : ℕ} {B : Board N} {d : ℕ} {ℓ : Local} {s : Store}

/-- The outcome of a read of `count` bytes at offset `o` of bar `n` of device
    `d`, from the local state `ℓ` and the store `s`. -/
structure NoStructRead (B : Board N) (d n o buf count : ℕ) (ℓ : Local) (s : Store)
    (out : Outcome ℤ) : Prop where
  refused : out.val = -EFAULT ↔ Refused n o count
  unchanged : Refused n o count → out.loc = ℓ
  broken : ¬ Refused n o count → MeetsBroken n o count → out.val = - EIO
  /-- What is in the bar is delivered, nothing else is written, and the
      position is that behind it. -/
  delivered : ∀ bar : Bar, n = bar.number.toNat → ¬ Refused n o count → ¬ MeetsBroken n o count →
    out.val = clamped n o count ∧
      (∀ x, out.loc.user.byte x =
        if buf ≤ x ∧ x < buf + clamped n o count then (B.bars d s).byte bar (o + (x - buf))
        else ℓ.user.byte x) ∧
      out.loc.fPos = ℓ.fPos + clamped n o count
  store : out.store = s

/-- The instructions of a call that name a word name one inside its bar. -/
def WordsInside (B : Board N) (d : ℕ) (is : List KInstr) : Prop :=
  ∀ i ∈ is, ∀ p w, i.Touches (.word p w) →
    ∃ bar : Bar, p = bar.base (B.dummyPrivateData d) ∧ w < bar.size / 4

/-- **What a read delivers.** -/
theorem no_struct_read (hd : d < N) {n o buf count : ℕ} (hn : n < 8) (ho : o < 2 ^ 60)
    (hpos : ℓ.fPos = n * 2 ^ 60 + o) (hcount : count ≤ maxRwCount)
    (hclear : s (.flag .readError) = false) (huser : ℓ.user.Writable buf count)
    (hℓ : ℓ.signals = []) :
    NoStructRead B d n o buf count ℓ s (exec (mtcaDummyReadNoStruct B d buf count) ℓ s) ∧
      WordsInside B d (trace (mtcaDummyReadNoStruct B d buf count) ℓ s) := by
  have hmax : maxRwCount < 2 ^ 32 := by decide
  refine ⟨?_, fun i hi p w hw => ?_⟩
  swap
  · have hcells := Entry.cells (B := B) (e := .readNoStruct ⟨d, hd⟩ buf count) rfl (ℓ := ℓ)
      fun _ _ h => nomatch h
    simp only [Entry.body, Nat.min_eq_left hcount] at hcells
    exact hcells.mem_trace hi _ hw
  rw [exec_readNoStruct hd hℓ (by omega)]
  unfold Bars.noStructRead
  rw [hclear, if_neg Bool.false_ne_true]
  by_cases hrefused : Refused n o count
  · rw [hpos, span_refused hn ho hrefused]
    refine ⟨iff_of_true rfl hrefused, fun _ => ?_, fun h => absurd hrefused h,
      fun _ _ h => absurd hrefused h, rfl⟩
    rw [← hpos]
    rfl
  obtain ⟨bar, rfl⟩ := exists_bar_of_not_refused hrefused
  have hspan := span_packed ho hrefused
  have hle := span_le hspan
  obtain ⟨hbytes, hmod⟩ := clamped_mod hrefused
  have hwritable : ℓ.user.Writable buf (4 * (clamped bar.number.toNat o count / 4)) :=
    fun j hj => huser j (by rw [hbytes] at hj; exact hj.trans_le (Nat.min_le_left _ _))
  rw [hpos, hspan]
  dsimp only
  rw [Bars.deliver_of_writable hwritable]
  have hgood := Bars.good_lt_iff hle
  have hmeets : MeetsBroken bar.number.toNat o count ↔
      bar = .system ∧ o / 4 ≤ 18 ∧ 18 < o / 4 + clamped bar.number.toNat o count / 4 := by
    have hzero : bar.number.toNat = 0 ↔ bar = .system := by cases bar <;> decide
    rw [MeetsBroken, hzero]
    exact and_congr_right fun _ => by omega
  dsimp only at hgood
  rw [← hmeets] at hgood
  have hio : - EIO ≠ -EFAULT := by decide
  by_cases hbroken : MeetsBroken bar.number.toNat o count
  · rw [if_pos (hgood.2 hbroken)]
    exact ⟨iff_of_false hio hrefused, fun h => absurd h hrefused, fun _ _ => rfl,
      fun _ _ _ h => absurd hbroken h, rfl⟩
  have hall : okLen (fun i => !bar.rejectsRead i) (o / 4) (clamped bar.number.toNat o count / 4) =
      clamped bar.number.toNat o count / 4 :=
    Nat.le_antisymm (okLen_le _ _ _) (Nat.le_of_not_lt fun h => hbroken (hgood.1 h))
  have hval : 4 * ((clamped bar.number.toNat o count / 4 : ℕ) : ℤ) =
      clamped bar.number.toNat o count := by exact_mod_cast hbytes
  rw [hall, if_neg (Nat.lt_irrefl _), hbytes]
  dsimp only [Option.getD_none]
  rw [hval]
  refine ⟨iff_of_false (fun h => ?_) hrefused, fun h => absurd h hrefused,
    fun _ h => absurd h hbroken, fun bar' hbar' _ _ => ⟨rfl, fun x => ?_, by rw [hpos]⟩, rfl⟩
  · have hfault : -EFAULT < 0 := by decide
    dsimp only at h
    omega
  · obtain rfl : bar' = bar := by
      cases bar <;> cases bar' <;> first | rfl | exact absurd hbar' (by decide)
    dsimp only
    rw [UserMem.set_byte]
    exact if_congr Iff.rfl (wordBytes_aligned _ _ hmod _) rfl

end

/-- A process that reads at offset `o` of bar `n`. -/
def readerLocal (n o : ℕ) : Local :=
  { user := UserMem.ofBytes fun _ => 0, fPos := n * 2 ^ 60 + o }

/-- 16 bytes at the end of bar 2, of which 8 are there. -/
theorem no_struct_read_end :
    NoStructRead loadedBoard 0 2 4088 0 16 (readerLocal 2 4088) clearFlags
        (exec (mtcaDummyReadNoStruct loadedBoard 0 0 16) (readerLocal 2 4088) clearFlags) ∧
      WordsInside loadedBoard 0
        (trace (mtcaDummyReadNoStruct loadedBoard 0 0 16) (readerLocal 2 4088) clearFlags) :=
  no_struct_read (by decide) (by decide) (by decide) rfl (by decide) rfl (fun _ _ => rfl) rfl

/-! ## A transfer in two parts -/

/-- A transfer fails with the error given by its check. -/
theorem span_error {count pos : ℕ} {e : ℤ} (h : span count pos = .error e) : e = -EFAULT := by
  unfold span at h
  split_ifs at h
  · cases h
    rfl
  · split at h
    · cases h
      rfl
    · split_ifs at h
      cases h
      rfl

/-- The words of a transfer of `c₁ + c₂` bytes: those of one of `c₁` bytes, and
    those of one of `c₂` bytes behind it.  The buffer of the second is that
    behind the first, unless there is nothing left of the bar. -/
theorem span_split {c₁ c₂ pos : ℕ} (h₁ : c₁ % 4 = 0) (h₂ : c₂ % 4 = 0) {t : Span}
    (ht : span c₁ pos = .ok t) :
    ∃ k, span c₂ (pos + 4 * t.words) = .ok ⟨t.bar, t.first + t.words, k⟩ ∧
      span (c₁ + c₂) pos = .ok ⟨t.bar, t.first, t.words + k⟩ ∧ (4 * t.words = c₁ ∨ k = 0) := by
  unfold span at ht ⊢
  split_ifs at ht with hmod
  rw [not_or, not_not, not_not] at hmod
  split at ht
  · cases ht
  rename_i bar hbar
  split_ifs at ht with hle
  cases ht
  have hsize : bar.size % 4 = 0 := by cases bar <;> rfl
  have hmax := bar.size_le
  have hdma : dmaSize = 4096 := rfl
  dsimp only
  generalize hk : min (c₁ / 4) ((bar.size - pos % 2 ^ 60) / 4) = k₁
  have hpos : (pos + 4 * k₁) / 2 ^ 60 % 8 = pos / 2 ^ 60 % 8 ∧
      (pos + 4 * k₁) % 2 ^ 60 = pos % 2 ^ 60 + 4 * k₁ := by omega
  rw [hpos.1, hpos.2, hbar]
  refine ⟨min (c₂ / 4) ((bar.size - (pos % 2 ^ 60 + 4 * k₁)) / 4), ?_, ?_, by omega⟩
  · rw [if_neg (by omega)]
    dsimp only
    rw [if_neg (by omega)]
    congr 2
    omega
  · rw [if_neg (by omega), if_neg (by omega)]
    congr 2
    omega

/-- If the transfer is refused, so is a longer one. -/
theorem span_split_error {c₁ c₂ pos : ℕ} (h₁ : c₁ % 4 = 0) (h₂ : c₂ % 4 = 0) {e : ℤ}
    (he : span c₁ pos = .error e) : span (c₁ + c₂) pos = .error e := by
  obtain rfl := span_error he
  unfold span at he ⊢
  have h₁₂ : (c₁ + c₂) % 4 = 0 := by omega
  rw [h₁₂]
  rw [h₁] at he
  split_ifs at he ⊢ with hmod
  · rfl
  · split at he
    · rfl
    · split_ifs at he ⊢
      rfl

namespace Bars
variable {b : Bars} {bar : Bar} {w k₁ k₂ : ℕ} {u : UserMem} {buf : ℕ}

theorem deliver_zero : b.deliver bar w 0 u buf = ⟨none, 0, u⟩ := by
  simp [deliver, okLen]

/-- A delivery in two parts. -/
theorem deliver_add : b.deliver bar w (k₁ + k₂) u buf =
    let r := b.deliver bar w k₁ u buf
    if r.err = none then
      let r' := b.deliver bar (w + k₁) k₂ r.user (buf + 4 * k₁)
      { r' with words := k₁ + r'.words }
    else r := by
  induction k₁ generalizing w u buf with
  | zero => simp [deliver_zero]
  | succ k₁ ih =>
    rw [Nat.add_right_comm]
    by_cases hrej : bar.rejectsRead w = true
    · simp [deliver_broken hrej]
    have hgood : bar.rejectsRead w = false := eq_false_of_ne_true hrej
    by_cases hcopy : u.writeLen buf 4 = 4
    · rw [deliver_succ hgood hcopy, deliver_succ hgood hcopy, ih]
      dsimp only
      rw [show w + 1 + k₁ = w + (k₁ + 1) by omega,
        show buf + 4 + 4 * k₁ = buf + 4 * (k₁ + 1) by omega]
      split <;> simp [Nat.add_right_comm]
    · simp [deliver_fault hgood hcopy]

/-- A delivery without error is complete. -/
theorem deliver_words (h : (b.deliver bar w k₁ u buf).err = none) :
    (b.deliver bar w k₁ u buf).words = k₁ := by
  have hle := okLen_le (fun i => !bar.rejectsRead i) w k₁
  simp only [deliver] at h ⊢
  split_ifs at h with hfault hbroken
  omega

theorem deliver_err_lt {e : ℤ} (h : (b.deliver bar w k₁ u buf).err = some e) : e < 0 := by
  simp only [deliver] at h
  split_ifs at h <;> cases h <;> decide

/-! The same for a block. -/

variable {spiFail : ℕ → Bool} {copy : ℕ → U32 × Bool} {k i m : ℕ}

/-- The words of a buffer, from any of them on. -/
theorem copyWord_add (j : ℕ) : u.copyWord buf (m + j) = u.copyWord (buf + 4 * m) j := by
  rw [UserMem.copyWord, UserMem.copyWord, Nat.mul_add, ← Nat.add_assoc]

/-- The words of a block are counted from any of them. -/
theorem block_shift : Bars.block spiFail bar w copy k (m + i) b =
    Bars.block (fun j => spiFail (m + j)) bar (w + m) (fun j => copy (m + j)) k i b := by
  induction k generalizing i b with
  | zero => rfl
  | succ k ih =>
    rw [block, block, Nat.add_assoc m i 1, ih, Nat.add_assoc w m i]

/-- A block in two parts. -/
theorem block_add : Bars.block spiFail bar w copy (k₁ + k₂) i b =
    let r := Bars.block spiFail bar w copy k₁ i b
    if r.err = none then
      let r' := Bars.block spiFail bar w copy k₂ (i + k₁) r.bars
      { r' with words := k₁ + r'.words }
    else r := by
  induction k₁ generalizing i b with
  | zero => simp [block]
  | succ k₁ ih =>
    rw [Nat.add_right_comm, block, block]
    split_ifs with hcopy hrej
    · rfl
    · rfl
    · dsimp only
      rw [ih, show i + 1 + k₁ = i + (k₁ + 1) by omega]
      dsimp only
      split <;> simp [Nat.add_right_comm]

theorem block_words (h : (Bars.block spiFail bar w copy k i b).err = none) :
    (Bars.block spiFail bar w copy k i b).words = k := by
  induction k generalizing i b with
  | zero => rfl
  | succ k ih =>
    rw [block] at h ⊢
    split_ifs at h ⊢
    dsimp only at h ⊢
    rw [ih h]

theorem block_err_lt {e : ℤ} (h : (Bars.block spiFail bar w copy k i b).err = some e) :
    e < 0 := by
  induction k generalizing i b with
  | zero => cases h
  | succ k ih =>
    rw [block] at h
    split_ifs at h
    · cases h
      decide
    · cases h
      decide
    · exact ih h

end Bars

/-- One call is the same as two, where the second is made if the first does not
    fail: the outcome of the one is that of the last one made, and the results
    add up. -/
structure SplitsInto (whole first second : Outcome ℤ) : Prop where
  first_fails : first.val < 0 → whole = first
  second_fails : 0 ≤ first.val → second.val < 0 → whole = second
  succeeds : 0 ≤ first.val → 0 ≤ second.val → whole = { second with val := first.val + second.val }

/-- A transfer of `c₁ + c₂` bytes, and two of `c₁` and `c₂` bytes. -/
def Splits (call : ℕ → ℕ → KM ℤ) (buf c₁ c₂ : ℕ) (ℓ : Local) (s : Store) : Prop :=
  SplitsInto (exec (call buf (c₁ + c₂)) ℓ s) (exec (call buf c₁) ℓ s)
    ((exec (call buf c₁) ℓ s).next fun _ => call (buf + c₁) c₂)

/-- A first part that fails. -/
theorem SplitsInto.of_fails {whole first second : Outcome ℤ} (h : first.val < 0)
    (hwhole : whole = first) : SplitsInto whole first second :=
  ⟨fun _ => hwhole, fun h' => absurd h (not_lt.2 h'), fun h' => absurd h (not_lt.2 h')⟩

/-- A first part of `n` words that does not fail, and a second one of `k`. -/
theorem SplitsInto.of_parts {first : Outcome ℤ} {e : Option ℤ} {n k : ℕ} {loc : Local} {s : Store}
    (hfirst : first.val = 4 * n) (he : ∀ x, e = some x → x < 0) :
    SplitsInto ⟨e.getD (4 * (n + k : ℕ)), loc, s⟩ first ⟨e.getD (4 * k), loc, s⟩ := by
  refine ⟨fun h => by omega, fun _ h => ?_, fun _ h => ?_⟩
  · cases e with
    | some x => rfl
    | none =>
      dsimp only [Option.getD_none] at h
      omega
  · cases e with
    | some x => exact absurd (he x rfl) (not_lt.2 h)
    | none =>
      simp only [Option.getD_none, hfirst, Outcome.mk.injEq, and_true]
      push_cast
      exact Int.mul_add _ _ _

section
variable {N : ℕ} {B : Board N} {d : ℕ} {ℓ : Local} {s : Store} {buf c₁ c₂ : ℕ}

theorem read_splits (hd : d < N) (hℓ : ℓ.signals = []) (h₁ : c₁ % 4 = 0) (h₂ : c₂ % 4 = 0)
    (hcount : c₁ + c₂ < 2 ^ 32) : Splits (mtcaDummyReadNoStruct B d) buf c₁ c₂ ℓ s := by
  have hfault : -EFAULT < 0 := by decide
  unfold Splits
  rw [exec_readNoStruct hd hℓ hcount, exec_readNoStruct hd hℓ (by omega), next_mk]
  cases hclear : s (.flag .readError) with
  | true => exact .of_fails hfault rfl
  | false =>
    cases ht : span c₁ ℓ.fPos with
    | error e =>
      obtain rfl := span_error ht
      rw [Bars.noStructRead_error ht, Bars.noStructRead_error (span_split_error h₁ h₂ ht)]
      exact .of_fails hfault rfl
    | ok t =>
      obtain ⟨k, hsecond, hwhole, hbuf⟩ := span_split h₁ h₂ ht
      rw [Bars.noStructRead_ok ht, Bars.noStructRead_ok hwhole]
      dsimp only
      rw [Bars.deliver_add]
      generalize hr : (B.bars d s).deliver t.bar t.first t.words ℓ.user buf = r
      cases herr : r.err with
      | some e => exact .of_fails (Bars.deliver_err_lt (hr ▸ herr)) (by simp [herr])
      | none =>
        have hwords : r.words = t.words := hr ▸ Bars.deliver_words (hr ▸ herr)
        have hrest : (B.bars d s).deliver t.bar (t.first + t.words) k r.user (buf + 4 * t.words) =
            (B.bars d s).deliver t.bar (t.first + t.words) k r.user (buf + c₁) := by
          rcases hbuf with h | rfl
          · rw [h]
          · rw [Bars.deliver_zero, Bars.deliver_zero]
        rw [hwords, exec_readNoStruct (ℓ := { ℓ with
          user := r.user
          fPos := ℓ.fPos + 4 * t.words }) hd hℓ (by omega), hclear, Bars.noStructRead_ok hsecond]
        simp only [herr, hrest, if_true, Nat.mul_add, ← Nat.add_assoc]
        exact .of_parts rfl fun _ => Bars.deliver_err_lt

theorem write_splits (hd : d < N) (hℓ : ℓ.signals = []) (h₁ : c₁ % 4 = 0) (h₂ : c₂ % 4 = 0)
    (hcount : c₁ + c₂ < 2 ^ 32) : Splits (mtcaDummyWriteNoStruct B d) buf c₁ c₂ ℓ s := by
  have hfault : -EFAULT < 0 := by decide
  have hs : s = B.put d (B.bars d s) s := put_bars.symm
  unfold Splits
  rw [hs, exec_writeNoStruct hd hcount hℓ, exec_writeNoStruct hd (by omega) hℓ, next_mk]
  cases hclear : s (.flag .writeError) with
  | true =>
    rw [Bars.noStructWrite_of_flag hclear, Bars.noStructWrite_of_flag hclear]
    exact .of_fails hfault rfl
  | false =>
    cases ht : span c₁ ℓ.fPos with
    | error e =>
      obtain rfl := span_error ht
      rw [Bars.noStructWrite_error hclear ht,
        Bars.noStructWrite_error hclear (span_split_error h₁ h₂ ht)]
      exact .of_fails hfault rfl
    | ok t =>
      obtain ⟨k, hsecond, hwhole, hbuf⟩ := span_split h₁ h₂ ht
      rw [Bars.noStructWrite_ok hclear ht, Bars.noStructWrite_ok hclear hwhole]
      dsimp only
      rw [Bars.block_add]
      generalize hr : Bars.block (fun _ => s (.flag .spiError)) t.bar t.first
        (ℓ.user.copyWord buf) t.words 0 (B.bars d s) = r
      cases herr : r.err with
      | some e => exact .of_fails (Bars.block_err_lt (hr ▸ herr)) (by simp [herr])
      | none =>
        have hwords : r.words = t.words := hr ▸ Bars.block_words (hr ▸ herr)
        -- the buffer of the rest begins behind the first part
        have hrest : Bars.block (fun _ => s (.flag .spiError)) t.bar t.first
            (ℓ.user.copyWord buf) k (0 + t.words) r.bars =
            Bars.block (fun _ => s (.flag .spiError)) t.bar (t.first + t.words)
              (ℓ.user.copyWord (buf + c₁)) k 0 r.bars := by
          rcases hbuf with h | rfl
          · rw [Nat.add_comm 0, Bars.block_shift]
            simp only [Bars.copyWord_add, h]
          · rfl
        rw [hwords, exec_writeNoStruct (ℓ := { ℓ with fPos := ℓ.fPos + 4 * t.words }) hd (by omega)
          hℓ, Bars.noStructWrite_ok hclear hsecond]
        simp only [herr, hrest, if_true, Nat.mul_add, ← Nat.add_assoc]
        exact .of_parts rfl fun _ => Bars.block_err_lt

/-- **A transfer in two parts is the transfer.** -/
theorem transfer_splits (hd : d < N) (hℓ : ℓ.signals = []) (h₁ : c₁ % 4 = 0) (h₂ : c₂ % 4 = 0)
    (hcount : c₁ + c₂ ≤ maxRwCount) :
    Splits (mtcaDummyReadNoStruct B d) buf c₁ c₂ ℓ s ∧
      Splits (mtcaDummyWriteNoStruct B d) buf c₁ c₂ ℓ s := by
  have hmax : maxRwCount < 2 ^ 32 := by decide
  exact ⟨read_splits hd hℓ h₁ h₂ (by omega), write_splits hd hℓ h₁ h₂ (by omega)⟩

end

/-- A transfer that passes the end of bar 2 in its second part. -/
theorem transfer_splits_end :
    Splits (mtcaDummyReadNoStruct loadedBoard 0) 0 8 8 (readerLocal 2 4088) clearFlags ∧
      Splits (mtcaDummyWriteNoStruct loadedBoard 0) 0 8 8 (readerLocal 2 4088) clearFlags :=
  transfer_splits (by decide) rfl (by decide) (by decide) (by decide)

end MtcaDummy

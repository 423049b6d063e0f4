/-
  What a transfer through the other interface says about what it did.

  A transfer that meets an error in one of its words returns the error, but
  the position and, for a write, the bar are as the words before it left them.
  `transfer_accounts`: apart from that, the position advances by the number of
  bytes returned, and exactly the words counted are written.
-/
import MtcaDummy.Driver.Interrupts

namespace MtcaDummy

/-! ## The words that fail -/

/-- Word `j` of a read from word `w` on is broken, or cannot be copied to the
    user. -/
def Bar.ReadFails (bar : Bar) (w : ℕ) (u : UserMem) (buf j : ℕ) : Prop :=
  bar.rejectsRead (w + j) = true ∨ ¬ u.Writable (buf + 4 * j) 4

/-- Word `j` of a write from word `w` on cannot be copied from the user, is
    rejected, or the attempt of its action to lock the control mutex is
    interrupted. -/
def Bar.WriteFails (bar : Bar) (w : ℕ) (ℓ : Local) (buf j : ℕ) : Prop :=
  ¬ ℓ.user.Readable (buf + 4 * j) 4 ∨ bar.rejects (w + j) = true ∨
    (bar = .system ∧ ℓ.signals.getD (2 + j) false = true)

theorem readFails_succ {bar : Bar} {w : ℕ} {u : UserMem} {buf j : ℕ} :
    bar.ReadFails w u buf (j + 1) ↔ bar.ReadFails (w + 1) u (buf + 4) j := by
  rw [Bar.ReadFails, Bar.ReadFails, Nat.add_assoc w 1 j, Nat.add_comm 1 j,
    show buf + 4 * (j + 1) = buf + 4 + 4 * j by omega]

namespace Bars
variable {b : Bars} {bar : Bar} {w k : ℕ} {u : UserMem} {buf : ℕ}

/-- A delivery meets no error if no word fails. -/
theorem deliver_err_iff : (b.deliver bar w k u buf).err = none ↔
    ∀ j < k, ¬ bar.ReadFails w u buf j := by
  induction k generalizing b w u buf with
  | zero => simp [deliver_zero]
  | succ k ih =>
    rw [Nat.forall_lt_succ_left]
    by_cases hrej : bar.rejectsRead w = true
    · rw [deliver_broken hrej]
      exact iff_of_false (Option.some_ne_none _) fun h => h.1 (.inl hrej)
    have hgood : bar.rejectsRead w = false := eq_false_of_ne_true hrej
    by_cases hcopy : u.writeLen buf 4 = 4
    · have hfirst : ¬ bar.ReadFails w u buf 0 := fun h =>
        h.elim hrej fun hw => hw (UserMem.writeLen_eq_iff.1 hcopy)
      rw [deliver_succ hgood hcopy, and_iff_right hfirst]
      dsimp only
      rw [ih]
      exact forall₂_congr fun j _ => not_congr readFails_succ.symm
    · rw [deliver_fault hgood hcopy]
      exact iff_of_false (Option.some_ne_none _) fun h =>
        h.1 (.inr fun hw => hcopy (UserMem.writeLen_eq_iff.2 hw))

/-- A delivery delivers a word if the first does not fail. -/
theorem deliver_words_iff : (b.deliver bar w (k + 1) u buf).words = 0 ↔
    bar.ReadFails w u buf 0 := by
  by_cases hrej : bar.rejectsRead w = true
  · rw [deliver_broken hrej]
    exact iff_of_true rfl (.inl hrej)
  have hgood : bar.rejectsRead w = false := eq_false_of_ne_true hrej
  by_cases hcopy : u.writeLen buf 4 = 4
  · rw [deliver_succ hgood hcopy]
    exact iff_of_false (Nat.succ_ne_zero _) fun h =>
      h.elim hrej fun hw => hw (UserMem.writeLen_eq_iff.1 hcopy)
  · rw [deliver_fault hgood hcopy]
    exact iff_of_true rfl (.inr fun hw => hcopy (UserMem.writeLen_eq_iff.2 hw))

variable {spiFail : Bool} {copy : ℕ → U32 × Bool} {i : ℕ}

/-- A rejected word is stored. -/
theorem write_rejected {v : U32} (h : bar.rejects i = true) :
    b.write spiFail bar i v = b.setWord bar i v := by
  cases bar with
  | dma => rfl
  | system =>
    simp only [Bar.rejects, brokenOffset, decide_eq_true_eq] at h
    simp only [write]
    rcases h with h | h <;> rw [h] <;> rfl

/-- A block meets no error if no word fails ... -/
theorem block_err_iff : (Bars.block (fun _ => spiFail) bar w copy k i b).err = none ↔
    ∀ j < k, (copy (i + j)).2 = true ∧ bar.rejects (w + (i + j)) = false := by
  induction k generalizing i b with
  | zero => simp [block]
  | succ k ih =>
    rw [Nat.forall_lt_succ_left, block, Nat.add_zero]
    cases hcopy : (copy i).2 with
    | false => exact iff_of_false (Option.some_ne_none _) fun h => Bool.false_ne_true h.1.1
    | true =>
      cases hrej : bar.rejects (w + i) with
      | true => exact iff_of_false (Option.some_ne_none _) fun h => Bool.false_ne_true h.1.2.symm
      | false =>
        simp only [Bool.not_true, Bool.false_eq_true, if_false, ih, and_self, true_and]
        exact forall₂_congr fun j _ => by rw [Nat.add_assoc i 1 j, Nat.add_comm 1 j]

/-- ... and then has written them. -/
theorem block_bars (h : (Bars.block (fun _ => spiFail) bar w copy k i b).err = none) :
    (Bars.block (fun _ => spiFail) bar w copy k i b).bars = b.writes ((List.range k).map fun j =>
      ⟨spiFail, bar, w + (i + j), (copy (i + j)).1⟩) := by
  induction k generalizing i b with
  | zero => rfl
  | succ k ih =>
    rw [block] at h ⊢
    split_ifs at h ⊢
    rw [List.range_succ_eq_map, List.map_cons, List.map_map, writes_cons]
    refine (ih h).trans ?_
    congr 1
    refine List.map_congr_left fun j _ => ?_
    simp only [Function.comp, Nat.succ_eq_add_one, show i + (j + 1) = i + 1 + j by omega]

variable (spiFail copy)

/-- If the first word fails, it is all that is stored. -/
theorem block_fails (h : ¬ ((copy i).2 = true ∧ bar.rejects (w + i) = false)) :
    (Bars.block (fun _ => spiFail) bar w copy (k + 1) i b).words = 0 ∧
      (Bars.block (fun _ => spiFail) bar w copy (k + 1) i b).bars =
        b.setWord bar (w + i) (copy i).1 := by
  rw [block]
  split_ifs with hcopy hrej
  · exact ⟨rfl, rfl⟩
  · exact ⟨rfl, write_rejected hrej⟩
  · exact absurd ⟨by simpa using hcopy, eq_false_of_ne_true hrej⟩ h

theorem block_words_pos (h : (copy i).2 = true ∧ bar.rejects (w + i) = false) :
    0 < (Bars.block (fun _ => spiFail) bar w copy (k + 1) i b).words := by
  rw [block, if_neg (by simp [h.1]), if_neg (by simp [h.2])]
  exact Nat.succ_pos _

end Bars

/-! ## The account of a transfer -/

/-- The position advances by the number of bytes returned, or is kept. -/
structure Advances (ℓ : Local) (out : Outcome ℤ) : Prop where
  advance : 0 ≤ out.val → (out.loc.fPos : ℤ) = ℓ.fPos + out.val
  keep : out.val < 0 → out.loc.fPos = ℓ.fPos

/-- The first `n` words of a buffer, written from word `w` of a bar on. -/
def bufferWrites (spiFail : Bool) (bar : Bar) (w : ℕ) (u : UserMem) (buf n : ℕ) : List WordWrite :=
  (List.range n).map fun j => ⟨spiFail, bar, w + j, (u.copyWord buf j).1⟩

/-- The bars are as the words counted by the number of bytes returned leave
    them, and unchanged if the call fails. -/
structure Processes {N : ℕ} (B : Board N) (d buf count : ℕ) (ℓ : Local) (s : Store)
    (out : Outcome ℤ) : Prop where
  counted : ∀ t, span count ℓ.fPos = .ok t → 0 ≤ out.val → B.bars d out.store =
    (B.bars d s).writes
      (bufferWrites (s (.flag .spiError)) t.bar t.first ℓ.user buf (out.val.toNat / 4))
  none : out.val < 0 → B.bars d out.store = B.bars d s

/-- A word of the read fails after others have been delivered. -/
def ReadStops (buf count : ℕ) (ℓ : Local) (s : Store) : Prop :=
  Passes .readError ℓ s ∧ ∃ t, span count ℓ.fPos = .ok t ∧
    ¬ t.bar.ReadFails t.first ℓ.user buf 0 ∧ ∃ j < t.words, t.bar.ReadFails t.first ℓ.user buf j

/-- A word of the write fails: the first one after a value was stored that is
    not its content, or another one. -/
def WriteStops {N : ℕ} (B : Board N) (d buf count : ℕ) (ℓ : Local) (s : Store) : Prop :=
  Passes .writeError ℓ s ∧ ∃ t, span count ℓ.fPos = .ok t ∧
    (∃ j < t.words, t.bar.WriteFails t.first ℓ buf j) ∧
    (t.bar.WriteFails t.first ℓ buf 0 →
      (ℓ.user.copyWord buf 0).1 ≠ (B.bars d s).word t.bar t.first)

theorem Quits.val_lt {x : KM ℤ} {ℓ : Local} {s : Store} (h : Quits x ℓ s) :
    (exec x ℓ s).val < 0 := by
  rcases h.val with hval | ⟨hval, -⟩
  · rw [hval]
    decide
  · rw [hval]
    decide

theorem Quits.advances {x : KM ℤ} {ℓ : Local} {s : Store} (h : Quits x ℓ s) :
    Advances ℓ (exec x ℓ s) :=
  ⟨fun h' => absurd h.val_lt (not_lt.2 h'), fun _ => by
    have := congrArg Local.fPos h.loc
    exact this⟩

/-- What a word of a write needs. -/
theorem writeFails_iff {bar : Bar} {w : ℕ} {ℓ : Local} {buf j : ℕ} : bar.WriteFails w ℓ buf j ↔
    ¬ (((ℓ.user.copyWord buf j).2 && !ℓ.inside.cuts bar j) = true ∧
      bar.rejects (w + j) = false) := by
  have hread : ℓ.user.Readable (buf + 4 * j) 4 ↔ (ℓ.user.copyWord buf j).2 = true := by
    simp only [UserMem.copyWord, decide_eq_true_eq]
    exact UserMem.readLen_eq_iff.symm
  have hsignal : ℓ.inside.signals.getD j false = ℓ.signals.getD (2 + j) false := by
    simp only [Local.inside, getD_tail, Nat.add_comm 2 j]
  have hcut : ℓ.inside.cuts bar j = true ↔ bar = .system ∧ ℓ.signals.getD (2 + j) false = true := by
    rw [Local.cuts, Bool.and_eq_true, decide_eq_true_eq, hsignal]
  rw [Bar.WriteFails, hread, ← hcut]
  cases (ℓ.user.copyWord buf j).2 <;> cases bar.rejects (w + j) <;>
    cases ℓ.inside.cuts bar j <;> decide

section
variable {N : ℕ} {B : Board N} {d : ℕ} (hd : d < N) {ℓ : Local} {s : Store} {buf count : ℕ}
  (hcount : count < 2 ^ 32)
include hd hcount

theorem read_advances_iff :
    Advances ℓ (exec (mtcaDummyReadNoStruct B d buf count) ℓ s) ↔ ¬ ReadStops buf count ℓ s := by
  by_cases hp : Passes .readError ℓ s ∧ ∃ t, span count ℓ.fPos = .ok t
  swap
  · exact iff_of_true (quits_transfer hd hcount hp).advances fun h =>
      hp ⟨h.1, h.2.imp fun _ h => h.1⟩
  obtain ⟨hp, t, ht⟩ := hp
  have hle := span_le ht
  have hsize := t.bar.size_le
  have hwords : (t.information (B.dummyPrivateData d)).nBytesToTransfer / 4 = t.words := by
    simp only [Span.information]
    omega
  have hexec := (continues_transfer (B := B) hd hcount (x := fun t =>
    readNoStructLoop B d t buf (t.nBytesToTransfer / 4) 0) hp ht).exec
  rw [hwords, exec_readLoop (by omega)] at hexec
  have hrun : exec (mtcaDummyReadNoStruct B d buf count) ℓ s = _ := hexec
  have huser : ℓ.inside.user = ℓ.user := rfl
  have hstops : ReadStops buf count ℓ s ↔ ¬ t.bar.ReadFails t.first ℓ.user buf 0 ∧
      ∃ j < t.words, t.bar.ReadFails t.first ℓ.user buf j := by
    refine ⟨?_, fun h => ⟨hp, t, ht, h⟩⟩
    rintro ⟨-, t', ht', h⟩
    rw [ht] at ht'
    cases ht'
    exact h
  have herr : ((B.bars d s).deliver t.bar t.first t.words ℓ.user buf).err = none ↔
      ∀ j < t.words, ¬ t.bar.ReadFails t.first ℓ.user buf j := Bars.deliver_err_iff
  rw [hrun, hstops, huser]
  simp only [Nat.mul_zero, Nat.add_zero]
  cases hr : ((B.bars d s).deliver t.bar t.first t.words ℓ.user buf).err with
  | none =>
    have hall := Bars.deliver_words hr
    refine iff_of_true ⟨fun _ => ?_, fun h => ?_⟩ ?_
    · dsimp only [Option.getD_none]
      rw [hall]
      push_cast
      rfl
    · dsimp only [Option.getD_none] at h
      omega
    · rintro ⟨-, j, hj, h⟩
      exact herr.1 hr j hj h
  | some e =>
    have hlt : e < 0 := Bars.deliver_err_lt hr
    have hfails : ∃ j < t.words, t.bar.ReadFails t.first ℓ.user buf j := by
      by_contra hno
      have := herr.2 fun j hj h => hno ⟨j, hj, h⟩
      rw [hr] at this
      cases this
    have hzero : ((B.bars d s).deliver t.bar t.first t.words ℓ.user buf).words = 0 ↔
        t.bar.ReadFails t.first ℓ.user buf 0 := by
      obtain ⟨j, hj, -⟩ := hfails
      obtain ⟨k, hk⟩ := Nat.exists_eq_add_one_of_ne_zero (show t.words ≠ 0 by omega)
      rw [hk]
      exact Bars.deliver_words_iff
    rw [and_iff_left hfails, not_not, ← hzero]
    constructor
    · intro h
      have hkeep := h.keep hlt
      change ℓ.fPos + 4 * _ = ℓ.fPos at hkeep
      omega
    · intro h
      exact ⟨fun h' => absurd hlt (not_lt.2 h'), fun _ => by rw [h]; rfl⟩

theorem write_accounts_iff :
    (Advances ℓ (exec (mtcaDummyWriteNoStruct B d buf count) ℓ s) ∧
      Processes B d buf count ℓ s (exec (mtcaDummyWriteNoStruct B d buf count) ℓ s)) ↔
      ¬ WriteStops B d buf count ℓ s := by
  by_cases hp : Passes .writeError ℓ s ∧ ∃ t, span count ℓ.fPos = .ok t
  swap
  · have hquits := quits_transfer (B := B) (s := s) (x := fun t =>
      writeNoStructLoop B d t buf (t.nBytesToTransfer / 4) 0) hd hcount hp
    refine iff_of_true ⟨hquits.advances, fun _ _ h => ?_, fun _ => ?_⟩ fun h =>
      hp ⟨h.1, h.2.imp fun _ h => h.1⟩
    · exact absurd hquits.val_lt (not_lt.2 h)
    · exact congrArg (B.bars d) hquits.store
  obtain ⟨hp, t, ht⟩ := hp
  have hle := span_le ht
  have hsize := t.bar.size_le
  have hwords : (t.information (B.dummyPrivateData d)).nBytesToTransfer / 4 = t.words := by
    simp only [Span.information]
    omega
  have hexec := (continues_transfer (B := B) hd hcount (x := fun t =>
    writeNoStructLoop B d t buf (t.nBytesToTransfer / 4) 0) hp ht).exec
  have hrun : exec (mtcaDummyWriteNoStruct B d buf count) ℓ s = _ := hexec
  have hs : s = B.put d (B.bars d s) s := put_bars.symm
  have hloop := exec_writeLoop (B := B) hd (ℓ := ℓ.inside) (s := s) (b := B.bars d s) (t := t)
    (k := t.words) (i := 0) buf (fun j => ((ℓ.user.copyWord buf j).1,
      (ℓ.user.copyWord buf j).2 && !ℓ.inside.cuts t.bar j))
    (by omega) fun j => by rw [Nat.zero_add]; rfl
  rw [← hs, ← hwords, ← hrun, hwords] at hloop
  have hstops : WriteStops B d buf count ℓ s ↔
      (∃ j < t.words, t.bar.WriteFails t.first ℓ buf j) ∧ (t.bar.WriteFails t.first ℓ buf 0 →
        (ℓ.user.copyWord buf 0).1 ≠ (B.bars d s).word t.bar t.first) := by
    refine ⟨?_, fun h => ⟨hp, t, ht, h⟩⟩
    rintro ⟨-, t', ht', h⟩
    rw [ht] at ht'
    cases ht'
    exact h
  rw [hstops]
  generalize exec (mtcaDummyWriteNoStruct B d buf count) ℓ s = out at hloop ⊢
  obtain ⟨hval, hpos, hstore⟩ := hloop
  have hbars := congrArg (B.bars d) hstore
  rw [bars_put hd] at hbars
  have herr : (Bars.block (fun _ => s (.flag .spiError)) t.bar t.first (fun j =>
      ((ℓ.user.copyWord buf j).1, (ℓ.user.copyWord buf j).2 && !ℓ.inside.cuts t.bar j)) t.words 0
      (B.bars d s)).err = none ↔ ∀ j < t.words, ¬ t.bar.WriteFails t.first ℓ buf j := by
    refine Bars.block_err_iff.trans (forall₂_congr fun j _ => ?_)
    rw [Nat.zero_add, writeFails_iff, not_not]
  by_cases hall : ∀ j < t.words, ¬ t.bar.WriteFails t.first ℓ buf j
  · have hnone := herr.2 hall
    rw [if_pos hnone] at hval
    rw [Bars.block_words hnone] at hpos
    rw [Bars.block_bars hnone] at hbars
    refine iff_of_true ⟨⟨fun _ => ?_, fun h => ?_⟩, fun t' ht' _ => ?_, fun h => ?_⟩ ?_
    · rw [hpos, hval]
      push_cast
      rfl
    · omega
    · rw [ht] at ht'
      cases ht'
      rw [hbars, hval, show ((4 * t.words : ℤ)).toNat / 4 = t.words by omega]
      simp only [Nat.zero_add, bufferWrites]
    · omega
    · rintro ⟨⟨j, hj, h⟩, -⟩
      exact hall j hj h
  · have hsome := fun h => hall (herr.1 h)
    rw [if_neg hsome] at hval
    have hlt : out.val < 0 := by
      rw [hval]
      split_ifs <;> decide
    replace hall : ∃ j < t.words, t.bar.WriteFails t.first ℓ buf j := by
      simpa only [not_forall, not_not, exists_prop] using hall
    obtain ⟨k, hk⟩ := Nat.exists_eq_add_one_of_ne_zero
      (show t.words ≠ 0 by obtain ⟨j, hj, -⟩ := hall; omega)
    rw [and_iff_right hall]
    by_cases hfirst : t.bar.WriteFails t.first ℓ buf 0
    · -- the first word is stored, and nothing else
      obtain ⟨hwords, hstored⟩ := Bars.block_fails (b := B.bars d s) (k := k) (i := 0)
        (s (.flag .spiError)) (fun j => ((ℓ.user.copyWord buf j).1,
          (ℓ.user.copyWord buf j).2 && !ℓ.inside.cuts t.bar j)) (writeFails_iff.1 hfirst)
      rw [hk, hwords] at hpos
      rw [hk, hstored, Nat.add_zero] at hbars
      have hsame : B.bars d out.store = B.bars d s ↔
          (ℓ.user.copyWord buf 0).1 = (B.bars d s).word t.bar t.first := by
        rw [hbars, setWord_eq_self]
      constructor
      · rintro ⟨-, h⟩ hne
        exact hne hfirst (hsame.1 (h.none hlt))
      · intro h
        have hcontent : (ℓ.user.copyWord buf 0).1 = (B.bars d s).word t.bar t.first :=
          not_not.1 fun hne => h fun _ => hne
        exact ⟨⟨fun h' => absurd hlt (not_lt.2 h'), fun _ => hpos⟩,
          fun _ _ h' => absurd hlt (not_lt.2 h'), fun _ => hsame.2 hcontent⟩
    · -- the position counts the words before the one that fails
      have hstored := Bars.block_words_pos (b := B.bars d s) (k := k) (i := 0)
        (s (.flag .spiError)) (fun j => ((ℓ.user.copyWord buf j).1,
          (ℓ.user.copyWord buf j).2 && !ℓ.inside.cuts t.bar j))
        (not_not.1 fun h => hfirst (writeFails_iff.2 h))
      rw [← hk] at hstored
      refine iff_of_false (fun h => ?_) fun h => h fun hf => absurd hf hfirst
      have hkeep := h.1.keep hlt
      rw [hpos] at hkeep
      change ℓ.fPos + 4 * _ = ℓ.fPos at hkeep
      omega

end

/-- **A transfer accounts for exactly what it did**, unless a word fails after
    others have been processed, or the first one after it was stored. -/
theorem transfer_accounts {N : ℕ} {B : Board N} {d : ℕ} (hd : d < N) {ℓ : Local} {s : Store}
    {buf count : ℕ} (hcount : count ≤ maxRwCount) :
    (Advances ℓ (exec (mtcaDummyReadNoStruct B d buf count) ℓ s) ↔ ¬ ReadStops buf count ℓ s) ∧
    (Advances ℓ (exec (mtcaDummyWriteNoStruct B d buf count) ℓ s) ∧
      Processes B d buf count ℓ s (exec (mtcaDummyWriteNoStruct B d buf count) ℓ s) ↔
      ¬ WriteStops B d buf count ℓ s) := by
  have hmax : maxRwCount < 2 ^ 32 := by decide
  exact ⟨read_advances_iff hd (by omega), write_accounts_iff hd (by omega)⟩

/-- Two words of bar 2. -/
theorem transfer_accounts_dma :
    Advances (readerLocal 2 0)
        (exec (mtcaDummyWriteNoStruct loadedBoard 0 0 8) (readerLocal 2 0) clearFlags) ∧
      Processes loadedBoard 0 0 8 (readerLocal 2 0) clearFlags
        (exec (mtcaDummyWriteNoStruct loadedBoard 0 0 8) (readerLocal 2 0) clearFlags) := by
  refine (transfer_accounts (by decide) (by decide)).2.2 ?_
  rintro ⟨-, t, ht, ⟨j, hj, h⟩, -⟩
  have hspan : span 8 (readerLocal 2 0).fPos = .ok ⟨.dma, 0, 2⟩ := rfl
  rw [hspan] at ht
  cases ht
  rcases h with h | h | h
  · exact h fun _ _ => rfl
  · cases h
  · cases h.1

/-- The write of two words from `WORD_ADC_ENA` on fails at the second, after
    the first has been processed. -/
theorem transfer_stops_broken :
    ¬ (Advances (readerLocal 0 0x44)
        (exec (mtcaDummyWriteNoStruct loadedBoard 0 0 8) (readerLocal 0 0x44) clearFlags) ∧
      Processes loadedBoard 0 0 8 (readerLocal 0 0x44) clearFlags
        (exec (mtcaDummyWriteNoStruct loadedBoard 0 0 8) (readerLocal 0 0x44) clearFlags)) := by
  rw [write_accounts_iff (by decide) (by decide), not_not]
  refine ⟨⟨rfl, rfl, rfl⟩, ⟨.system, 17, 2⟩, rfl, ⟨1, by decide, .inr (.inl (by decide))⟩,
    fun h => ?_⟩
  rcases h with h | h | h
  · exact absurd (fun _ _ => rfl) h
  · exact absurd h (by decide)
  · exact absurd h.2 (by decide)

end MtcaDummy

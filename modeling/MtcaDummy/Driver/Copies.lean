/-
  The bytes of words, and the copies to and from a user.

  `okLen` bytes of a copy are accessible before the first that is not.  A copy
  is whole if and only if all its bytes are (`readLen_eq_iff`,
  `writeLen_eq_iff`).  A copy of kernel memory goes word by word, and comes to
  one copy of its bytes (`exec_copyToUserFrom`); within its block these are the
  bytes of the block (`wordBytes_locate`).
-/
import MtcaDummy.Driver.Drv
import MtcaDummy.Driver.Exec

namespace MtcaDummy

/-! ## Words and bytes -/

/-- A word is made of its bytes. -/
theorem wordAt_byteOf (w : U32) : wordAt (byteOf w) 0 = w := by
  apply BitVec.eq_of_getLsbD_eq
  intro i hi
  simp only [wordAt, byteOf, BitVec.getLsbD_append, BitVec.getLsbD_extractLsb']
  by_cases h₀ : i < 8
  · simp [h₀]
  by_cases h₁ : i - 8 < 8
  · simp [h₀, h₁, show 8 + (i - 8) = i by omega]
  by_cases h₂ : i - 8 - 8 < 8
  · simp [h₀, h₁, h₂, show 8 * 2 + (i - 8 - 8) = i by omega]
  · simp [h₀, h₁, h₂, show i - 8 - 8 - 8 < 8 by omega, show 8 * 3 + (i - 8 - 8 - 8) = i by omega]

/-- A word depends on its four bytes. -/
theorem wordAt_congr {f g : ℕ → Byte} {o : ℕ} (h : ∀ j < 4, f (o + j) = g (o + j)) :
    wordAt f o = wordAt g o := by
  have h₀ := h 0 (by omega)
  rw [Nat.add_zero] at h₀
  simp only [wordAt, h₀, h 1 (by omega), h 2 (by omega), h 3 (by omega)]

/-- Word `i` of consecutive words. -/
theorem wordAt_bytesOf (ws : List U32) (i : ℕ) : wordAt (bytesOf ws) (4 * i) = ws.getD i 0 := by
  rw [← wordAt_byteOf (ws.getD i 0)]
  have hdiv : ∀ j < 4, (4 * i + j) / 4 = i ∧ (4 * i + j) % 4 = j := fun j hj => by omega
  have hbyte : ∀ j < 4, bytesOf ws (4 * i + j) = byteOf (ws.getD i 0) j := fun j hj => by
    rw [bytesOf, (hdiv j hj).1, (hdiv j hj).2]
  have h₀ := hbyte 0 (by omega)
  rw [Nat.add_zero] at h₀
  simp only [wordAt, h₀, hbyte 1 (by omega), hbyte 2 (by omega), hbyte 3 (by omega), Nat.zero_add]

/-- A request is read from its own bytes. -/
theorem DeviceRw.ofBytes_bytes (r : DeviceRw) : DeviceRw.ofBytes r.bytes = r := by
  have h := wordAt_bytesOf [r.offsetRw, r.dataRw, r.modeRw, r.barxRw, r.sizeRw, r.rsrvdRw]
  simp only [DeviceRw.ofBytes, DeviceRw.bytes]
  cases r
  congr 1
  · exact h 0
  · exact h 1
  · exact h 2
  · exact h 3
  · exact h 4
  · exact h 5

theorem DeviceRw.ofBytes_congr {f g : ℕ → Byte} (h : ∀ j < sizeofDeviceRw, f j = g j) :
    DeviceRw.ofBytes f = DeviceRw.ofBytes g := by
  have hw : ∀ o, o + 4 ≤ sizeofDeviceRw → wordAt f o = wordAt g o := fun o ho =>
    wordAt_congr fun j hj => h _ (by omega)
  have hs : sizeofDeviceRw = 24 := rfl
  simp only [DeviceRw.ofBytes, hw 0 (by omega), hw 4 (by omega), hw 8 (by omega), hw 12 (by omega),
    hw 16 (by omega), hw 20 (by omega)]

/-! ## Accessible bytes -/

section
variable {ok : ℕ → Bool} {a n m : ℕ}

theorem okLen_all (h : ∀ j < n, ok (a + j) = true) : okLen ok a n = n := by
  induction n generalizing a with
  | zero => rfl
  | succ n ih =>
    have h₀ : ok a = true := h 0 (Nat.zero_lt_succ n)
    rw [okLen, if_pos h₀, ih fun j hj => by
      have := h (j + 1) (by omega)
      rwa [show a + (j + 1) = a + 1 + j by omega] at this]

theorem ok_of_lt_okLen {j : ℕ} (h : j < okLen ok a n) : ok (a + j) = true := by
  induction n generalizing a j with
  | zero => cases h
  | succ n ih =>
    rw [okLen] at h
    split at h
    · rename_i h₀
      cases j with
      | zero => exact h₀
      | succ j =>
        have := ih (a := a + 1) (j := j) (by omega)
        rwa [show a + (j + 1) = a + 1 + j by omega]
    · cases h

theorem okLen_eq_iff : okLen ok a n = n ↔ ∀ j < n, ok (a + j) = true :=
  ⟨fun h j hj => ok_of_lt_okLen (n := n) (by omega), okLen_all⟩

theorem lt_okLen_iff : m < okLen ok a n ↔ m < n ∧ ∀ j < m + 1, ok (a + j) = true := by
  induction n generalizing a m with
  | zero => simp [okLen]
  | succ n ih =>
    rw [okLen]
    split
    · rename_i h₀
      cases m with
      | zero => simpa using h₀
      | succ m =>
        rw [Nat.add_lt_add_iff_right, ih, Nat.add_lt_add_iff_right]
        refine and_congr_right fun _ => ⟨fun h j hj => ?_, fun h j hj => ?_⟩
        · cases j with
          | zero => exact h₀
          | succ j =>
            have := h j (by omega)
            rwa [show a + 1 + j = a + (j + 1) by omega] at this
        · have := h (j + 1) (by omega)
          rwa [show a + (j + 1) = a + 1 + j by omega] at this
    · rename_i h₀
      exact iff_of_false (Nat.not_lt_zero m) fun h => h₀ (h.2 0 (Nat.succ_pos m))

/-- The accessible bytes of two parts. -/
theorem okLen_add : okLen ok a (n + m) =
    if okLen ok a n = n then n + okLen ok (a + n) m else okLen ok a n := by
  induction n generalizing a with
  | zero => simp [okLen]
  | succ n ih =>
    rw [show n + 1 + m = n + m + 1 by omega, okLen, okLen]
    split
    · rw [ih, show a + 1 + n = a + (n + 1) by omega]
      by_cases h : okLen ok (a + 1) n = n
      · rw [if_pos h, if_pos (by omega)]
        omega
      · rw [if_neg h, if_neg (by omega)]
    · rw [if_neg (by omega)]

end

namespace UserMem
variable (u : UserMem)

/-- The process can read the `n` bytes from `a` on. -/
def Readable (a n : ℕ) : Prop := ∀ j < n, u.readable (a + j) = true

/-- It can write them. -/
def Writable (a n : ℕ) : Prop := ∀ j < n, u.writable (a + j) = true

variable {u}

/-- A copy from the user is whole if all its bytes can be read. -/
theorem readLen_eq_iff {a n : ℕ} : u.readLen a n = n ↔ u.Readable a n := by
  unfold readLen
  split
  · exact okLen_eq_iff
  · rename_i hok
    constructor
    · rintro rfl j hj
      cases hj
    · intro h
      rcases Nat.eq_zero_or_pos n with rfl | hn
      · rfl
      · exact absurd (u.accessOk_of_readable a n hn h) hok

/-- A copy to the user is whole if all its bytes can be written. -/
theorem writeLen_eq_iff {a n : ℕ} : u.writeLen a n = n ↔ u.Writable a n := by
  unfold writeLen
  split
  · exact okLen_eq_iff
  · rename_i hok
    constructor
    · rintro rfl j hj
      cases hj
    · intro h
      rcases Nat.eq_zero_or_pos n with rfl | hn
      · rfl
      · exact absurd (u.accessOk_of_writable a n hn h) hok

/-- The bytes that a copy to the user writes. -/
theorem lt_writeLen_iff {a n m : ℕ} : m < u.writeLen a n ↔
    u.accessOk a n = true ∧ m < n ∧ u.Writable a (m + 1) := by
  unfold writeLen
  split
  · rename_i hok
    rw [lt_okLen_iff, and_iff_right hok]
    exact Iff.rfl
  · rename_i hok
    exact iff_of_false (Nat.not_lt_zero m) fun h => hok h.1

@[simp] theorem writeLen_zero (a : ℕ) : u.writeLen a 0 = 0 := Nat.le_zero.1 (u.writeLen_le a 0)

/-- A whole copy from the user. -/
theorem fetch_of_readable {a n j : ℕ} (h : u.Readable a n) (hj : j < n) :
    u.fetch a n j = u.byte (a + j) := by
  rw [fetch, readLen_eq_iff.2 h, if_pos hj]

theorem set_byte (a k : ℕ) (src : ℕ → Byte) (x : ℕ) :
    (u.set a k src).byte x = if a ≤ x ∧ x < a + k then src (x - a) else u.byte x := rfl

theorem set_byte_of_lt {a k : ℕ} {src : ℕ → Byte} {x : ℕ} (hx : x < a) :
    (u.set a k src).byte x = u.byte x := if_neg fun h => by omega

@[simp] theorem set_zero (a : ℕ) (src : ℕ → Byte) : u.set a 0 src = u := by
  have h : (fun x => if a ≤ x ∧ x < a + 0 then src (x - a) else u.byte x) = u.byte :=
    funext fun x => if_neg fun h => by omega
  simp only [set, h]

theorem set_congr {a k : ℕ} {f g : ℕ → Byte} (h : ∀ j < k, f j = g j) :
    u.set a k f = u.set a k g := by
  have hbyte : (fun x => if a ≤ x ∧ x < a + k then f (x - a) else u.byte x) =
      fun x => if a ≤ x ∧ x < a + k then g (x - a) else u.byte x := by
    funext x
    split
    · exact h _ (by omega)
    · rfl
  simp only [set, hbyte]

/-- A write and the one that follows it. -/
theorem set_set {a k k' : ℕ} {f g : ℕ → Byte} : (u.set a k f).set (a + k) k' g =
    u.set a (k + k') fun j => if j < k then f j else g (j - k) := by
  have hbyte : (fun x => if a + k ≤ x ∧ x < a + k + k' then g (x - (a + k)) else
        if a ≤ x ∧ x < a + k then f (x - a) else u.byte x) =
      fun x => if a ≤ x ∧ x < a + (k + k') then
        (if x - a < k then f (x - a) else g (x - a - k)) else u.byte x := by
    funext x
    by_cases h₁ : a + k ≤ x ∧ x < a + k + k'
    · rw [if_pos h₁, if_pos (by omega), if_neg (by omega), Nat.sub_sub]
    · rw [if_neg h₁]
      by_cases h₂ : a ≤ x ∧ x < a + k
      · rw [if_pos h₂, if_pos (by omega), if_pos (by omega)]
      · rw [if_neg h₂, if_neg (by omega)]
  simp only [set, hbyte]

@[simp] theorem set_readable (a k : ℕ) (src : ℕ → Byte) :
    (u.set a k src).readable = u.readable := rfl

@[simp] theorem set_writable (a k : ℕ) (src : ℕ → Byte) :
    (u.set a k src).writable = u.writable := rfl

@[simp] theorem set_readLen (a k : ℕ) (src : ℕ → Byte) :
    (u.set a k src).readLen = u.readLen := rfl

@[simp] theorem set_writeLen (a k : ℕ) (src : ℕ → Byte) :
    (u.set a k src).writeLen = u.writeLen := rfl

end UserMem

/-! ## A copy of kernel memory -/

/-- The bytes of consecutive words, from word `w` on. -/
def wordBytes (f : ℕ → U32) (w j : ℕ) : Byte := byteOf (f (w + j / 4)) (j % 4)

/-- The first four are those of the word. -/
theorem wordBytes_of_lt {f : ℕ → U32} {w j : ℕ} (hj : j < 4) :
    wordBytes f w j = byteOf (f w) j := by
  rw [wordBytes, Nat.div_eq_of_lt hj, Nat.mod_eq_of_lt hj, Nat.add_zero]

theorem wordBytes_succ {f : ℕ → U32} {w j : ℕ} (hj : 4 ≤ j) :
    wordBytes f (w + 1) (j - 4) = wordBytes f w j := by
  rw [wordBytes, wordBytes, show w + 1 + (j - 4) / 4 = w + j / 4 by omega,
    show (j - 4) % 4 = j % 4 by omega]

theorem exec_copyWords (cell : ℕ → Ptr × ℕ) {k dst w n : ℕ} (hk : n ≤ 4 * k) (ℓ : Local)
    (s : Store) : exec (copyWords cell k dst w n) ℓ s = ⟨n - okLen ℓ.user.writable dst n,
      { ℓ with
        user := ℓ.user.set dst (okLen ℓ.user.writable dst n)
          (wordBytes (fun i => s (.word (cell i).1 (cell i).2)) w) }, s⟩ := by
  induction k generalizing dst w n ℓ with
  | zero =>
    obtain rfl : n = 0 := by omega
    simp [copyWords, okLen]
  | succ k ih =>
    rw [copyWords, exec_bind, exec_loadWord, next_mk, exec_bind, exec_rawCopyToUser, next_mk,
      exec_ite]
    have hfirst : ∀ j < 4, wordBytes (fun i => s (.word (cell i).1 (cell i).2)) w j =
        byteOf (s (.word (cell w).1 (cell w).2)) j := fun j hj => wordBytes_of_lt hj
    have hle := okLen_le ℓ.user.writable dst (min n 4)
    have hsplit := @okLen_add ℓ.user.writable dst (min n 4) (n - 4)
    rw [show min n 4 + (n - 4) = n by omega] at hsplit
    by_cases hok : okLen ℓ.user.writable dst (min n 4) = min n 4
    · rw [if_pos hok] at hsplit
      rw [if_neg (by omega), ih (by omega)]
      by_cases hn : n < 4
      · have hlen : okLen ℓ.user.writable dst n = n := by
          rw [Nat.min_eq_left (by omega)] at hok
          exact hok
        simp only [show n - 4 = 0 by omega, okLen, UserMem.set_zero, hlen, Nat.min_eq_left hn.le,
          Nat.sub_self, Outcome.mk.injEq, and_true, true_and]
        rw [UserMem.set_congr fun j hj => (hfirst j (by omega)).symm]
      · have hmin : min n 4 = 4 := by omega
        simp only [hmin] at hok hsplit ⊢
        simp only [hok, UserMem.set_writable, UserMem.set_set, hsplit, Outcome.mk.injEq, and_true]
        refine ⟨by omega, ?_⟩
        congr 1
        refine UserMem.set_congr fun j hj => ?_
        split
        · rename_i hj4
          exact (hfirst j hj4).symm
        · rename_i hj4
          exact wordBytes_succ (Nat.le_of_not_lt hj4)
    · rw [if_neg hok] at hsplit
      rw [if_pos (by omega), exec_pure, hsplit]
      simp only [Outcome.mk.injEq, and_true]
      refine ⟨by omega, ?_⟩
      congr 1
      exact UserMem.set_congr fun j hj => (hfirst j (by omega)).symm

section
variable {N : ℕ} (B : Board N)

/-- **The copy of kernel memory is the copy of its bytes.** -/
theorem exec_copyToUserFrom (dst : ℕ) (b : Ptr) (size w n : ℕ) (ℓ : Local) (s : Store) :
    exec (copyToUserFrom B dst b size w n) ℓ s = ⟨n - ℓ.user.writeLen dst n,
      { ℓ with
        user := ℓ.user.set dst (ℓ.user.writeLen dst n)
          (wordBytes (fun i => s (.word (B.locate b size i).1 (B.locate b size i).2)) w) }, s⟩ := by
  have hnote : exec (copyToUserFrom B dst b size w n) ℓ s =
      exec (if !ℓ.user.accessOk dst n then pure n
        else copyWords (B.locate b size) ((n + 3) / 4) dst w n) ℓ s := rfl
  rw [hnote, exec_ite, UserMem.writeLen]
  cases ℓ.user.accessOk dst n with
  | false => simp
  | true =>
    simp only [Bool.not_true, Bool.false_eq_true, if_false, if_true]
    exact exec_copyWords _ (by omega) ℓ s

/-- The bytes of a copy that ends in its block. -/
theorem wordBytes_locate {b : Ptr} {size w n j : ℕ} (h : 4 * w + n ≤ 4 * (size / 4)) (hj : j < n)
    (s : Store) :
    wordBytes (fun i => s (.word (B.locate b size i).1 (B.locate b size i).2)) w j =
      wordBytes (fun i => s (.word b i)) w j := by
  rw [wordBytes, wordBytes, Board.locate_of_lt (by omega)]

end

end MtcaDummy

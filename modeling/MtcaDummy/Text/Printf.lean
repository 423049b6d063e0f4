/-
  Formatted text.

  `printf` fills the conversions of a format with 32 bit words: `%08X` and
  `%08lX` print a word as eight hexadecimal digits, `%d` and `%i` as a signed
  decimal number; other characters stand for themselves.

  `TellsApart f` says that a text made by `f` can be told from what follows it, and
  tells its argument.  Eight digits do so (`tellsApart_hexPad`), and the rules put
  such texts together.
-/
import Mathlib.Data.BitVec
import Mathlib.Data.List.Basic

namespace Text

/-! ## Conversions -/

def hexDigit (n : ℕ) : Char := if n < 10 then Char.ofNat (0x30 + n) else Char.ofNat (0x37 + n)

/-- The last `n` hexadecimal digits of a number. -/
def hexPad : ℕ → ℕ → List Char
  | 0, _ => []
  | n + 1, v => hexPad n (v / 16) ++ [hexDigit (v % 16)]

/-- A number in decimal, with its sign. -/
def decimal (i : ℤ) : List Char :=
  if i < 0 then '-' :: Nat.toDigits 10 i.natAbs else Nat.toDigits 10 i.natAbs

/-- The format filled with the arguments. -/
def printf : List Char → List (BitVec 32) → List Char
  | '%' :: '0' :: '8' :: 'X' :: fmt, v :: args => hexPad 8 v.toNat ++ printf fmt args
  | '%' :: '0' :: '8' :: 'l' :: 'X' :: fmt, v :: args => hexPad 8 v.toNat ++ printf fmt args
  | '%' :: 'd' :: fmt, v :: args => decimal v.toInt ++ printf fmt args
  | '%' :: 'i' :: fmt, v :: args => decimal v.toInt ++ printf fmt args
  | c :: fmt, args => c :: printf fmt args
  | [], _ => []

@[simp] theorem length_hexPad (n v : ℕ) : (hexPad n v).length = n := by
  induction n generalizing v with
  | zero => rfl
  | succ n ih => rw [hexPad, List.length_append, ih, List.length_singleton]

theorem hexDigit_inj {a b : ℕ} (ha : a < 16) (hb : b < 16) (h : hexDigit a = hexDigit b) :
    a = b := by
  have key : ∀ a b : Fin 16, hexDigit a = hexDigit b → a = b := by decide
  exact congrArg Fin.val (key ⟨a, ha⟩ ⟨b, hb⟩ h)

/-- The digits tell the number. -/
theorem hexPad_inj {n v v' : ℕ} (hv : v < 16 ^ n) (hv' : v' < 16 ^ n)
    (h : hexPad n v = hexPad n v') : v = v' := by
  induction n generalizing v v' with
  | zero => omega
  | succ n ih =>
    rw [hexPad, hexPad] at h
    obtain ⟨hhigh, hlow⟩ := List.append_inj' h rfl
    have hdiv := ih (Nat.div_lt_of_lt_mul (by rwa [← Nat.pow_succ']))
      (Nat.div_lt_of_lt_mul (by rwa [← Nat.pow_succ'])) hhigh
    have hmod := hexDigit_inj (Nat.mod_lt v (by decide)) (Nat.mod_lt v' (by decide))
      (List.singleton_inj.1 hlow)
    omega

/-! ## Texts that can be told apart -/

section
variable {α β : Type}

/-- Where a text made by `f` ends can be told, and what it was made of. -/
def TellsApart (f : α → List Char) (R : α → α → Prop) : Prop :=
  ∀ a a' r r', f a ++ r = f a' ++ r' → R a a' ∧ r = r'

theorem tellsApart_const (t : List Char) : TellsApart (fun _ : α => t) fun _ _ => True :=
  fun _ _ _ _ h => ⟨trivial, List.append_cancel_left h⟩

theorem tellsApart_hexPad : TellsApart (fun v : BitVec 32 => hexPad 8 v.toNat) Eq := by
  intro v v' r r' h
  obtain ⟨hdigits, hrest⟩ := List.append_inj h (by rw [length_hexPad, length_hexPad])
  exact ⟨BitVec.eq_of_toNat_eq (hexPad_inj v.isLt v'.isLt hdigits), hrest⟩

/-- One text after the other. -/
theorem TellsApart.append {f g : α → List Char} {R R' : α → α → Prop} (hf : TellsApart f R)
    (hg : TellsApart g R') : TellsApart (fun a => f a ++ g a) fun a a' => R a a' ∧ R' a a' := by
  intro a a' r r' h
  rw [List.append_assoc, List.append_assoc] at h
  obtain ⟨hR, hrest⟩ := hf a a' _ _ h
  obtain ⟨hR', hr⟩ := hg a a' r r' hrest
  exact ⟨⟨hR, hR'⟩, hr⟩

/-- A text followed by one that it tells. -/
theorem TellsApart.followed {f g : α → List Char} {R : α → α → Prop} (hf : TellsApart f R)
    (hg : ∀ a a', R a a' → g a = g a') : TellsApart (fun a => f a ++ g a) R := by
  intro a a' r r' h
  rw [List.append_assoc, List.append_assoc] at h
  obtain ⟨hR, hrest⟩ := hf a a' _ _ h
  rw [hg a a' hR] at hrest
  exact ⟨hR, List.append_cancel_left hrest⟩

theorem TellsApart.after {f : α → List Char} {R : α → α → Prop} (t : List Char)
    (hf : TellsApart f R) : TellsApart (fun a => t ++ f a) R := by
  intro a a' r r' h
  rw [List.append_assoc, List.append_assoc] at h
  exact hf a a' r r' (List.append_cancel_left h)

theorem TellsApart.comp {f : α → List Char} {R : α → α → Prop} (hf : TellsApart f R) (g : β → α) :
    TellsApart (fun b => f (g b)) fun b b' => R (g b) (g b') :=
  fun b b' r r' h => hf (g b) (g b') r r' h

/-- A list of texts. -/
theorem tellsApart_flatMap {f : β → α → List Char} {R : β → α → α → Prop} (l : List β)
    (h : ∀ b ∈ l, TellsApart (f b) (R b)) :
    TellsApart (fun a => l.flatMap fun b => f b a) fun a a' => ∀ b ∈ l, R b a a' := by
  induction l with
  | nil => exact fun _ _ _ _ h => ⟨fun b hb => absurd hb List.not_mem_nil, h⟩
  | cons b l ih =>
    intro a a' r r' heq
    simp only [List.flatMap_cons, List.append_assoc] at heq
    obtain ⟨hb, hrest⟩ := h b List.mem_cons_self a a' _ _ heq
    obtain ⟨hl, hr⟩ := ih (fun b hb => h b (List.mem_cons_of_mem _ hb)) a a' r r' hrest
    exact ⟨List.forall_mem_cons.2 ⟨hb, hl⟩, hr⟩

end

end Text

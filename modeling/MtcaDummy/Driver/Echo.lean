/-
  Commands as they are documented.

  `echoText` is what `echo "open:1 spi:0" >/proc/mtcadummy` writes: settings
  with a value in decimal, with a space between them and a newline at the end.
  The `%i` of the driver reads such a value back (`scanInt_decimal`), and so
  `echo_sets_flags`: the write sets each flag as its last setting says.
-/
import MtcaDummy.Text.Printf
import MtcaDummy.Driver.Commands

namespace MtcaDummy

open Text

/-! ## Numbers -/

def asciiOf (cs : List Char) : Chars := cs.map fun c => BitVec.ofNat 8 c.toNat

/-- A digit that is printed is one of the ten. -/
theorem exists_digit {c : Char} (hc : c.isDigit = true) :
    ∃ d : Fin 10, c.toNat = 0x30 + d ∧ BitVec.ofNat 8 c.toNat = BitVec.ofNat 8 (0x30 + d) := by
  have hrange : 0x30 ≤ c.toNat ∧ c.toNat ≤ 0x39 := by
    simpa [Char.isDigit, UInt32.le_iff_toNat_le] using hc
  have hd : c.toNat = 0x30 + (c.toNat - 0x30) := by omega
  exact ⟨⟨c.toNat - 0x30, by omega⟩, hd, congrArg (BitVec.ofNat 8) hd⟩

/-- Its value ... -/
theorem digitVal_of_isDigit {c : Char} (hc : c.isDigit = true) :
    digitVal (BitVec.ofNat 8 c.toNat) = some (c.toNat - 0x30) ∧ c.toNat - 0x30 < 10 := by
  have key : ∀ d : Fin 10, digitVal (BitVec.ofNat 8 (0x30 + d)) = some d.val := by decide
  obtain ⟨d, hd, hbyte⟩ := exists_digit hc
  rw [hbyte, key, hd, Nat.add_sub_cancel_left]
  exact ⟨rfl, d.isLt⟩

/-- ... and what it is not. -/
theorem byte_of_isDigit {c : Char} (hc : c.isDigit = true) :
    isDigit 10 (BitVec.ofNat 8 c.toNat) = true ∧ isSpace (BitVec.ofNat 8 c.toNat) = false ∧
      BitVec.ofNat 8 c.toNat ≠ 0x2D#8 := by
  have key : ∀ d : Fin 10, isDigit 10 (BitVec.ofNat 8 (0x30 + d)) = true ∧
      isSpace (BitVec.ofNat 8 (0x30 + d)) = false ∧ BitVec.ofNat 8 (0x30 + d) ≠ 0x2D#8 := by decide
  obtain ⟨d, -, hbyte⟩ := exists_digit hc
  rw [hbyte]
  exact key d

/-- What may come after a number. -/
def EndsNumber (rest : Chars) : Prop := rest = [] ∨ rest = [0x0A#8]

theorem parseInteger_digits {ds : List Char} (hds : ∀ c ∈ ds, c.isDigit = true) {rest : Chars}
    (hrest : EndsNumber rest) (acc : ℕ) :
    parseInteger 10 acc (asciiOf ds ++ rest) = Nat.ofDigitChars 10 ds acc := by
  induction ds generalizing acc with
  | nil =>
    rcases hrest with rfl | rfl
    · rfl
    · rfl
  | cons c ds ih =>
    obtain ⟨hval, hlt⟩ := digitVal_of_isDigit (hds c List.mem_cons_self)
    rw [asciiOf, List.map_cons, List.cons_append, parseInteger, hval]
    dsimp only
    rw [if_pos hlt, Nat.ofDigitChars_cons, Nat.mul_comm acc]
    exact ih (fun c hc => hds c (List.mem_cons_of_mem _ hc)) _

/-- The digits of a positive number do not start with a zero. -/
theorem toDigits_head {n : ℕ} (hn : 0 < n) :
    ∃ c cs, Nat.toDigits 10 n = c :: cs ∧ BitVec.ofNat 8 c.toNat ≠ 0x30#8 := by
  induction n using Nat.strong_induction_on with
  | _ n ih =>
    by_cases hlt : n < 10
    · have key : ∀ d : Fin 10, 0 < d.val →
          BitVec.ofNat 8 (Nat.digitChar d.val).toNat ≠ 0x30#8 := by decide
      exact ⟨_, _, Nat.toDigits_of_lt_base hlt, key ⟨n, hlt⟩ hn⟩
    · obtain ⟨c, cs, hcs, hc⟩ := ih (n / 10) (by omega) (by omega)
      rw [Nat.toDigits_of_base_le (by decide) (by omega), hcs]
      exact ⟨c, _, List.cons_append, hc⟩

theorem fixupRadix_ten {b : Byte} (hb : b ≠ 0x30#8) (cs : Chars) :
    fixupRadix (b :: cs) = (10, b :: cs) := by
  unfold fixupRadix
  split
  · rename_i heq
    exact absurd (List.cons.inj heq).1 hb
  · rename_i heq
    exact absurd (List.cons.inj heq).1 hb
  · rfl

theorem scanInt_minus {cs : Chars} (h : cs.head?.any (isDigit 10) = true) :
    scanInt (0x2D#8 :: cs) = some (BitVec.ofInt 32 (-simpleStrtoull cs)).toInt := by
  have hdrop : (0x2D#8 :: cs).dropWhile isSpace = 0x2D#8 :: cs :=
    List.dropWhile_cons_of_neg (by decide)
  unfold scanInt
  rw [hdrop]
  exact if_pos h

theorem scanInt_digit {b : Byte} (hdigit : isDigit 10 b = true) (hspace : isSpace b = false)
    (hminus : b ≠ 0x2D#8) (cs : Chars) :
    scanInt (b :: cs) = some (BitVec.ofNat 32 (simpleStrtoull (b :: cs))).toInt := by
  have hdrop : (b :: cs).dropWhile isSpace = b :: cs :=
    List.dropWhile_cons_of_neg (by rw [hspace]; exact Bool.false_ne_true)
  unfold scanInt
  rw [hdrop]
  split
  · rename_i heq
    exact absurd (List.cons.inj heq).1 hminus
  · exact if_pos hdigit

section
variable {rest : Chars} (hrest : EndsNumber rest)
include hrest

theorem simpleStrtoull_digits (n : ℕ) :
    simpleStrtoull (asciiOf (Nat.toDigits 10 n) ++ rest) = n := by
  have hdigits : ∀ c ∈ Nat.toDigits 10 n, c.isDigit = true := fun c hc =>
    Nat.isDigit_of_mem_toDigits (by decide) (by decide) hc
  rcases Nat.eq_zero_or_pos n with rfl | hn
  · rcases hrest with rfl | rfl
    · rfl
    · rfl
  have hradix : fixupRadix (asciiOf (Nat.toDigits 10 n) ++ rest) =
      (10, asciiOf (Nat.toDigits 10 n) ++ rest) := by
    obtain ⟨c, cs, hcs, hc⟩ := toDigits_head hn
    rw [hcs]
    exact fixupRadix_ten hc _
  rw [simpleStrtoull, hradix, parseInteger_digits hdigits hrest, Nat.ofDigitChars_ten_toDigits]

omit hrest in
/-- The digits of a number start with one. -/
theorem exists_head (rest : Chars) (n : ℕ) : ∃ (c : Char) (cs : Chars), c.isDigit = true ∧
    asciiOf (Nat.toDigits 10 n) ++ rest = BitVec.ofNat 8 c.toNat :: cs := by
  cases hcs : Nat.toDigits 10 n with
  | nil => exact absurd hcs Nat.toDigits_ne_nil
  | cons c cs =>
    have hmem : c ∈ Nat.toDigits 10 n := by
      rw [hcs]
      exact List.mem_cons_self
    exact ⟨c, _, Nat.isDigit_of_mem_toDigits (by decide) (by decide) hmem, rfl⟩

/-- **The conversion reads a number that is printed.** -/
theorem scanInt_decimal {v : ℤ} (hv : -2 ^ 31 ≤ v ∧ v < 2 ^ 31) :
    scanInt (asciiOf (decimal v) ++ rest) = some v := by
  have hnumber := simpleStrtoull_digits hrest v.natAbs
  obtain ⟨c, cs, hc, hhead⟩ := exists_head rest v.natAbs
  obtain ⟨hdigit, hspace, hminus⟩ := byte_of_isDigit hc
  unfold decimal
  by_cases hneg : v < 0
  · have htext : asciiOf ('-' :: Nat.toDigits 10 v.natAbs) ++ rest =
        0x2D#8 :: (asciiOf (Nat.toDigits 10 v.natAbs) ++ rest) := rfl
    have hany : (asciiOf (Nat.toDigits 10 v.natAbs) ++ rest).head?.any (isDigit 10) = true := by
      rw [hhead]
      exact hdigit
    have habs : -(v.natAbs : ℤ) = v := by omega
    rw [if_pos hneg, htext, scanInt_minus hany, hnumber, habs, BitVec.toInt_ofInt,
      Int.bmod_eq_of_le (by omega) (by omega)]
  · have habs : (v.natAbs : ℤ) = v := by omega
    rw [if_neg hneg, hhead, scanInt_digit hdigit hspace hminus, ← hhead, hnumber,
      BitVec.toInt_ofNat', habs, Int.bmod_eq_of_le (by omega) (by omega)]

end

/-! ## Settings -/

/-- A setting, such as `open:1`. -/
def settingText (x : Flag × ℤ) : Chars := x.1.literal ++ asciiOf (decimal x.2)

/-- What `echo` writes. -/
def echoText : List (Flag × ℤ) → Chars
  | [] => [0x0A#8]
  | [x] => settingText x ++ [0x0A#8]
  | x :: y :: xs => settingText x ++ 0x20#8 :: echoText (y :: xs)

/-- The last setting of a flag. -/
def lastSetting (f : Flag) (xs : List (Flag × ℤ)) : Option ℤ :=
  (xs.filter fun x => x.1 = f).getLast?.map Prod.snd

theorem matchLiteral_append (lit cs : Chars) : matchLiteral lit (lit ++ cs) = some cs := by
  induction lit with
  | nil => cases cs <;> rfl
  | cons c lit ih => rw [List.cons_append, matchLiteral, if_pos rfl, ih]

theorem sscanf_setting {x : Flag × ℤ} (hx : -2 ^ 31 ≤ x.2 ∧ x.2 < 2 ^ 31) {rest : Chars}
    (hrest : EndsNumber rest) : sscanf (settingText x ++ rest) x.1.literal = some x.2 := by
  rw [sscanf, settingText, List.append_assoc, matchLiteral_append, Option.bind_some,
    scanInt_decimal hrest hx]

/-- A setting of one flag sets no other. -/
theorem sscanf_setting_iff {x : Flag × ℤ} (hx : -2 ^ 31 ≤ x.2 ∧ x.2 < 2 ^ 31) {rest : Chars}
    (hrest : EndsNumber rest) (f : Flag) :
    sscanf (settingText x ++ rest) f.literal = if x.1 = f then some x.2 else none := by
  have hsetting := sscanf_setting hx hrest
  by_cases hf : x.1 = f
  · rw [if_pos hf, ← hf, hsetting]
  · rw [if_neg hf, sscanf_unique hsetting (Ne.symm hf)]

/-! ## The text as tokens -/

/-- The characters of a token. -/
def Plain (t : Chars) : Prop := ∀ b ∈ t, b ≠ 0x20#8 ∧ b ≠ 0#8

theorem plain_decimal (v : ℤ) : Plain (asciiOf (decimal v)) := by
  have hdigits : Plain (asciiOf (Nat.toDigits 10 v.natAbs)) := by
    intro b hb
    obtain ⟨c, hc, rfl⟩ := List.mem_map.1 hb
    obtain ⟨hdigit, hspace, -⟩ :=
      byte_of_isDigit (Nat.isDigit_of_mem_toDigits (by decide) (by decide) hc)
    constructor
    · intro h
      rw [h] at hspace
      exact absurd hspace (by decide)
    · intro h
      rw [h] at hdigit
      exact absurd hdigit (by decide)
  unfold decimal
  split
  · exact List.forall_mem_cons.2 ⟨by decide, hdigits⟩
  · exact hdigits

theorem plain_setting (x : Flag × ℤ) : Plain (settingText x) := by
  have hliteral : ∀ f : Flag, Plain f.literal := by
    intro f
    unfold Plain
    cases f <;> decide
  exact List.forall_mem_append.2 ⟨hliteral x.1, plain_decimal x.2⟩

theorem lastValue_plain {t : Chars} (ht : Plain t) (f : Flag) :
    lastValue f t = sscanf t f.literal := by
  have htokens : tokens t = [t] := List.splitOn_eq_singleton fun h => (ht _ h).1 rfl
  rw [lastValue, htokens, List.filterMap_cons, List.filterMap_nil]
  cases sscanf t f.literal <;> rfl

theorem lastSetting_cons (f : Flag) (x : Flag × ℤ) (xs : List (Flag × ℤ)) :
    lastSetting f (x :: xs) = (lastSetting f xs).or (if x.1 = f then some x.2 else none) := by
  unfold lastSetting
  rw [List.filter_cons]
  by_cases hf : x.1 = f
  · rw [if_pos (decide_eq_true hf), if_pos hf, List.getLast?_cons]
    cases (xs.filter fun x => x.1 = f).getLast? <;> rfl
  · rw [if_neg (by simpa using hf), if_neg hf, Option.or_none]

/-- **The last value of an option is its last setting.** -/
theorem lastValue_echo {xs : List (Flag × ℤ)} (hxs : ∀ x ∈ xs, -2 ^ 31 ≤ x.2 ∧ x.2 < 2 ^ 31)
    (f : Flag) : lastValue f (echoText xs) = lastSetting f xs := by
  have hnewline : ∀ x, Plain (settingText x ++ [0x0A#8]) := fun x =>
    List.forall_mem_append.2 ⟨plain_setting x, by decide⟩
  induction xs using echoText.induct with
  | case1 => cases f <;> decide
  | case2 x =>
    rw [echoText, lastValue_plain (hnewline x),
      sscanf_setting_iff (hxs x List.mem_cons_self) (.inr rfl), lastSetting_cons]
    rfl
  | case3 x y xs ih =>
    have hsetting := sscanf_setting_iff (hxs x List.mem_cons_self) (.inl rfl) f
    rw [List.append_nil] at hsetting
    rw [echoText, lastValue_append, ih fun z hz => hxs z (List.mem_cons_of_mem _ hz),
      lastValue_plain (plain_setting x), hsetting, lastSetting_cons f x]

theorem nul_notMem_echo (xs : List (Flag × ℤ)) : 0#8 ∉ echoText xs := by
  induction xs using echoText.induct with
  | case1 => decide
  | case2 x =>
    rw [echoText, List.mem_append, not_or]
    exact ⟨fun h => (plain_setting x _ h).2 rfl, by decide⟩
  | case3 x y xs ih =>
    rw [echoText, List.mem_append, List.mem_cons, not_or, not_or]
    exact ⟨fun h => (plain_setting x _ h).2 rfl, by decide, ih⟩

/-- The flag that settings leave. -/
def settledFlag (xs : List (Flag × ℤ)) (f : Flag) (old : Bool) : Bool :=
  match lastSetting f xs with
  | some v => flagOf v old
  | none => old

/-- **The documented commands set the flags.**  Whichever settings `echo` writes
    to the proc file, in any order and also repeated, with values that fit an
    `int`, the write takes all of them, and each flag is as its last setting
    says, or as it was. -/
theorem echo_sets_flags {xs : List (Flag × ℤ)} (hxs : ∀ x ∈ xs, -2 ^ 31 ≤ x.2 ∧ x.2 < 2 ^ 31)
    (hlen : (echoText xs).length ≤ 254) {ubuf : ℕ} {ℓ : Local} (h : Sends ubuf (echoText xs) ℓ)
    (st : Store) :
    let o := exec (mtcadummyProcWrite ubuf (echoText xs).length) ℓ st
    o.val = (echoText xs).length ∧
      o.store = st.withFlags fun f => settledFlag xs f (st (.flag f)) := by
  intro o
  have hmin : min (echoText xs).length (sizeofCmd - 1) = (echoText xs).length :=
    Nat.min_eq_left hlen
  have htake : (echoText xs).take (sizeofCmd - 1) = echoText xs := List.take_of_length_le hlen
  have hread : ℓ.user.Readable ubuf (min (echoText xs).length (sizeofCmd - 1)) := by
    rw [hmin]
    exact h.readable
  have hflags : ∀ f old,
      flagOf ((parseCommand (echoText xs)).value f) old = settledFlag xs f old := by
    intro f old
    rw [flagOf_parseCommand (nul_notMem_echo xs), flagAfter, lastValue_echo hxs]
    unfold settledFlag
    cases lastSetting f xs with
    | none => rfl
    | some v => rfl
  have hrun := exec_procWrite ubuf (echoText xs).length h.signal st
  rw [command_of_holds h.holds hread, htake] at hrun
  simp only [hflags] at hrun
  exact ⟨congrArg Outcome.val hrun, congrArg Outcome.store hrun⟩

/-- The second command of the documentation, `open:0 spi:1`. -/
theorem echo_sets_flags_spi :
    let s := echoText [(.openError, 0), (.spiError, 1)]
    (exec (mtcadummyProcWrite 0 s.length) (commandLocal s) clearFlags).store =
      clearFlags.withFlags fun f => settledFlag [(.openError, 0), (.spiError, 1)] f
        (clearFlags (.flag f)) :=
  (echo_sets_flags (by decide) (by decide) (commandLocal_sends _) clearFlags).2

end MtcaDummy

/-
  What a write of the proc file asks for, and what it does.

  `lastValue f s` is the integer of the last token of `s` for the option of the
  flag `f`; `Asked` says what the flag has to be after a write of `s`.
  `exec_procWrite` is the write as a function of its options, which are those
  of the first 254 characters.  The buffer has no room for the 255th, so that a
  command of the documented length is honoured unless its last token needs it
  (`Clipped`): `proc_write_honoured`.
-/
import MtcaDummy.Driver.Copies
import MtcaDummy.Driver.Proc
import Mathlib.Data.List.TakeWhile

namespace MtcaDummy

/-! ## Tokens and options -/

/-- The literal of the option that sets the flag. -/
def Flag.literal : Flag → Chars
  | openError => litOpen
  | readError => litRead
  | writeError => litWrite
  | spiError => litSpi

/-- The variable of the flag. -/
def Options.value (o : Options) : Flag → ℤ
  | .openError => o.opn
  | .readError => o.read
  | .writeError => o.write
  | .spiError => o.spi

def tokens (s : Chars) : List Chars := s.splitOn 0x20#8

/-- The integer of the last token for the option. -/
def lastValue (f : Flag) (s : Chars) : Option ℤ :=
  ((tokens s).filterMap fun t => sscanf t f.literal).getLast?

/-- The flag set to an integer: a negative one does not count. -/
def flagOf (value : ℤ) (old : Bool) : Bool := if value > -1 then value ≠ 0 else old

/-- The flag after a write of the whole string. -/
def flagAfter (f : Flag) (s : Chars) (old : Bool) : Bool :=
  match lastValue f s with
  | some v => flagOf v old
  | none => old

theorem matchLiteral_head {lit t rest : Chars} {c : Byte}
    (h : matchLiteral (c :: lit) t = some rest) :
    t.head? = some c := by
  cases t with
  | nil => cases h
  | cons c' t =>
    rw [matchLiteral] at h
    split at h
    · rename_i hc
      rw [hc]
      rfl
    · cases h

/-- A token is one of at most one option: the literals differ in their first
    character. -/
theorem sscanf_unique {t : Chars} {f g : Flag} {v : ℤ} (h : sscanf t f.literal = some v)
    (hne : g ≠ f) : sscanf t g.literal = none := by
  have hhead : ∀ f : Flag, ∀ v, sscanf t f.literal = some v → t.head? = f.literal.head? := by
    intro f v hv
    obtain ⟨rest, hrest, -⟩ := Option.bind_eq_some_iff.1 hv
    cases f <;> exact matchLiteral_head hrest
  cases hg : sscanf t g.literal with
  | none => rfl
  | some w =>
    have hfg := (hhead f v h).symm.trans (hhead g w hg)
    cases f <;> cases g <;> first | exact absurd rfl hne | exact absurd hfg (by decide)

/-- One token sets the variable of its option. -/
theorem Options.token_value (o : Options) (t : Chars) (f : Flag) :
    (o.token t).value f = (sscanf t f.literal).getD (o.value f) := by
  have hnone : ∀ g : Flag, ∀ v, sscanf t g.literal = some v → g ≠ f →
      sscanf t f.literal = none := fun g v hv hne => sscanf_unique hv hne.symm
  unfold Options.token
  cases h₁ : sscanf t litOpen with
  | some v =>
    cases f
    · rw [Flag.literal, h₁]; rfl
    all_goals rw [hnone .openError v h₁ (by decide)]; rfl
  | none =>
    cases h₂ : sscanf t litRead with
    | some v =>
      cases f
      case readError => rw [Flag.literal, h₂]; rfl
      all_goals rw [hnone .readError v h₂ (by decide)]; rfl
    | none =>
      cases h₃ : sscanf t litWrite with
      | some v =>
        cases f
        case writeError => rw [Flag.literal, h₃]; rfl
        all_goals rw [hnone .writeError v h₃ (by decide)]; rfl
      | none =>
        cases h₄ : sscanf t litSpi with
        | some v =>
          cases f
          case spiError => rw [Flag.literal, h₄]; rfl
          all_goals rw [hnone .spiError v h₄ (by decide)]; rfl
        | none =>
          cases f <;> simp only [Flag.literal, h₁, h₂, h₃, h₄] <;> rfl

/-- The last token of an option wins. -/
theorem foldl_token_value (ts : List Chars) (o : Options) (f : Flag) :
    (ts.foldl Options.token o).value f =
      ((ts.filterMap fun t => sscanf t f.literal).getLast?).getD (o.value f) := by
  induction ts generalizing o with
  | nil => rfl
  | cons t ts ih =>
    rw [List.foldl_cons, ih, Options.token_value, List.filterMap_cons]
    cases sscanf t f.literal with
    | none => rfl
    | some v =>
      cases hl : (ts.filterMap fun t => sscanf t f.literal).getLast? with
      | none =>
        rw [List.getLast?_eq_none_iff] at hl
        rw [hl]
        rfl
      | some w => simp [List.getLast?_cons, hl]

theorem parseCommand_value {s : Chars} (hs : 0#8 ∉ s) (f : Flag) :
    (parseCommand s).value f = (lastValue f s).getD (-1) := by
  have htake : s.takeWhile (fun c => decide (c ≠ 0#8)) = s :=
    List.takeWhile_eq_self_iff.2 fun c hc => decide_eq_true fun h => hs (h ▸ hc)
  have hstart : (({} : Options).value f) = -1 := by cases f <;> rfl
  unfold parseCommand
  rw [htake, foldl_token_value, hstart]
  rfl

/-! ## The write -/

/-- The store with these flags. -/
def Store.withFlags (s : Store) (F : Flag → Bool) : Store
  | .flag f => F f
  | .word b i => s (.word b i)
  | .inUse n => s (.inUse n)

/-- The memory holds the string at `a`. -/
def UserMem.Holds (u : UserMem) (a : ℕ) (s : Chars) : Prop :=
  ∀ j (h : j < s.length), u.byte (a + j) = s[j]

theorem exec_setOrRead (f : Flag) (value : ℤ) (ℓ : Local) (s : Store) :
    exec (setOrRead f value) ℓ s =
      ⟨(), ℓ, Function.update s (.flag f) (flagOf value (s (.flag f)))⟩ := by
  unfold setOrRead flagOf
  split
  · rfl
  · rw [exec_bind, exec_controlData, next_mk, exec_pure, Function.update_eq_self]

/-- The options of a write; none if the copy from the user fails. -/
def command (u : UserMem) (ubuf count : ℕ) : Option Options :=
  let len := min count (sizeofCmd - 1)
  if u.readLen ubuf len = len then
    some (parseCommand ((List.range len).map (u.fetch ubuf len)))
  else none

/-- **The write sets the flags by its options**, or fails and changes none. -/
theorem exec_procWrite (ubuf count : ℕ) {ℓ : Local} (hsig : ℓ.signals.headD false = false)
    (st : Store) : exec (mtcadummyProcWrite ubuf count) ℓ st =
      match command ℓ.user ubuf count with
      | none => ⟨-EFAULT, ℓ, st⟩
      | some o => ⟨count, { ℓ with signals := ℓ.signals.tail },
          Store.withFlags st fun f => flagOf (o.value f) (st (.flag f))⟩ := by
  unfold mtcadummyProcWrite command
  simp only [exec_bind, exec_copyFromUser, next_mk, exec_ite]
  by_cases hread : ℓ.user.readLen ubuf (min count (sizeofCmd - 1)) =
      min count (sizeofCmd - 1)
  · rw [if_pos hread, hread, Nat.sub_self, if_neg (fun h => h rfl), exec_lock, hsig, next_mk]
    simp only [exec_bind, Bool.false_eq_true, if_false, exec_setOrRead, next_mk, exec_unlock,
      exec_pure, Outcome.mk.injEq, true_and]
    generalize parseCommand _ = o
    funext l
    cases l with
    | flag f => cases f <;> simp [Store.withFlags, Options.value]
    | _ => simp [Store.withFlags]
  · rw [if_pos (UserMem.readLeft_ne_zero hread), if_neg hread]
    rfl

/-- The options of a string are those of its first 254 characters. -/
theorem command_of_holds {u : UserMem} {ubuf : ℕ} {s : Chars} (hu : u.Holds ubuf s)
    (hread : u.Readable ubuf (min s.length (sizeofCmd - 1))) :
    command u ubuf s.length = some (parseCommand (s.take (sizeofCmd - 1))) := by
  have hcmd : (List.range (min s.length (sizeofCmd - 1))).map
      (u.fetch ubuf (min s.length (sizeofCmd - 1))) = s.take (sizeofCmd - 1) := by
    refine List.ext_getElem (by simp [Nat.min_comm]) fun j h₁ h₂ => ?_
    have hj : j < min s.length (sizeofCmd - 1) := by simpa using h₁
    rw [List.getElem_map, List.getElem_range, UserMem.fetch_of_readable hread hj,
      hu j (by omega), List.getElem_take]
  unfold command
  dsimp only
  rw [hcmd]
  exact if_pos (UserMem.readLen_eq_iff.2 hread)

theorem flagOf_parseCommand {s : Chars} (hs : 0#8 ∉ s) (f : Flag) (old : Bool) :
    flagOf ((parseCommand s).value f) old = flagAfter f s old := by
  rw [parseCommand_value hs, flagAfter]
  cases lastValue f s with
  | none => rfl
  | some v => rfl

/-- A write that fails changes nothing. -/
theorem exec_procWrite_fails {ubuf count : ℕ} {ℓ : Local}
    (h : ¬ ℓ.user.Readable ubuf (min count (sizeofCmd - 1)) ∨ ℓ.signals.headD false = true)
    (st : Store) : (exec (mtcadummyProcWrite ubuf count) ℓ st).val < 0 ∧
      (exec (mtcadummyProcWrite ubuf count) ℓ st).store = st := by
  unfold mtcadummyProcWrite
  simp only [exec_bind, exec_copyFromUser, next_mk, exec_ite]
  by_cases hread : ℓ.user.Readable ubuf (min count (sizeofCmd - 1))
  · rw [UserMem.readLen_eq_iff.2 hread, Nat.sub_self, if_neg (fun h => h rfl), exec_lock,
      h.resolve_left (fun hn => hn hread), next_mk]
    exact ⟨show -EWOULDBLOCK < 0 by decide, rfl⟩
  · rw [if_pos (UserMem.readLeft_ne_zero fun hall => hread (UserMem.readLen_eq_iff.1 hall))]
    exact ⟨show -EFAULT < 0 by decide, rfl⟩

/-! ## The last character -/

/-- One more character ends the last token, or makes it longer. -/
theorem tokens_snoc (s : Chars) (c : Byte) : ∃ ts t, tokens s = ts ++ [t] ∧
    tokens (s ++ [c]) = if c = 0x20#8 then ts ++ [t, []] else ts ++ [t ++ [c]] := by
  induction s with
  | nil =>
    refine ⟨[], [], rfl, ?_⟩
    simp only [tokens, List.nil_append, List.splitOn_cons_eq_if_modifyHead, List.splitOn_nil,
      beq_iff_eq]
    split <;> rfl
  | cons x s ih =>
    obtain ⟨ts, t, hs, hsc⟩ := ih
    unfold tokens at hs hsc ⊢
    rw [List.cons_append, List.splitOn_cons_eq_if_modifyHead, List.splitOn_cons_eq_if_modifyHead,
      hs, hsc]
    by_cases hx : x = 0x20#8
    · refine ⟨[] :: ts, t, by simp [hx], ?_⟩
      by_cases hc : c = 0x20#8 <;> simp [hx, hc]
    · cases ts with
      | nil =>
        refine ⟨[], x :: t, by simp [hx], ?_⟩
        by_cases hc : c = 0x20#8 <;> simp [hx, hc]
      | cons t₀ ts =>
        refine ⟨(x :: t₀) :: ts, t, by simp [hx], ?_⟩
        by_cases hc : c = 0x20#8 <;> simp [hx, hc]

theorem matchLiteral_snoc {lit t rest : Chars} (h : matchLiteral lit t = some rest) (c : Byte) :
    matchLiteral lit (t ++ [c]) = some (rest ++ [c]) := by
  induction lit generalizing t with
  | nil =>
    cases h
    rfl
  | cons f lit ih =>
    cases t with
    | nil => cases h
    | cons x t =>
      rw [List.cons_append, matchLiteral]
      rw [matchLiteral] at h
      split at h
      · rename_i hf
        rw [if_pos hf]
        exact ih h
      · cases h

/-- A number stays a number when a character is added. -/
theorem scanInt_snoc {cs : Chars} (h : scanInt cs ≠ none) (c : Byte) :
    scanInt (cs ++ [c]) ≠ none := by
  have hdrop : cs.dropWhile isSpace ≠ [] := by
    intro hnil
    apply h
    rw [scanInt, hnil]
    rfl
  have hsnoc : (cs ++ [c]).dropWhile isSpace = cs.dropWhile isSpace ++ [c] := by
    rw [List.dropWhile_append, if_neg (by simpa using hdrop)]
  unfold scanInt at h ⊢
  rw [hsnoc]
  generalize cs.dropWhile isSpace = l at h hdrop ⊢
  cases l with
  | nil => exact absurd rfl hdrop
  | cons x l =>
    by_cases hx : x = 0x2D#8
    · subst hx
      cases l with
      | nil => simp at h
      | cons y l =>
        simp only [List.cons_append, List.head?_cons, Option.any_some] at h ⊢
        have hd : isDigit 10 y = true := by
          by_contra hd
          simp [hd] at h
        simp [hd]
    · split at h
      · rename_i heq
        exact absurd (List.cons.inj heq).1 hx
      · rw [List.cons_append]
        split
        · rename_i heq
          exact absurd (List.cons.inj heq).1 hx
        · simp only [List.head?_cons, Option.any_some] at h ⊢
          have hd : isDigit 10 x = true := by
            by_contra hd
            simp [hd] at h
          simp [hd]

theorem sscanf_snoc {t lit : Chars} (h : sscanf t lit ≠ none) (c : Byte) :
    sscanf (t ++ [c]) lit ≠ none := by
  unfold sscanf at h ⊢
  cases hm : matchLiteral lit t with
  | none => rw [hm] at h; exact absurd rfl h
  | some rest =>
    rw [hm] at h
    rw [matchLiteral_snoc hm c]
    exact scanInt_snoc h c

def lastToken (s : Chars) : Chars := (tokens s).getLast?.getD []

/-- The last character matters only to the option of the last token. -/
theorem lastValue_snoc (s : Chars) (c : Byte) (f : Flag) :
    lastValue f (s ++ [c]) = match sscanf (lastToken (s ++ [c])) f.literal with
      | some v => some v
      | none => lastValue f s := by
  obtain ⟨ts, t, hs, hsc⟩ := tokens_snoc s c
  have hempty : sscanf [] f.literal = none := by cases f <;> rfl
  unfold lastToken lastValue
  rw [hs, hsc]
  split
  · simp [List.filterMap_append, hempty]
  · simp only [List.filterMap_append, List.getLast?_append, List.getLast?_singleton, Option.some_or,
      Option.getD_some]
    cases ht' : sscanf (t ++ [c]) f.literal with
    | some v => simp [ht']
    | none =>
      have ht : sscanf t f.literal = none := by
        by_contra hne
        exact sscanf_snoc hne c ht'
      simp [ht, ht']

/-! ## What is honoured -/

/-- What a write of `s` asks of the flag. -/
def Asked (f : Flag) (s : Chars) (old new : Bool) : Prop :=
  match lastValue f s with
  | some v => 0 ≤ v → new = decide (v ≠ 0)
  | none => new = old

/-- The string has the full length, and its last token asks for a flag that
    the characters before the last do not bring about. -/
def Clipped (s : Chars) (st : Store) : Prop :=
  s.length = 255 ∧ ∃ f v, sscanf (lastToken s) f.literal = some v ∧ 0 ≤ v ∧
    flagAfter f (s.take 254) (st (.flag f)) ≠ decide (v ≠ 0)

/-- The write does what the string asks, or fails and changes no flag. -/
def Honoured (ubuf : ℕ) (s : Chars) (ℓ : Local) (st : Store) : Prop :=
  (ℓ.user.Readable ubuf (min s.length 254) → ℓ.signals.headD false = false →
    (exec (mtcadummyProcWrite ubuf s.length) ℓ st).val = s.length ∧
    ∀ f, Asked f s (st (.flag f))
      ((exec (mtcadummyProcWrite ubuf s.length) ℓ st).store (.flag f))) ∧
  (¬ ℓ.user.Readable ubuf (min s.length 254) ∨ ℓ.signals.headD false = true →
    (exec (mtcadummyProcWrite ubuf s.length) ℓ st).val < 0 ∧
    ∀ f, (exec (mtcadummyProcWrite ubuf s.length) ℓ st).store (.flag f) = st (.flag f))

theorem asked_flagAfter (f : Flag) (s : Chars) (old : Bool) :
    Asked f s old (flagAfter f s old) := by
  unfold Asked flagAfter
  cases lastValue f s with
  | none => rfl
  | some v =>
    intro hv
    exact if_pos (by omega)

/-- Without its last character, a string asks for the same unless it is the
    last token that asks. -/
theorem asked_snoc (f : Flag) (s : Chars) (c : Byte) (old : Bool) :
    Asked f (s ++ [c]) old (flagAfter f s old) ↔
      ∀ v, sscanf (lastToken (s ++ [c])) f.literal = some v → 0 ≤ v →
        flagAfter f s old = decide (v ≠ 0) := by
  unfold Asked
  rw [lastValue_snoc]
  cases sscanf (lastToken (s ++ [c])) f.literal with
  | some v => simp
  | none => simpa [Asked] using asked_flagAfter f s old

/-- The write is honoured if and only if its first 254 characters ask for what
    the whole string does. -/
theorem honoured_iff_asked {ubuf : ℕ} {s : Chars} {ℓ : Local} (hu : ℓ.user.Holds ubuf s)
    (hs : 0#8 ∉ s) (st : Store) : Honoured ubuf s ℓ st ↔
      (ℓ.user.Readable ubuf (min s.length 254) → ℓ.signals.headD false = false →
        ∀ f, Asked f s (st (.flag f)) (flagAfter f (s.take 254) (st (.flag f)))) := by
  have hfails : ¬ ℓ.user.Readable ubuf (min s.length 254) ∨ ℓ.signals.headD false = true →
      (exec (mtcadummyProcWrite ubuf s.length) ℓ st).val < 0 ∧
        ∀ f, (exec (mtcadummyProcWrite ubuf s.length) ℓ st).store (.flag f) = st (.flag f) :=
    fun h => ⟨(exec_procWrite_fails h st).1, fun f => congrFun (exec_procWrite_fails h st).2 _⟩
  have hnul : 0#8 ∉ s.take (sizeofCmd - 1) := fun h => hs (List.mem_of_mem_take h)
  have hexec : ℓ.user.Readable ubuf (min s.length 254) → ℓ.signals.headD false = false →
      (exec (mtcadummyProcWrite ubuf s.length) ℓ st).val = s.length ∧
      ∀ f, (exec (mtcadummyProcWrite ubuf s.length) ℓ st).store (.flag f) =
        flagAfter f (s.take 254) (st (.flag f)) := fun hread hsig => by
    rw [exec_procWrite ubuf s.length hsig st, command_of_holds hu hread]
    exact ⟨rfl, fun f => flagOf_parseCommand hnul f _⟩
  constructor
  · intro h hread hsig f
    rw [← (hexec hread hsig).2 f]
    exact (h.1 hread hsig).2 f
  · intro h
    refine ⟨fun hread hsig => ⟨(hexec hread hsig).1, fun f => ?_⟩, hfails⟩
    rw [(hexec hread hsig).2 f]
    exact h hread hsig f

/-- **A write of the documented length is honoured** unless it could be made
    and its last character is missed. -/
theorem proc_write_honoured {ubuf : ℕ} {s : Chars} {ℓ : Local} (hu : ℓ.user.Holds ubuf s)
    (hs : 0#8 ∉ s) (hlen : s.length ≤ 255) (st : Store) : Honoured ubuf s ℓ st ↔
      ¬ (ℓ.user.Readable ubuf (min s.length 254) ∧ ℓ.signals.headD false = false ∧
        Clipped s st) := by
  rw [honoured_iff_asked hu hs st]
  by_cases hfull : s.length = 255
  · obtain ⟨s', c, rfl⟩ : ∃ s' c, s = s' ++ [c] := by
      refine ⟨s.dropLast, s.getLast (List.ne_nil_of_length_pos (by omega)), ?_⟩
      exact (List.dropLast_concat_getLast _).symm
    have hlen' : s'.length = 254 := by simpa using hfull
    have htake : (s' ++ [c]).take 254 = s' := by rw [← hlen', List.take_left]
    simp only [Clipped, htake, hfull, asked_snoc, true_and, not_and, not_exists, not_not]
  · have htake : s.take 254 = s := List.take_of_length_le (by omega)
    refine ⟨fun _ h => hfull h.2.2.1, fun _ _ _ f => ?_⟩
    rw [htake]
    exact asked_flagAfter f s _

/-- A process that has written the string to its memory. -/
def commandLocal (s : Chars) : Local := { user := UserMem.ofBytes fun j => s.getD j 0 }

theorem commandLocal_holds (s : Chars) : (commandLocal s).user.Holds 0 s := fun j hj => by
  simp [commandLocal, UserMem.ofBytes, hj]

/-- All flags clear. -/
def clearFlags : Store
  | .word _ _ => 0#32
  | .flag _ => false
  | .inUse _ => 0#32

/-- `open:1`. -/
theorem proc_write_honoured_open :
    Honoured 0 (litOpen ++ [0x31#8]) (commandLocal (litOpen ++ [0x31#8])) clearFlags :=
  (proc_write_honoured (commandLocal_holds _) (by decide) (by decide) _).2
    fun h => absurd h.2.2.1 (by decide)

/-- 255 characters that end with `open:1`. -/
def fullCommand : Chars := List.replicate 249 0x20#8 ++ litOpen ++ [0x31#8]

/-- The last character is missed, and `open_error` stays clear. -/
theorem last_character_missed : fullCommand.length = 255 ∧
    ¬ Honoured 0 fullCommand (commandLocal fullCommand) clearFlags := by
  refine ⟨by decide +kernel, fun h => ?_⟩
  rw [honoured_iff_asked (commandLocal_holds _) (by decide +kernel)] at h
  have hasked := h (fun _ _ => rfl) rfl .openError
  have hvalue : lastValue .openError fullCommand = some 1 := by decide +kernel
  have hafter : flagAfter .openError (fullCommand.take 254) false = false := by decide +kernel
  rw [Asked, hvalue] at hasked
  exact absurd (hafter.symm.trans (hasked (by decide))) (by decide)

end MtcaDummy

/-
  Writes of the proc file, one after the other.

  Tokenising distributes over a space (`tokens_append`), so that the last value
  of an option in two strings is its last value in the second string, or else
  in the first.  A write merges the values with the stored flags, which comes
  to the same as one longer string if no value is negative: a negative value
  hides the ones before it in its own string only.
  `proc_writes_compose` is this for the code.
-/
import MtcaDummy.Driver.ProcFile

namespace MtcaDummy

/-! ## Strings -/

/-- No recognised option of the string has a negative value. -/
def NonNegative (s : Chars) : Prop :=
  ∀ f : Flag, ∀ v ∈ (tokens s).filterMap fun t => sscanf t f.literal, 0 ≤ v

theorem tokens_append (s s' : Chars) : tokens (s ++ 0x20#8 :: s') = tokens s ++ tokens s' :=
  List.splitOn_append_cons_self s s'

/-- The last value of two strings. -/
theorem lastValue_append (f : Flag) (s s' : Chars) :
    lastValue f (s ++ 0x20#8 :: s') = (lastValue f s').or (lastValue f s) := by
  simp only [lastValue, tokens_append, List.filterMap_append, List.getLast?_append]

theorem NonNegative.lastValue {s : Chars} (h : NonNegative s) {f : Flag} {v : ℤ}
    (hv : lastValue f s = some v) : 0 ≤ v :=
  h f v (List.mem_of_getLast? hv)

/-- A value that is not negative does not ask for the old flag. -/
theorem flagOf_congr {v : ℤ} (hv : 0 ≤ v) (old old' : Bool) : flagOf v old = flagOf v old' := by
  rw [flagOf, flagOf, if_pos (by omega), if_pos (by omega)]

theorem flagOf_flagOf (v : ℤ) (old : Bool) : flagOf v (flagOf v old) = flagOf v old := by
  unfold flagOf
  by_cases hv : v > -1
  · rw [if_pos hv, if_pos hv]
  · rw [if_neg hv, if_neg hv]

/-- **Merging twice is merging once**, for the two strings with a space. -/
theorem flagAfter_append (f : Flag) (s : Chars) {s' : Chars} (h : NonNegative s') (old : Bool) :
    flagAfter f (s ++ 0x20#8 :: s') old = flagAfter f s' (flagAfter f s old) := by
  unfold flagAfter
  rw [lastValue_append]
  cases hv : lastValue f s' with
  | none => rw [Option.none_or]
  | some v => exact flagOf_congr (h.lastValue hv) _ _

theorem flagAfter_flagAfter (f : Flag) (s : Chars) (old : Bool) :
    flagAfter f s (flagAfter f s old) = flagAfter f s old := by
  unfold flagAfter
  cases lastValue f s with
  | none => rfl
  | some v => exact flagOf_flagOf v old

/-! ## The state after a write -/

/-- The state after a write of the string. -/
def Store.command (st : Store) (s : Chars) : Store :=
  st.withFlags fun f => flagAfter f s (st (.flag f))

theorem Store.withFlags_withFlags (st : Store) (F G : Flag → Bool) :
    (st.withFlags F).withFlags G = st.withFlags G := by
  funext l
  cases l <;> rfl

theorem Store.command_append (st : Store) (s : Chars) {s' : Chars} (h : NonNegative s') :
    st.command (s ++ 0x20#8 :: s') = (st.command s).command s' := by
  unfold Store.command
  rw [Store.withFlags_withFlags]
  congr 1
  funext f
  exact flagAfter_append f s h _

theorem Store.command_command (st : Store) (s : Chars) :
    (st.command s).command s = st.command s := by
  unfold Store.command
  rw [Store.withFlags_withFlags]
  congr 1
  funext f
  exact flagAfter_flagAfter f s _

/-! ## The code -/

/-- The process has the string at `ubuf`, can read it there, and no signal
    comes while it waits for the control mutex. -/
structure Sends (ubuf : ℕ) (s : Chars) (ℓ : Local) : Prop where
  holds : ℓ.user.Holds ubuf s
  readable : ℓ.user.Readable ubuf s.length
  signal : ℓ.signals.headD false = false

/-- The shared state after a write of `count` bytes. -/
def afterProcWrite (ubuf count : ℕ) (ℓ : Local) (st : Store) : Store :=
  (exec (mtcadummyProcWrite ubuf count) ℓ st).store

theorem afterProcWrite_sends {ubuf : ℕ} {s : Chars} {ℓ : Local} (h : Sends ubuf s ℓ)
    (hs : 0#8 ∉ s) (hlen : s.length ≤ 254) (st : Store) :
    afterProcWrite ubuf s.length ℓ st = st.command s := by
  have hmin : min s.length (sizeofCmd - 1) = s.length := Nat.min_eq_left hlen
  have htake : s.take (sizeofCmd - 1) = s := List.take_of_length_le hlen
  have hread : ℓ.user.Readable ubuf (min s.length (sizeofCmd - 1)) := by
    rw [hmin]
    exact h.readable
  unfold afterProcWrite Store.command
  rw [exec_procWrite ubuf s.length h.signal st, command_of_holds h.holds hread, htake]
  simp only [flagOf_parseCommand hs]

/-- **Writes of the proc file compose**: two writes are one write of both
    strings with a space between them, and a write that is repeated does
    nothing the second time.  The processes that write may be different ones. -/
theorem proc_writes_compose {s s' : Chars} (hs : 0#8 ∉ s) (hs' : 0#8 ∉ s')
    (hlen : s.length + 1 + s'.length ≤ 254) (hpos' : NonNegative s')
    {ubuf ubuf' ubuf₂ : ℕ} {ℓ ℓ' ℓ₂ : Local} (h : Sends ubuf s ℓ) (h' : Sends ubuf' s' ℓ')
    (h₂ : Sends ubuf₂ (s ++ 0x20#8 :: s') ℓ₂) (st : Store) :
    afterProcWrite ubuf' s'.length ℓ' (afterProcWrite ubuf s.length ℓ st) =
      afterProcWrite ubuf₂ (s ++ 0x20#8 :: s').length ℓ₂ st ∧
    ∀ {ubuf₁ : ℕ} {ℓ₁ : Local}, Sends ubuf₁ s ℓ₁ →
      afterProcWrite ubuf₁ s.length ℓ₁ (afterProcWrite ubuf s.length ℓ st) =
        afterProcWrite ubuf s.length ℓ st := by
  have hnul : 0#8 ∉ s ++ 0x20#8 :: s' := by
    rw [List.mem_append, List.mem_cons]
    rintro (hm | hm | hm)
    · exact hs hm
    · exact absurd hm (by decide)
    · exact hs' hm
  have hlen₂ : (s ++ 0x20#8 :: s').length ≤ 254 := by
    rw [List.length_append, List.length_cons]
    omega
  rw [afterProcWrite_sends h hs (by omega)]
  constructor
  · rw [afterProcWrite_sends h' hs' (by omega), afterProcWrite_sends h₂ hnul hlen₂]
    exact (st.command_append s hpos').symm
  · intro ubuf₁ ℓ₁ h₁
    rw [afterProcWrite_sends h₁ hs (by omega)]
    exact st.command_command s

theorem commandLocal_sends (s : Chars) : Sends 0 s (commandLocal s) :=
  ⟨commandLocal_holds s, fun _ _ => rfl, rfl⟩

/-- `open:1`. -/
def openOn : Chars := litOpen ++ [0x31#8]

/-- `open:0`. -/
def openOff : Chars := litOpen ++ [0x30#8]

theorem nonNegative_openOff : NonNegative openOff := by
  intro f
  cases f <;> decide

/-- The flag is set, and cleared again. -/
theorem proc_writes_compose_open :
    afterProcWrite 0 openOff.length (commandLocal openOff)
        (afterProcWrite 0 openOn.length (commandLocal openOn) clearFlags) =
      afterProcWrite 0 (openOn ++ 0x20#8 :: openOff).length
        (commandLocal (openOn ++ 0x20#8 :: openOff)) clearFlags :=
  (proc_writes_compose (by decide) (by decide) (by decide) nonNegative_openOff
    (commandLocal_sends openOn) (commandLocal_sends openOff) (commandLocal_sends _) clearFlags).1

end MtcaDummy

/-
  The SPI handshake over whole runs.

  A run is a list of calls, each with what its looks at the flags see, so that
  `spi_error` may change at any time.  `Turn.wordWrites` are the words that a
  call writes to a device, in order, each with the `spi_error` that its action
  saw; the bars after the run are those after the whole history
  (`Turn.bars_run`).  `Handshake` says what holds of the three registers along
  a history.  `spi_handshake`: it holds of the history of every run of a module
  just loaded.
-/
import MtcaDummy.Driver.Writes

namespace MtcaDummy

open Conc

/-! ## Histories of word writes -/

/-- The write of a word, and the `spi_error` that its action saw. -/
structure WordWrite where
  spiFail : Bool
  bar : Bar
  index : ℕ
  value : U32

namespace WordWrite
variable (e : WordWrite)

/-- It writes the register at this address. -/
def To (addr : U32) : Prop := e.bar = .system ∧ e.index = addr.toNat / 4

instance (addr : U32) : Decidable (e.To addr) := inferInstanceAs (Decidable (_ ∧ _))

/-- It writes a word of the bar. -/
def InBar : Prop := e.index < e.bar.size / 4

/-- It starts a transfer, and the transfer succeeds. -/
def Succeeds (b : Bars) : Prop :=
  e.To wordSpiWrite ∧ b.reg wordSpiSync = spiSyncRequested ∧ e.spiFail = false

instance (b : Bars) : Decidable (e.Succeeds b) := inferInstanceAs (Decidable (_ ∧ _ ∧ _))

/-- It brings its datum to `SPI_READ`. -/
def Delivers (b : Bars) : Prop := e.To wordSpiRead ∨ e.Succeeds b

instance (b : Bars) : Decidable (e.Delivers b) := inferInstanceAs (Decidable (_ ∨ _))

end WordWrite

namespace Bars

/-- The bars after one write. -/
def after (b : Bars) (e : WordWrite) : Bars := b.write e.spiFail e.bar e.index e.value

/-- The bars after a history. -/
def writes (b : Bars) (h : List WordWrite) : Bars := h.foldl after b

@[simp] theorem writes_nil (b : Bars) : b.writes [] = b := rfl

@[simp] theorem writes_cons (b : Bars) (e : WordWrite) (h : List WordWrite) :
    b.writes (e :: h) = (b.after e).writes h := rfl

@[simp] theorem writes_append (b : Bars) (h h' : List WordWrite) :
    b.writes (h ++ h') = (b.writes h).writes h' := List.foldl_append ..

/-- The data delivered to `SPI_READ`, in order. -/
def deliveries (b : Bars) : List WordWrite → List U32
  | [] => []
  | e :: h => (if e.Delivers b then [e.value] else []) ++ (b.after e).deliveries h

end Bars

/-- **The SPI handshake** along a history of writes. -/
structure Handshake (b : Bars) (h : List WordWrite) : Prop where
  /-- `SPI_READ` is the datum delivered last. -/
  read : ∀ h₁ h₂, h = h₁ ++ h₂ →
    (b.writes h₁).reg wordSpiRead = ((b.deliveries h₁).getLast?).getD 0#32
  /-- A success consumes its request. -/
  consumed : ∀ h₁ e₁ h₂ e₂ h₃, h = h₁ ++ e₁ :: (h₂ ++ e₂ :: h₃) → e₁.Succeeds (b.writes h₁) →
    e₂.Succeeds (b.writes (h₁ ++ e₁ :: h₂)) →
    ∃ e ∈ h₂, e.To wordSpiSync ∧ e.value = spiSyncRequested
  /-- A transfer is answered in `SPI_SYNC`. -/
  answered : ∀ h₁ e h₂, h = h₁ ++ e :: h₂ → e.To wordSpiWrite →
    (e.Succeeds (b.writes h₁) → (b.writes (h₁ ++ [e])).reg wordSpiSync = spiSyncOk) ∧
    (¬ e.Succeeds (b.writes h₁) → (b.writes (h₁ ++ [e])).reg wordSpiSync = spiSyncError ∧
      (b.writes (h₁ ++ [e])).reg wordSpiRead = (b.writes h₁).reg wordSpiRead)
  /-- Other words do not matter. -/
  frame : ∀ h₁ e h₂, h = h₁ ++ e :: h₂ →
    (∀ addr ∈ [wordSpiWrite, wordSpiRead, wordSpiSync], ¬ e.To addr) →
    ∀ addr ∈ [wordSpiWrite, wordSpiRead, wordSpiSync],
      (b.writes (h₁ ++ [e])).reg addr = (b.writes h₁).reg addr

/-! ## One write -/

namespace Bars
variable {b : Bars}

/-- A register is read back as the word written. -/
theorem reg_setWord (bar : Bar) (i : ℕ) (v addr : U32) : (b.setWord bar i v).reg addr =
    if bar = .system ∧ i = addr.toNat / 4 then v else b.reg addr := by
  cases bar with
  | system => simp [reg, setWord, Function.update_apply, eq_comm]
  | dma => simp [reg, setWord]

/-- Only a write of `SPI_WRITE` makes the firmware touch the registers. -/
theorem action_reg_spi {spiFail : Bool} {offset : U32} (ho : offset ≠ wordSpiWrite) {addr : U32}
    (ha : addr ∈ [wordSpiWrite, wordSpiRead, wordSpiSync]) :
    (b.action spiFail offset).reg addr = b.reg addr := by
  simp only [List.mem_cons, List.not_mem_nil, or_false] at ha
  unfold action
  split_ifs
  · rcases ha with rfl | rfl | rfl <;> simp only [resetClocks, reg_setReg] <;> rfl
  · rfl
  · rcases ha with rfl | rfl | rfl <;> simp only [sample, reg_setReg] <;> rfl
  · rfl
  · split
    · rename_i v hv
      unfold readOnlyWord at hv
      split_ifs at hv with h₁ h₂ h₃
      · rw [h₁]; rcases ha with rfl | rfl | rfl <;> simp only [reg_setReg] <;> rfl
      · rw [h₂]; rcases ha with rfl | rfl | rfl <;> simp only [reg_setReg] <;> rfl
      · rw [h₃]; rcases ha with rfl | rfl | rfl <;> simp only [reg_setReg] <;> rfl
    · rfl

variable {e : WordWrite}

/-- A write that starts no transfer changes at most its own register. -/
theorem after_reg_of_not (he : e.InBar) (hw : ¬ e.To wordSpiWrite) {addr : U32}
    (ha : addr ∈ [wordSpiWrite, wordSpiRead, wordSpiSync]) :
    (b.after e).reg addr = if e.To addr then e.value else b.reg addr := by
  obtain ⟨spiFail, bar, i, v⟩ := e
  cases bar with
  | dma => exact reg_setWord .dma i v addr
  | system =>
    have hi : i < nRegisters * 4 / 4 := he
    have hn : nRegisters = 32 := rfl
    have ho : BitVec.ofNat 32 (4 * i) ≠ wordSpiWrite := by
      intro h
      have := congrArg BitVec.toNat h
      rw [BitVec.toNat_ofNat, Nat.mod_eq_of_lt (by omega)] at this
      have haddr : wordSpiWrite.toNat = 80 := rfl
      refine hw ⟨rfl, ?_⟩
      dsimp only
      omega
    exact (action_reg_spi ho ha).trans (reg_setWord .system i v addr)

/-- A write of `SPI_WRITE` is the transfer. -/
theorem after_of_to (hw : e.To wordSpiWrite) :
    b.after e = (b.setReg wordSpiWrite e.value).spiTransfer e.spiFail := by
  obtain ⟨spiFail, bar, i, v⟩ := e
  obtain ⟨rfl, rfl⟩ : bar = .system ∧ i = 20 := hw
  rfl

theorem after_of_succeeds (h : e.Succeeds b) :
    b.after e = ((b.setReg wordSpiWrite e.value).setReg wordSpiRead e.value).setReg wordSpiSync
      spiSyncOk := by
  have hsync : (b.setReg wordSpiWrite e.value).reg wordSpiSync = spiSyncRequested :=
    (reg_setReg b _ _ _).trans h.2.1
  have hval : (b.setReg wordSpiWrite e.value).reg wordSpiWrite = e.value :=
    (reg_setReg b _ _ _).trans (if_pos rfl)
  rw [after_of_to h.1, spiTransfer, if_pos ⟨hsync, h.2.2⟩, hval]

theorem after_of_fails (hw : e.To wordSpiWrite) (h : ¬ e.Succeeds b) :
    b.after e = (b.setReg wordSpiWrite e.value).setReg wordSpiSync spiSyncError := by
  have hsync : (b.setReg wordSpiWrite e.value).reg wordSpiSync = b.reg wordSpiSync :=
    reg_setReg b _ _ _
  rw [after_of_to hw, spiTransfer, if_neg]
  rw [hsync]
  exact fun h' => h ⟨hw, h'⟩

theorem not_to_of_to {addr addr' : U32} (h : e.To addr) (hne : addr.toNat / 4 ≠ addr'.toNat / 4) :
    ¬ e.To addr' := fun h' => hne (h.2.symm.trans h'.2)

/-- What one write does to `SPI_READ`. -/
theorem after_reg_read (he : e.InBar) :
    (b.after e).reg wordSpiRead = if e.Delivers b then e.value else b.reg wordSpiRead := by
  by_cases hw : e.To wordSpiWrite
  · have hr : ¬ e.To wordSpiRead := not_to_of_to hw (by decide)
    by_cases hs : e.Succeeds b
    · rw [after_of_succeeds hs, if_pos (.inr hs)]
      rfl
    · have hd : ¬ e.Delivers b := not_or.2 ⟨hr, hs⟩
      rw [after_of_fails hw hs, if_neg hd, reg_setReg, reg_setReg]
      rfl
  · rw [after_reg_of_not he hw (by simp)]
    have hs : ¬ e.Succeeds b := fun h => hw h.1
    by_cases hr : e.To wordSpiRead
    · rw [if_pos hr, if_pos (.inl hr)]
    · have hd : ¬ e.Delivers b := not_or.2 ⟨hr, hs⟩
      rw [if_neg hr, if_neg hd]

/-- A request is there only if it was before, or was written. -/
theorem requested_of_after (he : e.InBar)
    (h : (b.after e).reg wordSpiSync = spiSyncRequested) :
    (e.To wordSpiSync ∧ e.value = spiSyncRequested) ∨ b.reg wordSpiSync = spiSyncRequested := by
  by_cases hw : e.To wordSpiWrite
  · by_cases hs : e.Succeeds b
    · exact .inr hs.2.1
    · rw [after_of_fails hw hs, reg_setReg, if_pos rfl] at h
      exact absurd h (by decide)
  · rw [after_reg_of_not he hw (by simp)] at h
    by_cases hy : e.To wordSpiSync
    · rw [if_pos hy] at h
      exact .inl ⟨hy, h⟩
    · rw [if_neg hy] at h
      exact .inr h

/-! ## Histories -/

theorem writes_reg_read {h : List WordWrite} (hh : ∀ e ∈ h, e.InBar) (b : Bars) :
    (b.writes h).reg wordSpiRead = ((b.deliveries h).getLast?).getD (b.reg wordSpiRead) := by
  induction h generalizing b with
  | nil => rfl
  | cons e h ih =>
    rw [writes_cons, ih (fun e' he' => hh e' (List.mem_cons_of_mem _ he')),
      after_reg_read (hh e List.mem_cons_self), deliveries]
    cases hd : ((b.after e).deliveries h).getLast? with
    | none =>
      rw [List.getLast?_eq_none_iff] at hd
      rw [hd]
      split <;> rfl
    | some v => simp [List.getLast?_append, hd]

theorem requested_of_writes {h : List WordWrite} (hh : ∀ e ∈ h, e.InBar) {b : Bars}
    (hb : b.reg wordSpiSync ≠ spiSyncRequested)
    (hr : (b.writes h).reg wordSpiSync = spiSyncRequested) :
    ∃ e ∈ h, e.To wordSpiSync ∧ e.value = spiSyncRequested := by
  induction h generalizing b with
  | nil => exact absurd hr hb
  | cons e h ih =>
    have hh' : ∀ e' ∈ h, e'.InBar := fun e' he' => hh e' (List.mem_cons_of_mem _ he')
    by_cases hreq : (b.after e).reg wordSpiSync = spiSyncRequested
    · rcases requested_of_after (hh e List.mem_cons_self) hreq with he | he
      · exact ⟨e, List.mem_cons_self, he⟩
      · exact absurd he hb
    · obtain ⟨e', he', hto⟩ := ih hh' hreq hr
      exact ⟨e', List.mem_cons_of_mem _ he', hto⟩

/-- **The handshake holds along every history** that starts with `SPI_READ`
    clear. -/
theorem handshake {h : List WordWrite} (hh : ∀ e ∈ h, e.InBar) (hb : b.reg wordSpiRead = 0#32) :
    Handshake b h := by
  refine ⟨?_, ?_, ?_, ?_⟩
  · rintro h₁ h₂ rfl
    rw [writes_reg_read (fun e he => hh e (List.mem_append_left _ he)), hb]
  · rintro h₁ e₁ h₂ e₂ h₃ rfl hs₁ hs₂
    rw [writes_append, writes_cons] at hs₂
    refine requested_of_writes (fun e he => hh e (by simp [he])) ?_ hs₂.2.1
    rw [after_of_succeeds hs₁, reg_setReg, if_pos rfl]
    decide
  · rintro h₁ e h₂ rfl hw
    rw [writes_append, writes_cons, writes_nil]
    refine ⟨fun hs => ?_, fun hs => ?_⟩
    · rw [after_of_succeeds hs, reg_setReg, if_pos rfl]
    · rw [after_of_fails hw hs]
      refine ⟨by rw [reg_setReg, if_pos rfl], ?_⟩
      rw [reg_setReg, reg_setReg]
      rfl
  · rintro h₁ e h₂ rfl hne addr ha
    rw [writes_append, writes_cons, writes_nil,
      after_reg_of_not (hh e (by simp)) (hne _ (by simp)) ha, if_neg (hne addr ha)]

end Bars

/-! ## Runs -/

/-- A call, its local state, and the stores that its looks at the flags see. -/
structure Turn (N : ℕ) where
  entry : Entry N
  loc : Local
  flags : ℕ → Store

/-- The writes of the words from word `w + i` of a bar on, up to the first that
    is rejected. -/
def blockWrites (spiFail : ℕ → Bool) (bar : Bar) (w : ℕ) (copy : ℕ → U32 × Bool) :
    ℕ → ℕ → List WordWrite
  | 0, _ => []
  | k + 1, i => ⟨spiFail i, bar, w + i, (copy i).1⟩ ::
      if bar.rejects (w + i) then [] else blockWrites spiFail bar w copy k (i + 1)

namespace Turn
variable {N : ℕ} (t : Turn N)

/-- The store after the call. -/
def run (B : Board N) (s : Store) : Store :=
  (execWith t.flags (t.entry.body B) 0 t.loc s).1.store

/-- The words of device `d` that the call writes. -/
def wordWrites (d : Fin N) : List WordWrite :=
  match t.entry with
  | .write d' buf count =>
    if d' = d ∧ t.flags 0 (.flag .writeError) = false then
      match structWord t.loc.user buf (min count maxRwCount) with
      | none => []
      | some (bar, i, v) => [⟨t.flags 1 (.flag .spiError), bar, i, v⟩]
    else []
  | .writeNoStruct d' buf count =>
    if d' = d ∧ t.flags 0 (.flag .writeError) = false then
      match span (min count maxRwCount) t.loc.fPos with
      | .error _ => []
      | .ok x => blockWrites (fun i => t.flags (i + 1) (.flag .spiError)) x.bar x.first
          (t.loc.user.copyWord buf) x.words 0
    else []
  | _ => []

/-- If the call writes to device `d`, no lock attempt is interrupted, and the
    words it writes can be copied from the user. -/
def Undisturbed (d : Fin N) : Prop :=
  match t.entry with
  | .write d' _ _ => d' = d → t.loc.signals = []
  | .writeNoStruct d' buf _ => d' = d → t.loc.signals = [] ∧
      ∀ i < (t.wordWrites d).length, (t.loc.user.copyWord buf i).2 = true
  | _ => True

end Turn

/-- The store after a run. -/
def runTurns {N : ℕ} (B : Board N) (ts : List (Turn N)) (s : Store) : Store :=
  ts.foldl (fun s t => t.run B s) s

/-- The words of device `d` written in a run. -/
def history {N : ℕ} (ts : List (Turn N)) (d : Fin N) : List WordWrite :=
  ts.flatMap fun t => t.wordWrites d

/-- The bars after a block are those after its writes. -/
theorem block_bars {spiFail : ℕ → Bool} {bar : Bar} {w : ℕ} {copy : ℕ → U32 × Bool} {k i : ℕ}
    (b : Bars) (hcopy : ∀ j < (blockWrites spiFail bar w copy k i).length,
      (copy (i + j)).2 = true) :
    (Bars.block spiFail bar w copy k i b).bars =
      b.writes (blockWrites spiFail bar w copy k i) := by
  induction k generalizing i b with
  | zero => rfl
  | succ k ih =>
    have hwhole : (copy i).2 = true := hcopy 0 (Nat.zero_lt_succ _)
    rw [Bars.block, hwhole, blockWrites]
    simp only [Bool.not_true, Bool.false_eq_true, if_false, Bars.writes_cons]
    cases hrej : bar.rejects (w + i) with
    | true => rfl
    | false =>
      simp only [Bool.false_eq_true, if_false]
      refine ih _ fun j hj => ?_
      have := hcopy (j + 1) (by simpa [blockWrites, hrej] using hj)
      rwa [show i + (j + 1) = i + 1 + j by omega] at this

theorem blockWrites_inBar {spiFail : ℕ → Bool} {bar : Bar} {w : ℕ} {copy : ℕ → U32 × Bool}
    {k i : ℕ} (hk : w + i + k ≤ bar.size / 4) :
    ∀ e ∈ blockWrites spiFail bar w copy k i, e.InBar := by
  induction k generalizing i with
  | zero => exact fun e he => nomatch he
  | succ k ih =>
    intro e he
    rcases List.mem_cons.1 he with rfl | he
    · change w + i < bar.size / 4
      omega
    · split at he
      · cases he
      · exact ih (by omega) e he

theorem structWord_inBar {u : UserMem} {buf count i : ℕ} {bar : Bar} {v : U32}
    (h : structWord u buf count = some (bar, i, v)) : i < bar.size / 4 := by
  unfold structWord at h
  dsimp only at h
  split_ifs at h
  obtain ⟨x, hx, he⟩ := Option.map_eq_some_iff.1 h
  unfold DeviceRw.word at hx
  split at hx
  · cases hx
  · rename_i bar' _
    split_ifs at hx with hoff
    cases hx
    cases he
    have h4 : bar'.size % 4 = 0 := by cases bar' <;> rfl
    dsimp only
    omega

section
variable {N : ℕ} {B : Board N} {d : Fin N} {t : Turn N}

theorem Turn.wordWrites_inBar : ∀ e ∈ t.wordWrites d, e.InBar := by
  intro e he
  unfold Turn.wordWrites at he
  split at he
  · split_ifs at he
    · split at he
      · cases he
      · rename_i hword
        rw [List.mem_singleton.1 he]
        exact structWord_inBar hword
    · cases he
  · split_ifs at he
    · split at he
      · cases he
      · rename_i x hspan
        exact blockWrites_inBar (span_le hspan) e he
    · cases he
  · cases he

/-- A call that writes no word of the device leaves its bars alone. -/
theorem Turn.bars_run_other {s : Store} (h : (t.entry.body B t.loc).All fun i => ∀ l, i.Writes l →
      ¬ ∃ b j, l = .word b j ∧ B.IsBar d b) : B.bars d (t.run B s) = B.bars d s := by
  have hframe : ∀ b j, B.IsBar d b → t.run B s (.word b j) = s (.word b j) := fun b j hb =>
    Prog.execWith_frame (h.mono fun i hi hw => hi _ hw ⟨b, j, rfl, hb⟩) 0 s
  simp only [Board.bars, Bars.mk.injEq]
  exact ⟨funext fun j => hframe _ j (.inl rfl), funext fun j => hframe _ j (.inr rfl)⟩

/-- **The bars after a call are those after its word writes.** -/
theorem Turn.bars_run (ht : t.Undisturbed d) (s : Store) :
    B.bars d (t.run B s) = (B.bars d s).writes (t.wordWrites d) := by
  obtain ⟨entry, loc, flags⟩ := t
  -- a call that does not write to the device
  have hother : ∀ d' : Fin N, entry.device = some d' → ((d : ℕ) ≠ d' ∨ entry.effect ≠ .bars) →
      B.bars d (Turn.run ⟨entry, loc, flags⟩ B s) = B.bars d s := fun d' hd' hne =>
    Turn.bars_run_other (Entry.writes_no_bar d.isLt hd' hne loc)
  cases entry with
  | write d' buf count =>
    by_cases hd : d' = d
    · subst hd
      have hsig : loc.signals = [] := ht rfl
      have hexec := execWith_write (B := B) d'.isLt (b := B.bars d' s) hsig (o := flags) buf
        (min count maxRwCount) s
      rw [put_bars] at hexec
      have hrun : Turn.run ⟨.write d' buf count, loc, flags⟩ B s =
          B.put d' ((B.bars d' s).structWrite flags loc.user buf (min count maxRwCount)).2 s :=
        congrArg Outcome.store hexec
      rw [hrun, bars_put d'.isLt]
      unfold Bars.structWrite Turn.wordWrites
      dsimp only
      by_cases hflag : flags 0 (.flag .writeError) = true
      · simp [hflag]
      · have hclear : flags 0 (.flag .writeError) = false := eq_false_of_ne_true hflag
        simp only [hclear, Bool.false_eq_true, if_false, and_self, if_true]
        cases structWord loc.user buf (min count maxRwCount) with
        | none => rfl
        | some x => rfl
    · have hne : (d : ℕ) ≠ d' := fun h => hd (Fin.ext h.symm)
      rw [hother d' rfl (.inl hne)]
      simp [Turn.wordWrites, hd]
  | writeNoStruct d' buf count =>
    by_cases hd : d' = d
    · subst hd
      obtain ⟨hsig, hcopy⟩ := ht rfl
      have hcount : min count maxRwCount < 2 ^ 32 :=
        (Nat.min_le_right _ _).trans_lt (by decide)
      have hexec := execWith_writeNoStruct (B := B) d'.isLt (b := B.bars d' s) buf hcount hsig
        (o := flags) s
      rw [put_bars] at hexec
      have hrun : Turn.run ⟨.writeNoStruct d' buf count, loc, flags⟩ B s =
          B.put d' ((B.bars d' s).noStructWrite flags loc.user buf (min count maxRwCount)
            loc.fPos).2.2 s :=
        congrArg Outcome.store hexec
      rw [hrun, bars_put d'.isLt]
      unfold Turn.wordWrites at hcopy ⊢
      unfold Bars.noStructWrite
      dsimp only at hcopy ⊢
      by_cases hflag : flags 0 (.flag .writeError) = true
      · simp [hflag]
      · have hclear : flags 0 (.flag .writeError) = false := eq_false_of_ne_true hflag
        simp only [hclear, Bool.false_eq_true, if_false, and_self, if_true] at hcopy ⊢
        cases hspan : span (min count maxRwCount) loc.fPos with
        | error e => rfl
        | ok x =>
          simp only [hspan] at hcopy ⊢
          exact block_bars _ fun j hj => by rw [Nat.zero_add]; exact hcopy j hj
    · have hne : (d : ℕ) ≠ d' := fun h => hd (Fin.ext h.symm)
      rw [hother d' rfl (.inl hne)]
      simp [Turn.wordWrites, hd]
  | procWrite ubuf count =>
    refine Turn.bars_run_other ((every_procWrite ubuf _ loc).mono fun i hi l hl => ?_)
    rintro ⟨b, j, rfl, -⟩
    obtain ⟨f, hf⟩ := hi _ hl.touches
    cases hf
  | _ => exact hother _ rfl (.inr fun h => by cases h)

/-- The bars after a run are those after its history. -/
theorem bars_runTurns {ts : List (Turn N)} (hts : ∀ t ∈ ts, t.Undisturbed d) (s : Store) :
    B.bars d (runTurns B ts s) = (B.bars d s).writes (history ts d) := by
  induction ts generalizing s with
  | nil => rfl
  | cons t ts ih =>
    have hrest := ih (fun t' ht' => hts t' (List.mem_cons_of_mem _ ht')) (t.run B s)
    rw [Turn.bars_run (hts t List.mem_cons_self)] at hrest
    rw [history, List.flatMap_cons, Bars.writes_append]
    exact hrest

end

/-- **The SPI handshake over whole runs.**  The bars of a device after a run of
    a module just loaded are those after its history of word writes, and the
    handshake holds along this history. -/
theorem spi_handshake {N : ℕ} {k : Outcomes} {mem : Ptr → ℕ → U32}
    (hl : (loaded N k mem).1 = 0) (hN : N ≤ 2 ^ 32) (d : Fin N) {ts : List (Turn N)}
    (hts : ∀ t ∈ ts, t.Undisturbed d) :
    (Board.loaded hl hN).bars d (runTurns (Board.loaded hl hN) ts (loaded N k mem).2.store) =
        ((Board.loaded hl hN).bars d (loaded N k mem).2.store).writes (history ts d) ∧
      Handshake ((Board.loaded hl hN).bars d (loaded N k mem).2.store) (history ts d) := by
  refine ⟨bars_runTurns hts _, Bars.handshake (fun e he => ?_) ?_⟩
  · obtain ⟨t, -, he⟩ := List.mem_flatMap.1 he
    exact t.wordWrites_inBar e he
  · rw [(loaded_ready hl).store]
    exact readyStore_bar (Board.loaded_data hl hN) mem d.isLt
      (by decide : wordSpiRead.toNat / 4 < Bar.size .system / 4)

/-- A struct write of a register of bar 0 of the first device. -/
def writeTurn (addr v : U32) : Turn nrDevs where
  entry := .write ⟨0, nrDevs_pos⟩ 0 sizeofDeviceRw
  loc := { user := UserMem.ofBytes (DeviceRw.bytes ⟨addr, v, rwD32, 0#32, 0#32, 0#32⟩) }
  flags := fun _ l => match l with
    | .word _ _ => 0#32
    | .flag _ => false
    | .inUse _ => 0#32

theorem wordWrites_writeTurn {addr : U32} (ha : addr.toNat % 4 = 0) (hlt : addr.toNat < 128)
    (v : U32) :
    (writeTurn addr v).wordWrites 0 = [⟨false, .system, addr.toNat / 4, v⟩] := by
  have hsize : Bar.size .system = 128 := rfl
  have hword : structWord (writeTurn addr v).loc.user 0 (min sizeofDeviceRw maxRwCount) =
      some (.system, addr.toNat / 4, v) := by
    refine (structWord_of_request (UserMem.ofBytes_request _) (by decide) rfl).trans ?_
    have hbar : Bar.ofNumber 0#32 = some .system := rfl
    simp only [DeviceRw.word, hbar]
    rw [if_neg (by rw [hsize]; omega)]
    rfl
  have hzero : (⟨0, nrDevs_pos⟩ : Fin nrDevs) = 0 := rfl
  unfold Turn.wordWrites
  simp only [writeTurn] at hword ⊢
  simp only [hword, hzero, and_self, if_true]

/-- A request, and a transfer that succeeds. -/
theorem spi_handshake_transfer :
    (loadedBoard.bars (0 : Fin nrDevs) (runTurns loadedBoard
      [writeTurn wordSpiSync spiSyncRequested, writeTurn wordSpiWrite 42#32]
      (loaded nrDevs .success fun _ _ => 0#32).2.store)).reg wordSpiRead = 42#32 := by
  have hhist : history [writeTurn wordSpiSync spiSyncRequested, writeTurn wordSpiWrite 42#32] 0 =
      [⟨false, .system, 22, spiSyncRequested⟩, ⟨false, .system, 20, 42#32⟩] := by
    simp only [history, List.flatMap_cons, List.flatMap_nil]
    rw [wordWrites_writeTurn (by decide) (by decide), wordWrites_writeTurn (by decide) (by decide)]
    rfl
  have hundisturbed : ∀ t ∈ [writeTurn wordSpiSync spiSyncRequested,
      writeTurn wordSpiWrite 42#32], t.Undisturbed 0 := by
    intro t ht
    simp only [List.mem_cons, List.not_mem_nil, or_false] at ht
    rcases ht with rfl | rfl <;> exact fun _ => rfl
  obtain ⟨hbars, hshake⟩ := spi_handshake (loaded_success nrDevs fun _ _ => 0#32) (by decide) 0
    hundisturbed
  rw [loadedBoard, hbars]
  have hread := hshake.read _ [] (List.append_nil _).symm
  rw [hhist] at hread ⊢
  generalize Board.bars _ _ _ = b at hread ⊢
  -- the second write is the delivery
  have hsucc : WordWrite.Succeeds ⟨false, .system, 20, 42#32⟩
      (b.after ⟨false, .system, 22, spiSyncRequested⟩) := by
    refine ⟨⟨rfl, rfl⟩, ?_, rfl⟩
    have hbar : WordWrite.InBar ⟨false, .system, 22, spiSyncRequested⟩ :=
      show 22 < 32 by decide
    rw [Bars.after_reg_of_not hbar (by decide) (by simp)]
    rfl
  have hdel : WordWrite.Delivers ⟨false, .system, 20, 42#32⟩
      (b.after ⟨false, .system, 22, spiSyncRequested⟩) := .inr hsucc
  rw [hread, Bars.deliveries, Bars.deliveries, Bars.deliveries, if_pos hdel]
  simp

end MtcaDummy

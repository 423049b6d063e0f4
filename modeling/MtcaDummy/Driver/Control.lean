/-
  A write of the proc file while a device is written.

  A write samples `write_error` and `spi_error` in two sections of the control
  mutex, and a write of the proc file may set both in between.  What the device
  write does depends on these two samples only (`Bars.outcome_congr`).  The
  mixture of the old `write_error` and the new `spi_error` differs from both
  the old and the new outcome exactly if the write starts an SPI transfer that
  was requested, `write_error` changes from clear to set, and `spi_error`
  changes (`Mixes`).  `control_write_at_once`: in all other cases, every
  interleaving has one of the two outcomes.
-/
import MtcaDummy.Driver.Calls
import MtcaDummy.Driver.ProcFile
import MtcaDummy.Driver.Spi

namespace MtcaDummy

open Conc

variable {N : ℕ}

/-! ## What a write depends on -/

/-- The call writes to the device. -/
def Entry.WritesTo (e : Entry N) (d : Fin N) : Prop :=
  (∃ buf count, e = .write d buf count) ∨ ∃ buf count, e = .writeNoStruct d buf count

/-- The return value of a write and the bars after it, if its looks at the
    flags see `o`. -/
def Bars.outcome (b : Bars) (e : Entry N) (ℓ : Local) (o : ℕ → Store) : ℤ × Bars :=
  match e with
  | .write _ buf count => b.structWrite o ℓ.user buf (min count maxRwCount)
  | .writeNoStruct _ buf count =>
    ((b.noStructWrite o ℓ.user buf (min count maxRwCount) ℓ.fPos).1,
      (b.noStructWrite o ℓ.user buf (min count maxRwCount) ℓ.fPos).2.2)
  | _ => (0, b)

/-- The write begins with `SPI_WRITE`, and does not go on to overwrite both
    other registers of the SPI. -/
def Entry.StartsTransfer (e : Entry N) (ℓ : Local) : Prop :=
  match e with
  | .write _ buf count => ∃ v,
    structWord ℓ.user buf (min count maxRwCount) = some (.system, wordSpiWrite.toNat / 4, v)
  | .writeNoStruct _ buf count => ∃ t, span (min count maxRwCount) ℓ.fPos = .ok t ∧
    t.bar = .system ∧ t.first = wordSpiWrite.toNat / 4 ∧ 0 < t.words ∧
    (ℓ.user.copyWord buf 0).2 = true ∧ ¬ (3 ≤ t.words ∧ (ℓ.user.copyWord buf 1).2 = true)
  | _ => False

namespace Bars
variable {b : Bars}

/-- `spi_error` matters only to a transfer that was requested. -/
theorem write_spi {bar : Bar} {i : ℕ} (v : U32) (hi : i < bar.size / 4)
    (h : bar = .system → i = wordSpiWrite.toNat / 4 → b.reg wordSpiSync ≠ spiSyncRequested)
    (f f' : Bool) : b.write f bar i v = b.write f' bar i v := by
  have hafter : ∀ f, b.write f bar i v = b.after ⟨f, bar, i, v⟩ := fun _ => rfl
  cases bar with
  | dma => rfl
  | system =>
    by_cases hw : i = wordSpiWrite.toNat / 4
    · rw [hafter, hafter, after_of_fails ⟨rfl, hw⟩ fun hs => h rfl hw hs.2.1,
        after_of_fails ⟨rfl, hw⟩ fun hs => h rfl hw hs.2.1]
    · have hsize : Bar.size .system = 128 := rfl
      have hoff : BitVec.ofNat 32 (4 * i) ≠ wordSpiWrite := by
        intro he
        have hnat := congrArg BitVec.toNat he
        rw [BitVec.toNat_ofNat, Nat.mod_eq_of_lt (by omega)] at hnat
        exact hw (by rw [← hnat]; omega)
      simp only [write, action, hoff, if_false]

variable {bar : Bar} {w k i : ℕ} {copy : ℕ → U32 × Bool} {f f' : ℕ → Bool}

/-- A block that does not contain `SPI_WRITE`. -/
theorem block_spi_of_ne (f f' : ℕ → Bool) (hk : w + i + k ≤ bar.size / 4)
    (h : bar = .system → ∀ j, i ≤ j → j < i + k → w + j ≠ wordSpiWrite.toNat / 4) :
    block f bar w copy k i b = block f' bar w copy k i b := by
  induction k generalizing i b with
  | zero => rfl
  | succ k ih =>
    have hwrite := write_spi (b := b) (i := w + i) (copy i).1 (by omega)
      (fun hbar he => absurd he (h hbar i (Nat.le_refl i) (by omega))) (f i) (f' i)
    rw [block, block, hwrite, ih (by omega) fun hbar j hj hlt => h hbar j (by omega) (by omega)]

/-- A block that begins before the broken registers does not get there. -/
theorem block_spi_of_lt (hk : w + i + k ≤ Bar.size .system / 4)
    (hlt : w + i < wordSpiWrite.toNat / 4) :
    block f .system w copy k i b = block f' .system w copy k i b := by
  induction k generalizing i b with
  | zero => rfl
  | succ k ih =>
    have h20 : wordSpiWrite.toNat / 4 = 20 := rfl
    have hwrite := write_spi (b := b) (copy i).1 (by omega : w + i < Bar.size .system / 4)
      (fun _ he => by omega) (f i) (f' i)
    rw [block, block, hwrite]
    by_cases hrej : Bar.rejects .system (w + i) = true
    · rw [hrej]
      rfl
    · have hne : w + i ≠ 19 := fun he => hrej (by rw [he]; rfl)
      rw [ih (by omega) (by omega)]

variable (copy f f')

/-- **What `spi_error` decides is decided at the first word.** -/
theorem block_spi (hk : w + k ≤ bar.size / 4) (h : f 0 = f' 0) :
    block f bar w copy k 0 b = block f' bar w copy k 0 b := by
  have h20 : wordSpiWrite.toNat / 4 = 20 := rfl
  cases bar with
  | dma => exact block_spi_of_ne _ _ hk nofun
  | system =>
    rcases Nat.lt_trichotomy w 20 with hw | rfl | hw
    · exact block_spi_of_lt hk hw
    · cases k with
      | zero => rfl
      | succ k =>
        rw [block, block, h, block_spi_of_ne f f' (by omega) fun _ j hj _ => by omega]
    · exact block_spi_of_ne _ _ hk fun _ j _ _ => by omega

/-- The block is the same for both values if no transfer was requested, or if
    it overwrites what the transfer brought about. -/
theorem block_spi_idle (hk : w + k ≤ bar.size / 4)
    (h : ¬ (b.reg wordSpiSync = spiSyncRequested ∧ bar = .system ∧
      w = wordSpiWrite.toNat / 4 ∧ 0 < k ∧ (copy 0).2 = true ∧
      ¬ (3 ≤ k ∧ (copy 1).2 = true))) :
    block f bar w copy k 0 b = block f' bar w copy k 0 b := by
  have h20 : wordSpiWrite.toNat / 4 = 20 := rfl
  by_cases hbar : bar = .system ∧ w = 20
  swap
  · cases bar with
    | dma => exact block_spi_of_ne _ _ hk nofun
    | system =>
      have hw : w ≠ 20 := fun he => hbar ⟨rfl, he⟩
      rcases Nat.lt_or_gt_of_ne hw with hw | hw
      · exact block_spi_of_lt hk hw
      · exact block_spi_of_ne _ _ hk fun _ j _ _ => by omega
  obtain ⟨rfl, rfl⟩ := hbar
  cases k with
  | zero => rfl
  | succ k =>
    by_cases hcopy : (copy 0).2 = true
    swap
    · rw [block, block]
      simp [hcopy]
    by_cases hreq : b.reg wordSpiSync = spiSyncRequested
    swap
    · have hwrite := write_spi (b := b) (copy 0).1 (by decide : 20 < Bar.size .system / 4)
        (fun _ _ => hreq) (f 0) (f' 0)
      rw [block, block, Nat.add_zero, hwrite,
        block_spi_of_ne f f' (by omega) fun _ j hj _ => by omega]
    have hover : 3 ≤ k + 1 ∧ (copy 1).2 = true := by
      by_contra hno
      exact h ⟨hreq, rfl, rfl, Nat.zero_lt_succ k, hcopy, hno⟩
    obtain ⟨k, rfl⟩ : ∃ k', k = k' + 2 := ⟨k - 2, by omega⟩
    have hrej : Bar.rejects .system (20 + 0) = false ∧ Bar.rejects .system (20 + 1) = false ∧
        Bar.rejects .system (20 + 2) = false := ⟨rfl, rfl, rfl⟩
    -- after three words nothing is left of the transfer
    have hset : ∀ (f : Bool) (g h : Bool) (v₁ v₂ : U32),
        ((b.write f .system 20 (copy 0).1).setWord .system 21 v₁).setWord .system 22 v₂ =
          ((b.setWord .system 20 (copy 0).1).setWord .system 21 v₁).setWord .system 22 v₂ := by
      intro f _ _ v₁ v₂
      have hread : wordSpiRead.toNat / 4 = 21 := rfl
      have hsync : wordSpiSync.toNat / 4 = 22 := rfl
      have hwr : b.write f .system 20 (copy 0).1 =
          (b.setWord .system 20 (copy 0).1).spiTransfer f := rfl
      rw [hwr, spiTransfer]
      split <;> simp only [setWord, setReg, hread, hsync, Bars.mk.injEq, and_true] <;>
        (funext j; simp only [Function.update_apply]; split_ifs <;> rfl)
    have hplain : ∀ (b : Bars) (f : Bool) (v : U32),
        b.write f .system 21 v = b.setWord .system 21 v :=
      fun _ _ _ => rfl
    have hplain' : ∀ (b : Bars) (f : Bool) (v : U32),
        b.write f .system 22 v = b.setWord .system 22 v := fun _ _ _ => rfl
    rw [block, block, block, block, block, block]
    simp only [hcopy, hover.2, hrej, Bool.not_true, Bool.false_eq_true, if_false, Nat.add_zero,
      Nat.zero_add, Nat.reduceAdd, hplain, hplain']
    rw [hset (f 0) true true, hset (f' 0) true true,
      block_spi_of_ne f f' (by omega) fun _ j hj _ => by omega]

/-! ## Two samples -/

variable {N : ℕ} {e : Entry N} {ℓ : Local} {o o' : ℕ → Store}

/-- The outcome of a write depends on the first look, and on `spi_error` in the
    second. -/
theorem outcome_congr (h₀ : o 0 (.flag .writeError) = o' 0 (.flag .writeError))
    (h₁ : o 1 (.flag .spiError) = o' 1 (.flag .spiError)) :
    b.outcome e ℓ o = b.outcome e ℓ o' := by
  cases e with
  | write d buf count => simp only [outcome, structWrite, h₀, h₁]
  | writeNoStruct d buf count =>
    simp only [outcome, noStructWrite, h₀]
    cases hspan : span (min count maxRwCount) ℓ.fPos with
    | error err => rfl
    | ok t =>
      have hblock := block_spi (b := b) (ℓ.user.copyWord buf)
        (fun i => o (i + 1) (.flag .spiError)) (fun i => o' (i + 1) (.flag .spiError))
        (span_le hspan) h₁
      simp only [hblock]
  | _ => rfl

/-- If `write_error` is seen set, the write fails. -/
theorem outcome_of_writeError (hw : o 0 (.flag .writeError) = true)
    (he : ∃ d, e.WritesTo d) : b.outcome e ℓ o = (-EFAULT, b) := by
  rcases he with ⟨d, ⟨buf, count, rfl⟩ | ⟨buf, count, rfl⟩⟩
  · simp [outcome, structWrite, hw]
  · simp [outcome, noStructWrite, hw]

/-- `spi_error` does not matter if no transfer was requested or started. -/
theorem outcome_of_idle (h₀ : o 0 (.flag .writeError) = o' 0 (.flag .writeError))
    (h : ¬ (b.reg wordSpiSync = spiSyncRequested ∧ e.StartsTransfer ℓ)) :
    b.outcome e ℓ o = b.outcome e ℓ o' := by
  cases e with
  | write d buf count =>
    simp only [outcome, structWrite, h₀]
    cases hword : structWord ℓ.user buf (min count maxRwCount) with
    | none => rfl
    | some x =>
      obtain ⟨bar, i, v⟩ := x
      have hwrite := write_spi (b := b) v (structWord_inBar hword)
        (fun hbar hi hreq => h ⟨hreq, v, by rw [hword, hbar, hi]⟩) (o 1 (.flag .spiError))
        (o' 1 (.flag .spiError))
      simp only [hwrite]
  | writeNoStruct d buf count =>
    simp only [outcome, noStructWrite, h₀]
    cases hspan : span (min count maxRwCount) ℓ.fPos with
    | error err => rfl
    | ok t =>
      have hblock := block_spi_idle (b := b) (ℓ.user.copyWord buf)
        (fun i => o (i + 1) (.flag .spiError)) (fun i => o' (i + 1) (.flag .spiError))
        (span_le hspan) fun hx => h ⟨hx.1, t, hspan, hx.2⟩
      simp only [hblock]
  | _ => rfl

/-- The transfer answers in `SPI_SYNC`. -/
theorem outcome_of_starts (h₀ : o 0 (.flag .writeError) = false)
    (hreq : b.reg wordSpiSync = spiSyncRequested) (hstarts : e.StartsTransfer ℓ) :
    (b.outcome e ℓ o).2.reg wordSpiSync =
      if o 1 (.flag .spiError) then spiSyncError else spiSyncOk := by
  -- the transfer itself
  have htransfer : ∀ (f : Bool) (v : U32), (b.write f .system 20 v).reg wordSpiSync =
      if f then spiSyncError else spiSyncOk := by
    intro f v
    have hafter : b.write f .system 20 v = b.after ⟨f, .system, 20, v⟩ := rfl
    cases f with
    | false =>
      rw [hafter, after_of_succeeds ⟨⟨rfl, rfl⟩, hreq, rfl⟩, reg_setReg, if_pos rfl]
      rfl
    | true =>
      have hfail : ¬ WordWrite.Succeeds ⟨true, .system, 20, v⟩ b := fun hs =>
        Bool.noConfusion (show true = false from hs.2.2)
      rw [hafter, after_of_fails ⟨rfl, rfl⟩ hfail, reg_setReg, if_pos rfl]
      rfl
  have h20 : wordSpiWrite.toNat / 4 = 20 := rfl
  cases e with
  | write d buf count =>
    obtain ⟨v, hword⟩ := hstarts
    simp only [outcome, structWrite, h₀, hword, h20]
    exact htransfer _ v
  | writeNoStruct d buf count =>
    obtain ⟨⟨bar, w, k⟩, hspan, rfl, rfl, hk, hcopy, hover⟩ := hstarts
    simp only [outcome, noStructWrite, h₀, hspan]
    dsimp only at hk hover ⊢
    obtain ⟨k, rfl⟩ : ∃ k', k = k' + 1 := ⟨k - 1, by omega⟩
    have hrej : Bar.rejects .system (20 + 0) = false ∧ Bar.rejects .system (20 + 1) = false :=
      ⟨rfl, rfl⟩
    -- the word after it leaves `SPI_SYNC` alone, and there is no third
    have hnext : ∀ (b : Bars) (v : U32), (b.setWord .system 21 v).reg wordSpiSync =
        b.reg wordSpiSync := fun b v => reg_setWord .system 21 v wordSpiSync
    have hplain : ∀ (b : Bars) (f : Bool) (v : U32),
        b.write f .system 21 v = b.setWord .system 21 v := fun _ _ _ => rfl
    rw [block, h20]
    simp only [hcopy, hrej, Bool.not_true, Bool.false_eq_true, if_false, Nat.add_zero, Nat.zero_add]
    cases k with
    | zero => exact htransfer _ _
    | succ k =>
      rw [block]
      simp only [Nat.reduceAdd, hplain]
      by_cases hone : (ℓ.user.copyWord buf 1).2 = true
      · obtain rfl : k = 0 := by
          by_contra hne
          exact hover ⟨by omega, hone⟩
        have hrej' : Bar.rejects .system 21 = false := rfl
        simp only [hone, hrej', Bool.not_true, Bool.false_eq_true, if_false]
        exact (hnext _ _).trans (htransfer _ _)
      · simp only [hone, Bool.not_false, if_true]
        exact (hnext _ _).trans (htransfer _ _)
  | _ => exact hstarts.elim

end Bars

/-! ## The code -/

section
variable {B : Board N} {d : Fin N} {e : Entry N} {ℓ : Local} {s : Store}

/-- The call computes the outcome, also while others change the flags. -/
theorem execWith_outcome (he : e.WritesTo d) (hsig : ℓ.signals = []) (o : ℕ → Store) (s : Store) :
    (execWith o (e.body B) 0 ℓ s).1.val = ((B.bars d s).outcome e ℓ o).1 ∧
      B.bars d (execWith o (e.body B) 0 ℓ s).1.store = ((B.bars d s).outcome e ℓ o).2 := by
  rcases he with ⟨buf, count, rfl⟩ | ⟨buf, count, rfl⟩
  · have hexec := execWith_write (B := B) d.isLt (b := B.bars d s) hsig (o := o) buf
      (min count maxRwCount) s
    rw [put_bars] at hexec
    refine ⟨congrArg Outcome.val hexec, ?_⟩
    exact (congrArg (fun x => B.bars d (Outcome.store x)) hexec).trans (bars_put d.isLt)
  · have hcount : min count maxRwCount < 2 ^ 32 := (Nat.min_le_right _ _).trans_lt (by decide)
    have hexec := execWith_writeNoStruct (B := B) d.isLt (b := B.bars d s) buf hcount hsig (o := o)
      s
    rw [put_bars] at hexec
    refine ⟨congrArg Outcome.val hexec, ?_⟩
    exact (congrArg (fun x => B.bars d (Outcome.store x)) hexec).trans (bars_put d.isLt)

/-- A write to a device does not set the flags. -/
theorem Entry.WritesTo.keeps_flags (he : e.WritesTo d) (ℓ : Local) :
    (e.body B ℓ).All fun i => ∀ l, i.Writes l → ¬ l.IsFlag := by
  have hd : e.device = some d := by
    rcases he with ⟨buf, count, rfl⟩ | ⟨buf, count, rfl⟩ <;> rfl
  refine (Entry.scope_any hd ℓ).mono fun i hi l hl hf => ?_
  cases l with
  | flag f => exact hi.writes_flag hl
  | _ => exact hf

theorem exec_outcome (he : e.WritesTo d) (hsig : ℓ.signals = []) (s : Store) :
    (exec (e.body B) ℓ s).val = ((B.bars d s).outcome e ℓ fun _ => s).1 ∧
      B.bars d (exec (e.body B) ℓ s).store = ((B.bars d s).outcome e ℓ fun _ => s).2 := by
  rw [exec_eq_execWith (he.keeps_flags ℓ)]
  exact execWith_outcome he hsig _ s

/-- A write of the proc file has one section of the control mutex. -/
theorem sectioned_procWrite (ubuf count : ℕ) (ℓ : Local) :
    Sectioned ((B.protection False).only .controlMutex) (mtcadummyProcWrite ubuf count ℓ) := by
  have hlevel : ((B.protection False).only .controlMutex).level .controlMutex = 0 := by
    simp [Protection.only]
  have hguards : ∀ f, ((B.protection False).only .controlMutex).Guards .controlMutex (.flag f) :=
    fun f => ⟨rfl, trivial⟩
  -- a flag is set or read inside the section
  have hset : ∀ f value (Q : Unit → Local → Phase Mutex → Prop) ℓ,
      Q () ℓ (.inside .controlMutex) → wp (sectionT ((B.protection False).only .controlMutex))
        (setOrRead f value) Q ℓ (.inside .controlMutex) := by
    intro f value Q ℓ hQ
    unfold setOrRead
    split
    · exact And.intro ⟨_, hguards f, hlevel, rfl⟩ hQ
    · exact And.intro (fun m hm _ => by rw [hm.1]) fun _ => hQ
  change wp (sectionT ((B.protection False).only .controlMutex)) (mtcadummyProcWrite ubuf count)
    (fun _ _ ph => ∀ m, ph ≠ .inside m) ℓ .before
  unfold mtcadummyProcWrite
  rw [wp_bind, wp_copyFromUser, wp_ite]
  have hbefore : ∀ m : Mutex, Phase.before ≠ .inside m := fun _ h => by cases h
  have hafter : ∀ m : Mutex, Phase.after ≠ .inside m := fun _ h => by cases h
  refine ⟨fun _ => hbefore, fun _ => ?_⟩
  rw [wp_bind, wp_lock]
  cases ℓ.signals.headD false with
  | true => exact ⟨fun h => absurd h.2.symm Bool.false_ne_true, fun _ => hbefore⟩
  | false =>
    refine ⟨fun _ => ⟨rfl, ?_⟩, fun hne => absurd ⟨hlevel, rfl⟩ hne⟩
    simp only [Bool.false_eq_true, if_false]
    iterate 4
      rw [wp_bind]
      refine hset _ _ _ _ ?_
    exact ⟨fun _ => ⟨rfl, hafter⟩, fun hne => absurd hlevel hne⟩

theorem guards_controlMutex (l : Loc) : (B.protection False).Guards .controlMutex l ↔ l.IsFlag := by
  cases l <;> exact Iff.rfl

/-! ## A write to the device and a write of the proc file -/

/-- The first call writes to the device, the second is the write of the proc
    file. -/
def twoCalls {α : Type} (w p : α) : Bool → α
  | false => w
  | true => p

/-- The flag after a write of the proc file. -/
def newFlag (u : UserMem) (ubuf count : ℕ) (f : Flag) (old : Bool) : Bool :=
  match command u ubuf count with
  | some o => flagOf (o.value f) old
  | none => old

/-- **The control settings take effect in one go** for the write `e`: in every
    interleaving with the write of the proc file its return value and the bars
    are those of the write under the old flags, or under the new ones. -/
def AtOnce (B : Board N) (d : Fin N) (e : Entry N) (ℓ : Local) (ubuf count : ℕ) (ℓ' : Local)
    (s : Store) : Prop :=
  ∀ h cfg r, Run (B.calls (twoCalls e (.procWrite ubuf count)) (twoCalls ℓ ℓ')) s h cfg →
    cfg.thread false = .done r →
    ∃ s' ∈ [s, (exec ((Entry.procWrite ubuf count).body B) ℓ' s).store],
      r.1 = (exec (e.body B) ℓ s').val ∧
      B.bars d cfg.store = B.bars d (exec (e.body B) ℓ s').store

/-- The write of the proc file sets `write_error` and changes `spi_error`, and
    the write to the device starts a transfer that was requested. -/
structure Mixes (B : Board N) (d : Fin N) (e : Entry N) (ℓ : Local) (ubuf count : ℕ) (ℓ' : Local)
    (s : Store) : Prop where
  clear : s (.flag .writeError) = false
  sets : newFlag ℓ'.user ubuf (min count maxRwCount) .writeError (s (.flag .writeError)) = true
  changes : newFlag ℓ'.user ubuf (min count maxRwCount) .spiError (s (.flag .spiError)) ≠
    s (.flag .spiError)
  requested : (B.bars d s).reg wordSpiSync = spiSyncRequested
  starts : e.StartsTransfer ℓ

/-- What the write of the proc file leaves. -/
theorem procWrite_store (ubuf count : ℕ) {ℓ' : Local} (hsig : ℓ'.signals = []) (s : Store) :
    (exec ((Entry.procWrite ubuf count).body B) ℓ' s).store =
      s.withFlags fun f => newFlag ℓ'.user ubuf (min count maxRwCount) f (s (.flag f)) := by
  have hfree : ℓ'.signals.headD false = false := by rw [hsig]; rfl
  change (exec (mtcadummyProcWrite ubuf (min count maxRwCount)) ℓ' s).store = _
  rw [exec_procWrite ubuf (min count maxRwCount) hfree s]
  unfold newFlag
  cases command ℓ'.user ubuf (min count maxRwCount) with
  | some o => rfl
  | none =>
    funext l
    cases l <;> rfl

theorem bars_withFlags (F : Flag → Bool) : B.bars d (s.withFlags F) = B.bars d s := rfl

/-- The write sees the old flags in its first looks and the new ones in the
    rest. -/
theorem outcome_of_run {ubuf count : ℕ} {ℓ' : Local} (he : e.WritesTo d) (hsig : ℓ.signals = [])
    {h : List (Event Bool)} {cfg : Config Bool Loc.Val Mutex Note (ℤ × Local)} {r : ℤ × Local}
    (hr : Run (B.calls (twoCalls e (.procWrite ubuf count)) (twoCalls ℓ ℓ')) s h cfg)
    (hdone : cfg.thread false = .done r) :
    ∃ n, r.1 = ((B.bars d s).outcome e ℓ (switched n s
        (exec ((Entry.procWrite ubuf count).body B) ℓ' s).store)).1 ∧
      B.bars d cfg.store = ((B.bars d s).outcome e ℓ (switched n s
        (exec ((Entry.procWrite ubuf count).body B) ℓ' s).store)).2 := by
  have hdisc : ∀ t, Disciplined (B.protection False)
      (B.calls (twoCalls e (.procWrite ubuf count)) (twoCalls ℓ ℓ') t) :=
    fun t => Entry.disciplined False.elim
  have htouch : (B.calls (twoCalls e (.procWrite ubuf count)) (twoCalls ℓ ℓ') true).All
      fun i => ∀ l, i.Touches l → l.IsFlag := by
    refine (every_procWrite ubuf _ ℓ').mono fun i hi l hl => ?_
    obtain ⟨f, rfl⟩ := hi l hl
    trivial
  have hkeep : (B.calls (twoCalls e (.procWrite ubuf count)) (twoCalls ℓ ℓ') false).All
      fun i => ∀ l, i.Writes l → ¬ l.IsFlag := he.keeps_flags ℓ
  obtain ⟨n, j, x, hrun, hx⟩ := Run.switch (P := B.protection False) (m := .controlMutex)
    (K := Loc.IsFlag) (u := true) (t := false) guards_controlMutex hdisc
    (sectioned_procWrite _ _ _) htouch hkeep (by decide) (fun v => by cases v <;> simp) hr hdone
  obtain ⟨hval, hbars⟩ := execWith_outcome (B := B) he hsig
    (switched n s (exec ((Entry.procWrite ubuf count).body B) ℓ' s).store) s
  refine ⟨n, ?_, ?_⟩
  · rw [← hval]
    exact (congrArg (fun y : (ℤ × Local) × ℕ × Store => y.1.1) hrun).symm
  · rw [← hbars]
    have hstore : (execWith (switched n s (exec ((Entry.procWrite ubuf count).body B) ℓ' s).store)
        (e.body B) 0 ℓ s).1.store = x :=
      congrArg (fun y : (ℤ × Local) × ℕ × Store => y.2.2) hrun
    rw [hstore]
    simp only [Board.bars, Bars.mk.injEq]
    exact ⟨funext fun i => (hx (.word _ i) id).symm, funext fun i => (hx (.word _ i) id).symm⟩

/-- Apart from the mixture, one of the two outcomes. -/
theorem at_once_of_not_mixes {ubuf count : ℕ} {ℓ' : Local} (he : e.WritesTo d)
    (hsig : ℓ.signals = []) (hsig' : ℓ'.signals = []) (hmix : ¬ Mixes B d e ℓ ubuf count ℓ' s) :
    AtOnce B d e ℓ ubuf count ℓ' s := by
  intro h cfg r hr hdone
  obtain ⟨n, hval, hbars⟩ := outcome_of_run he hsig hr hdone
  have hstore := procWrite_store (B := B) ubuf count hsig' s
  generalize hs' : (exec ((Entry.procWrite ubuf count).body B) ℓ' s).store = s' at *
  have hsame : B.bars d s' = B.bars d s := by rw [hstore, bars_withFlags]
  have hnew : ∀ f, s' (.flag f) =
      newFlag ℓ'.user ubuf (min count maxRwCount) f (s (.flag f)) := fun f => by rw [hstore]; rfl
  -- the outcome under the flags of one of the stores
  have hold : (B.bars d s).outcome e ℓ (switched n s s') = (B.bars d s).outcome e ℓ (fun _ => s) →
      ∃ x ∈ [s, s'], r.1 = (exec (e.body B) ℓ x).val ∧
        B.bars d cfg.store = B.bars d (exec (e.body B) ℓ x).store := fun ho => by
    rw [ho] at hval hbars
    obtain ⟨hv, hb⟩ := exec_outcome (B := B) he hsig s
    exact ⟨s, by simp, hval.trans hv.symm, hbars.trans hb.symm⟩
  have hnext : (B.bars d s).outcome e ℓ (switched n s s') = (B.bars d s).outcome e ℓ (fun _ => s') →
      ∃ x ∈ [s, s'], r.1 = (exec (e.body B) ℓ x).val ∧
        B.bars d cfg.store = B.bars d (exec (e.body B) ℓ x).store := fun ho => by
    rw [ho] at hval hbars
    obtain ⟨hv, hb⟩ := exec_outcome (B := B) he hsig s'
    rw [hsame] at hv hb
    exact ⟨s', by simp, hval.trans hv.symm, hbars.trans hb.symm⟩
  match n, hold, hnext with
  | 0, _, hnext => exact hnext (Bars.outcome_congr rfl rfl)
  | n + 2, hold, _ => exact hold (Bars.outcome_congr rfl (by simp [switched]))
  | 1, hold, hnext =>
    cases hclear : s (.flag .writeError) with
    | true =>
      have hw : ∀ o : ℕ → Store, o 0 = s → (B.bars d s).outcome e ℓ o = (-EFAULT, B.bars d s) :=
        fun o ho => Bars.outcome_of_writeError (by rw [ho, hclear]) ⟨d, he⟩
      exact hold ((hw _ rfl).trans (hw _ rfl).symm)
    | false =>
      cases hset : s' (.flag .writeError) with
      | false => exact hnext (Bars.outcome_congr (hclear.trans hset.symm) rfl)
      | true =>
        by_cases hspi : s' (.flag .spiError) = s (.flag .spiError)
        · exact hold (Bars.outcome_congr rfl hspi)
        · refine hold (Bars.outcome_of_idle rfl fun hx => hmix ?_)
          exact ⟨hclear, (hnew _).symm.trans hset, fun hn => hspi ((hnew _).trans hn), hx.1, hx.2⟩

/-- The first look of a write, in a section of its own. -/
theorem Entry.WritesTo.body_eq (he : e.WritesTo d) (hsig : ℓ.signals = []) :
    ∃ rest : Bool → KProg (ℤ × Local), e.body B ℓ =
      .op (.lock .controlMutex false) fun _ => .op (.load (.flag .writeError)) fun v =>
        .op (.unlock .controlMutex) fun _ => rest v := by
  cases ℓ
  cases hsig
  rcases he with ⟨buf, count, rfl⟩ | ⟨buf, count, rfl⟩
  · exact ⟨_, rfl⟩
  · exact ⟨_, rfl⟩

/-- The write of the proc file can come right after the first look. -/
theorem exists_run_switched (ubuf count : ℕ) {ℓ' : Local} (he : e.WritesTo d)
    (hsig : ℓ.signals = []) (hsig' : ℓ'.signals = []) (s : Store) : ∃ h cfg r,
      Run (B.calls (twoCalls e (.procWrite ubuf count)) (twoCalls ℓ ℓ')) s h cfg ∧
      cfg.thread false = .done r ∧
      r.1 = ((B.bars d s).outcome e ℓ (switched 1 s
        (exec ((Entry.procWrite ubuf count).body B) ℓ' s).store)).1 ∧
      B.bars d cfg.store = ((B.bars d s).outcome e ℓ (switched 1 s
        (exec ((Entry.procWrite ubuf count).body B) ℓ' s).store)).2 := by
  obtain ⟨rest, hbody⟩ := he.body_eq (B := B) hsig
  have hcall : B.calls (twoCalls e (.procWrite ubuf count)) (twoCalls ℓ ℓ') false =
      .op (.lock .controlMutex false) fun _ => .op (.load (.flag .writeError)) fun v =>
        .op (.unlock .controlMutex) fun _ => rest v := hbody
  have hdisc : ∀ t, Disciplined (B.protection False)
      (B.calls (twoCalls e (.procWrite ubuf count)) (twoCalls ℓ ℓ') t) :=
    fun t => Entry.disciplined False.elim
  -- the rest of the write keeps the discipline, and the flags
  have hrest : Disciplined (B.protection False) (rest (s (.flag .writeError))) := by
    have hwrite := hdisc false
    rw [hcall] at hwrite
    obtain ⟨-, -, -, -, hload⟩ := hwrite
    obtain ⟨st, hst, hq⟩ := hload (s (.flag .writeError))
    cases hst
    exact hq
  have hkeep := he.keeps_flags (B := B) ℓ
  rw [hbody] at hkeep
  have hkeep := ((hkeep.2 ()).2 (s (.flag .writeError))).2 ()
  -- the write takes its first look, then comes the write of the proc file
  obtain ⟨h₁, hfirst⟩ := Run.first_load (s := s) hcall
  obtain ⟨h₂, hproc⟩ := hfirst.call (t := true) rfl (fun _ => rfl) (hdisc true)
  have howns : Held.none.Owns (fun _ : Mutex => (none : Option Bool)) false :=
    ⟨List.nodup_nil, fun m => by simp [Held.none]⟩
  obtain ⟨h₃, hrun, -⟩ := hproc.solo (p := rest (s (.flag .writeError))) rfl howns
    (fun m u hu => by simp [Config.finish] at hu) hrest
  have hstore := procWrite_store (B := B) ubuf count hsig' s
  have hs' : ((B.calls (twoCalls e (.procWrite ubuf count)) (twoCalls ℓ ℓ') true).exec s).2 =
      (exec ((Entry.procWrite ubuf count).body B) ℓ' s).store := rfl
  generalize (exec ((Entry.procWrite ubuf count).body B) ℓ' s).store = s' at *
  obtain ⟨hval, hbars⟩ := execWith_outcome (B := B) he hsig (switched 1 s s') s'
  have hwith : (rest (s (.flag .writeError))).exec s' =
      (((e.body B ℓ).execWith Loc.IsFlag (switched 1 s s') 0 s').1,
        ((e.body B ℓ).execWith Loc.IsFlag (switched 1 s s') 0 s').2.2) := by
    have hsees : (e.body B ℓ).execWith Loc.IsFlag (switched 1 s s') 0 s' =
        (rest (s (.flag .writeError))).execWith Loc.IsFlag (fun _ => s') 1 s' := by
      rw [hbody]
      exact Prog.execWith_congr (fun i hi => if_neg (Nat.not_lt.2 hi)) _ _
    rw [hsees]
    exact Prog.exec_eq_execWith hkeep 1 fun _ _ => rfl
  rw [hstore, bars_withFlags, ← hstore] at hval hbars
  refine ⟨_, _, _, hrun, Config.finish_thread _ _ _, ?_, ?_⟩
  · rw [← hval]
    have hfin : ((rest (s (.flag .writeError))).exec s').1.1 =
        (execWith (switched 1 s s') (e.body B) 0 ℓ s').1.val := by rw [hwith]; rfl
    rw [← hfin, ← hs']
    rfl
  · rw [← hbars]
    have hfin : ((rest (s (.flag .writeError))).exec s').2 =
        (execWith (switched 1 s s') (e.body B) 0 ℓ s').1.store := by rw [hwith]; rfl
    rw [← hfin, ← hs']
    rfl

/-- **The mixture is possible**, and is neither outcome. -/
theorem not_at_once_of_mixes {ubuf count : ℕ} {ℓ' : Local} (he : e.WritesTo d)
    (hsig : ℓ.signals = []) (hsig' : ℓ'.signals = []) (hmix : Mixes B d e ℓ ubuf count ℓ' s) :
    ¬ AtOnce B d e ℓ ubuf count ℓ' s := by
  intro honce
  obtain ⟨h, cfg, r, hr, hdone, -, hbars⟩ :=
    exists_run_switched (B := B) ubuf count he hsig hsig' s
  obtain ⟨x, hx, -, hsame⟩ := honce h cfg r hr hdone
  have hstore := procWrite_store (B := B) ubuf count hsig' s
  generalize (exec ((Entry.procWrite ubuf count).body B) ℓ' s).store = s' at *
  have hnew : ∀ f, s' (.flag f) =
      newFlag ℓ'.user ubuf (min count maxRwCount) f (s (.flag f)) := fun f => by rw [hstore]; rfl
  -- the transfer is made, and sees the new `spi_error`
  have hmixed := Bars.outcome_of_starts (o := switched 1 s s') hmix.clear hmix.requested hmix.starts
  rw [← hbars, hsame] at hmixed
  rcases List.mem_cons.1 hx with rfl | hx
  · -- under the old flags it sees the old one
    rw [(exec_outcome he hsig x).2,
      Bars.outcome_of_starts (o := fun _ => x) hmix.clear hmix.requested hmix.starts] at hmixed
    have hne : s' (.flag .spiError) ≠ x (.flag .spiError) := by
      rw [hnew]
      exact hmix.changes
    simp only [switched, Nat.lt_irrefl, if_false] at hmixed
    generalize s' (.flag .spiError) = f' at *
    generalize x (.flag .spiError) = f at *
    cases f <;> cases f' <;> first | exact hne rfl | exact absurd hmixed (by decide)
  · -- under the new ones it is not made
    obtain rfl := List.mem_singleton.1 hx
    have hset : x (.flag .writeError) = true := (hnew _).trans hmix.sets
    rw [(exec_outcome he hsig x).2, Bars.outcome_of_writeError hset ⟨d, he⟩, hstore, bars_withFlags,
      hmix.requested] at hmixed
    split at hmixed
    · exact absurd hmixed (by decide)
    · exact absurd hmixed (by decide)

/-- **The control settings take effect in one go** for every write to a device
    that overlaps with a write of the proc file, except for the mixture. -/
theorem control_write_at_once {ubuf count : ℕ} {ℓ' : Local} (he : e.WritesTo d)
    (hsig : ℓ.signals = []) (hsig' : ℓ'.signals = []) :
    AtOnce B d e ℓ ubuf count ℓ' s ↔ ¬ Mixes B d e ℓ ubuf count ℓ' s :=
  ⟨fun h hmix => not_at_once_of_mixes he hsig hsig' hmix h,
    fun hmix => at_once_of_not_mixes he hsig hsig' hmix⟩

end

/-! ## A transfer of the SPI -/

/-- A process that asks for a write of 1 to `SPI_WRITE`. -/
def transferLocal : Local :=
  { user := UserMem.ofBytes (DeviceRw.bytes ⟨wordSpiWrite, 1#32, rwD32, 0#32, 0#32, 0#32⟩) }

/-- A loaded module whose flags are clear, and where a transfer is requested
    of device 0. -/
def requestedStore : Store :=
  loadedBoard.put 0 ⟨fun _ => spiSyncRequested, fun _ => 0#32⟩ clearFlags

theorem requestedStore_requested :
    (loadedBoard.bars 0 requestedStore).reg wordSpiSync = spiSyncRequested := by
  rw [requestedStore, bars_put (by decide)]
  rfl

theorem startsTransfer_transferLocal :
    (Entry.write (0 : Fin nrDevs) 0 24).StartsTransfer transferLocal := by
  refine ⟨1#32, ?_⟩
  have hword := structWord_of_request
    (UserMem.ofBytes_request ⟨wordSpiWrite, 1#32, rwD32, 0#32, 0#32, 0#32⟩)
    (by decide : sizeofDeviceRw ≤ 24) rfl
  exact hword.trans (by decide)

/-- The flag after a short command. -/
theorem newFlag_commandLocal {s : Chars} (hs : 0#8 ∉ s) (hlen : s.length ≤ 254) (f : Flag)
    (old : Bool) : newFlag (commandLocal s).user 0 s.length f old = flagAfter f s old := by
  unfold newFlag
  rw [command_of_holds (commandLocal_holds s) fun _ _ => rfl]
  have hnul : 0#8 ∉ s.take (sizeofCmd - 1) := fun h => hs (List.mem_of_mem_take h)
  have htake : s.take (sizeofCmd - 1) = s := List.take_of_length_le hlen
  rw [← flagOf_parseCommand hs, htake]

/-- The command `spi:1` leaves `write_error` alone. -/
theorem control_write_at_once_spi :
    AtOnce loadedBoard 0 (.write 0 0 24) transferLocal 0 5 (commandLocal (litSpi ++ [0x31#8]))
      requestedStore :=
  (control_write_at_once (.inl ⟨0, 24, rfl⟩) rfl rfl).2 fun hmix => by
    have hset := hmix.sets
    rw [show min 5 maxRwCount = (litSpi ++ [0x31#8]).length from rfl,
      newFlag_commandLocal (by decide) (by decide)] at hset
    exact absurd hset (by decide)

/-- The command `write:1 spi:1`. -/
def writeSpiCommand : Chars := litWrite ++ [0x31#8, 0x20#8] ++ litSpi ++ [0x31#8]

/-- The transfer is made, and answered with an error. -/
theorem control_settings_mix :
    ¬ AtOnce loadedBoard 0 (.write 0 0 24) transferLocal 0 writeSpiCommand.length
      (commandLocal writeSpiCommand) requestedStore := by
  have hnew : ∀ f, newFlag (commandLocal writeSpiCommand).user 0
      (min writeSpiCommand.length maxRwCount) f false = flagAfter f writeSpiCommand false :=
    fun f => newFlag_commandLocal (by decide) (by decide) f false
  have hclear : ∀ f, requestedStore (.flag f) = false := fun _ => rfl
  refine not_at_once_of_mixes (.inl ⟨0, 24, rfl⟩) rfl rfl ⟨hclear _, ?_, ?_,
    requestedStore_requested, startsTransfer_transferLocal⟩
  · rw [hclear, hnew]
    decide +kernel
  · rw [hclear, hnew]
    decide +kernel

end MtcaDummy

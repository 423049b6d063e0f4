/-
  What the proc file shows.

  `Bars.dump` are the lines for a device in use, and `Board.shown` those for any
  device.  `exec_seqRead`: one read of the proc file shows consecutive devices.
  `proc_file_complete`: between whichever devices the reading is split, every
  device is shown once, in the order of the slots, and each as it is when it is
  shown.

  The lines are printed with `Text.printf`.  `proc_text_faithful`: the text
  tells which devices are in use, and every word of the bars of those that are.
-/
import MtcaDummy.Text.Printf
import MtcaDummy.Driver.Bars
import MtcaDummy.Driver.Proc

namespace MtcaDummy

open Text

/-! ## The lines -/

namespace Bars

variable (b : Bars)

/-- The line of a register. -/
def systemLine (reg : ℕ) : SeqLine :=
  ⟨"0x%08X\t0x%08X\t%d\n", [BitVec.ofNat 32 reg, b.system reg, b.system reg]⟩

/-- The line of four words of the DMA bar. -/
def dmaLine (j : ℕ) : SeqLine :=
  ⟨"0x%08lX\t0x%08X\t0x%08X\t0x%08X\t0x%08X\n", [BitVec.ofNat 32 (4 * j * 4), b.dma (4 * j),
    b.dma (4 * j + 1), b.dma (4 * j + 2), b.dma (4 * j + 3)]⟩

def dump (slotNr : U32) : List SeqLine :=
  [⟨"Device %i System Bar:\n", [slotNr]⟩, ⟨"Register Content_hex Content_dec:\n", []⟩] ++
    ((List.range nRegisters).map b.systemLine ++
      ([⟨"\nDevice %i DMA Bar:\n", [slotNr]⟩,
        ⟨"Offset Content[offset]  Content[offset+0x4]  Content[offset+0x8] Content[offset+0xC]:\n",
          []⟩] ++
        ((List.range (dmaSize / 4 / 4)).map b.dmaLine ++ [⟨"\n", []⟩])))

end Bars

variable {N : ℕ} {B : Board N}

/-- The lines for a device. -/
def Board.shown (B : Board N) (d : ℕ) (s : Store) : List SeqLine :=
  if s (.inUse d) = 0#32 then
    [⟨"Device %i not in use.\n\n", [(B.dummyPrivateData d).slotNr]⟩]
  else (B.bars d s).dump (B.dummyPrivateData d).slotNr

/-- More lines are printed. -/
def Local.print (ℓ : Local) (lines : List SeqLine) : Local := { ℓ with seq := ℓ.seq ++ lines }

@[simp] theorem print_print (ℓ : Local) (l l' : List SeqLine) :
    (ℓ.print l).print l' = ℓ.print (l ++ l') := by
  simp only [Local.print, List.append_assoc]

@[simp] theorem print_nil (ℓ : Local) : ℓ.print [] = ℓ := by
  simp only [Local.print, List.append_nil]

@[simp] theorem exec_seqPrintf (fmt : String) (args : List U32) (ℓ : Local) (s : Store) :
    exec (seqPrintf fmt args) ℓ s = ⟨(), ℓ.print [⟨fmt, args⟩], s⟩ := rfl

/-! ## The code prints them -/

section
variable {d : ℕ} {ℓ : Local} {s : Store}

theorem exec_showSystemBar (k reg : ℕ) :
    exec (showSystemBar (B.dummyPrivateData d).systemBar k reg) ℓ s =
      ⟨(), ℓ.print ((List.range' reg k).map (B.bars d s).systemLine), s⟩ := by
  induction k generalizing reg ℓ with
  | zero => rw [List.range'_zero, List.map_nil, print_nil]; rfl
  | succ k ih =>
    rw [showSystemBar, exec_bind, exec_loadWord, next_mk, exec_bind, exec_loadWord, next_mk,
      exec_bind, exec_seqPrintf, next_mk, ih, print_print]
    rfl

theorem exec_showDmaBar (k j : ℕ) :
    exec (showDmaBar (B.dummyPrivateData d).dmaBar k (4 * j)) ℓ s =
      ⟨(), ℓ.print ((List.range' j k).map (B.bars d s).dmaLine), s⟩ := by
  induction k generalizing j ℓ with
  | zero => rw [List.range'_zero, List.map_nil, print_nil]; rfl
  | succ k ih =>
    rw [showDmaBar, exec_bind, exec_loadWord, next_mk, exec_bind, exec_loadWord, next_mk,
      exec_bind, exec_loadWord, next_mk, exec_bind, exec_loadWord, next_mk,
      exec_bind, exec_seqPrintf, next_mk, show 4 * j + 4 = 4 * (j + 1) by omega, ih, print_print]
    rfl

/-- **What is shown for a device.** -/
theorem exec_seqShow : exec (mtcadummySeqShow B d) ℓ s =
    if s (.inUse d) ≠ 0#32 ∧ ℓ.signals.headD false = true then
      ⟨-ERESTARTSYS, { ℓ with signals := ℓ.signals.tail }, s⟩
    else
      ⟨0, Local.print
        { ℓ with signals := if s (.inUse d) = 0#32 then ℓ.signals else ℓ.signals.tail }
        (B.shown d s), s⟩ := by
  have hread : exec (atomicRead d) ℓ s = ⟨s (.inUse d), ℓ, s⟩ := rfl
  unfold mtcadummySeqShow Board.shown
  dsimp only
  rw [exec_bind, hread, next_mk, exec_ite]
  by_cases hzero : s (.inUse d) = 0#32
  · rw [if_pos hzero, if_neg fun h => h.1 hzero, if_pos hzero, if_pos hzero]
    rfl
  rw [if_neg hzero, if_neg hzero, if_neg hzero, exec_bind, exec_lock, next_mk, exec_ite]
  cases hintr : ℓ.signals.headD false with
  | true => rw [if_pos rfl, if_pos ⟨hzero, rfl⟩]; rfl
  | false =>
    have hdma := exec_showDmaBar (B := B) (d := d)
      (ℓ := (((Local.print { ℓ with signals := ℓ.signals.tail }
        [⟨"Device %i System Bar:\n", [(B.dummyPrivateData d).slotNr]⟩,
          ⟨"Register Content_hex Content_dec:\n", []⟩]).print
        ((List.range' 0 nRegisters).map (B.bars d s).systemLine)).print
        [⟨"\nDevice %i DMA Bar:\n", [(B.dummyPrivateData d).slotNr]⟩,
          ⟨"Offset Content[offset]  Content[offset+0x4]  Content[offset+0x8] Content[offset+0xC]:\n",
            []⟩])) (s := s) (dmaSize / 4 / 4) 0
    rw [if_neg Bool.false_ne_true, if_neg fun h => Bool.false_ne_true h.2]
    simp only [exec_bind, exec_seqPrintf, next_mk, exec_showSystemBar, print_print,
      List.append_assoc, List.cons_append, List.nil_append] at hdma ⊢
    rw [Nat.mul_zero] at hdma
    rw [hdma]
    simp only [next_mk, exec_bind, exec_seqPrintf, exec_unlock, exec_pure, print_print, Bars.dump,
      List.append_assoc, List.cons_append, List.nil_append, List.range_eq_range']

end

/-! ## Reading the file -/

theorem mtcadummySeqNext_eq (N pos : ℕ) :
    mtcadummySeqNext N pos = (mtcadummySeqStart N (pos + 1), pos + 1) := by
  unfold mtcadummySeqNext mtcadummySeqStart
  split <;> rfl

/-- **One read of the proc file** shows consecutive devices, as many as it asks
    for and as there are, if no signal ends it. -/
theorem exec_seqRead (k pos : ℕ) (ℓ : Local) (s : Store) :
    ∃ n ≤ min k (N - pos),
      (exec (seqRead B k pos) ℓ s).val.2 = pos + n ∧
      (exec (seqRead B k pos) ℓ s).loc.seq =
        ℓ.seq ++ (List.range' pos n).flatMap (fun d => B.shown d s) ∧
      (exec (seqRead B k pos) ℓ s).store = s ∧
      (ℓ.signals = [] → n = min k (N - pos) ∧ (exec (seqRead B k pos) ℓ s).val.1 = 0) := by
  unfold seqRead
  induction k generalizing pos ℓ with
  | zero => exact ⟨0, Nat.zero_le _, rfl, (List.append_nil _).symm, rfl, fun _ => ⟨by simp, rfl⟩⟩
  | succ k ih =>
    by_cases hpos : pos ≥ N
    · have hstart : mtcadummySeqStart N pos = none := if_pos hpos
      rw [hstart]
      exact ⟨0, Nat.zero_le _, rfl, (List.append_nil _).symm, rfl, fun _ => ⟨by omega, rfl⟩⟩
    have hstart : mtcadummySeqStart N pos = some pos := if_neg hpos
    rw [hstart, seqShowLoop, exec_bind, exec_seqShow]
    by_cases hintr : s (.inUse pos) ≠ 0#32 ∧ ℓ.signals.headD false = true
    · rw [if_pos hintr, next_mk, exec_ite, if_pos (by decide)]
      refine ⟨0, Nat.zero_le _, rfl, (List.append_nil _).symm, rfl, fun hsig => ?_⟩
      rw [hsig] at hintr
      exact absurd hintr.2 (by decide)
    · rw [if_neg hintr, next_mk, exec_ite, if_neg (fun h => h rfl), mtcadummySeqNext_eq]
      obtain ⟨n, hn, hval, hseq, hstore, hfree⟩ := ih (pos + 1) (Local.print
        { ℓ with signals := if s (.inUse pos) = 0#32 then ℓ.signals else ℓ.signals.tail }
        (B.shown pos s))
      refine ⟨n + 1, by omega, by rw [hval]; omega, ?_, hstore, fun hsig => ?_⟩
      · rw [hseq, List.range'_succ, List.flatMap_cons]
        simp only [Local.print, List.append_assoc]
      · obtain ⟨hall, hok⟩ := hfree (by simp [Local.print, hsig])
        exact ⟨by omega, hok⟩

/-- A read of the proc file: the devices it asks for, the signals that reach it,
    and the cells as it finds them. -/
structure ProcRead where
  devices : ℕ
  signals : List Bool
  store : Store

/-- The reads of a file opened once: the position they leave, and the lines
    printed. -/
def Board.readProc (B : Board N) (user : UserMem) :
    List ProcRead → ℕ × List SeqLine → ℕ × List SeqLine
  | [], p => p
  | r :: rs, p =>
    let o := exec (seqRead B r.devices p.1) ⟨user, r.signals, 0, none, p.2⟩ r.store
    B.readProc user rs (o.val.2, o.loc.seq)

/-- The devices that the undisturbed reads ask for. -/
def asked (rs : List ProcRead) : ℕ :=
  ((rs.filter fun r => r.signals.isEmpty).map ProcRead.devices).sum

/-- What the reads from a position on show. -/
theorem readProc_shows (user : UserMem) (rs : List ProcRead) (pos : ℕ) (lines : List SeqLine)
    (hpos : pos ≤ N) :
    ∃ (n : ℕ) (found : ℕ → Store), pos + n ≤ N ∧
      B.readProc user rs (pos, lines) = (pos + n,
        lines ++ (List.range' pos n).flatMap fun d => B.shown d (found d)) ∧
      (∀ d, pos ≤ d → d < pos + n → ∃ r ∈ rs, found d = r.store) ∧
      (N ≤ pos + asked rs → pos + n = N) := by
  induction rs generalizing pos lines with
  | nil =>
    refine ⟨0, fun _ => readyStore (fun _ _ => 0#32) N, by omega, ?_, by omega, fun h => ?_⟩
    · exact Prod.ext rfl (List.append_nil _).symm
    · have hnone : asked [] = 0 := rfl
      omega
  | cons r rs ih =>
    obtain ⟨n₁, hn₁, hval, hseq, -, hfree⟩ := exec_seqRead (B := B) r.devices pos
      ⟨user, r.signals, 0, none, lines⟩ r.store
    obtain ⟨n₂, found, hle, hrest, hfound, hall⟩ := ih (pos + n₁)
      (lines ++ (List.range' pos n₁).flatMap fun d => B.shown d r.store) (by omega)
    refine ⟨n₁ + n₂, fun d => if d < pos + n₁ then r.store else found d, by omega, ?_,
      fun d hd hd' => ?_, fun hasked => ?_⟩
    · rw [Board.readProc, hval, hseq, hrest, ← List.range'_append_1, List.flatMap_append,
        Nat.add_assoc, List.append_assoc]
      congr 3
      · refine List.flatMap_congr fun d hd => ?_
        dsimp only
        rw [if_pos (List.mem_range'_1.1 hd).2]
      · refine List.flatMap_congr fun d hd => ?_
        dsimp only
        rw [if_neg (Nat.not_lt.2 (List.mem_range'_1.1 hd).1)]
    · dsimp only
      by_cases hd₁ : d < pos + n₁
      · exact ⟨r, List.mem_cons_self, if_pos hd₁⟩
      · obtain ⟨r', hr', he⟩ := hfound d (by omega) (by omega)
        exact ⟨r', List.mem_cons_of_mem _ hr', (if_neg hd₁).trans he⟩
    · by_cases hsig : r.signals = []
      · have hstep : asked (r :: rs) = r.devices + asked rs := by simp [asked, hsig]
        have hn := (hfree hsig).1
        rw [← Nat.add_assoc]
        refine hall ?_
        by_cases hend : r.devices ≤ N - pos
        · rw [Nat.min_eq_left hend] at hn
          omega
        · omega
      · have hstep : asked (r :: rs) = asked rs := by simp [asked, hsig]
        rw [← Nat.add_assoc]
        exact hall (by omega)

/-- **The proc file is complete.**  Between whichever devices its reading is
    split, whatever happens between the reads and whatever signals interrupt
    them, the devices are shown from the first on, none twice and none left
    out, each as it is when it is shown; and all of them once the undisturbed
    reads have asked for as many as there are. -/
theorem proc_file_complete (B : Board N) (user : UserMem) (rs : List ProcRead) :
    ∃ (p : ℕ) (found : ℕ → Store), p ≤ N ∧
      B.readProc user rs (0, []) = (p, (List.range p).flatMap fun d => B.shown d (found d)) ∧
      (∀ d < p, ∃ r ∈ rs, found d = r.store) ∧ (N ≤ asked rs → p = N) := by
  obtain ⟨n, found, hle, hread, hfound, hall⟩ :=
    readProc_shows (B := B) user rs 0 [] (Nat.zero_le N)
  rw [Nat.zero_add] at hle hread hall
  rw [Nat.zero_add] at hall
  refine ⟨n, found, hle, ?_, fun d hd => hfound d (Nat.zero_le d) (by omega), hall⟩
  rw [hread, List.nil_append, List.range_eq_range']

/-! ## The text -/

/-- The line as it is printed. -/
def SeqLine.text (l : SeqLine) : List Char := printf l.fmt.toList l.args

def textOf (lines : List SeqLine) : List Char := lines.flatMap SeqLine.text

/-- The bars hold the same words. -/
def Bars.Same (b b' : Bars) : Prop := ∀ bar : Bar, ∀ i < bar.size / 4, b.word bar i = b'.word bar i

theorem tellsApart_systemLine (reg : ℕ) :
    TellsApart (fun b : Bars => (b.systemLine reg).text)
      fun b b' => b.system reg = b'.system reg := by
  have hline : ∀ b : Bars, (b.systemLine reg).text =
      ['0', 'x'] ++ (hexPad 8 (BitVec.ofNat 32 reg).toNat ++ (['\t', '0', 'x'] ++
        (hexPad 8 (b.system reg).toNat ++
          (['\t'] ++ (decimal (b.system reg).toInt ++ ['\n']))))) := by
    intro b
    dsimp only [SeqLine.text, Bars.systemLine]
    rfl
  simp only [hline]
  refine .after _ (.after _ (.after _ ?_))
  exact (tellsApart_hexPad.comp fun b : Bars => b.system reg).followed fun b b' h => by rw [h]

theorem tellsApart_dmaLine (j : ℕ) : TellsApart (fun b : Bars => (b.dmaLine j).text)
    fun b b' => ∀ i < 4, b.dma (4 * j + i) = b'.dma (4 * j + i) := by
  have hline : ∀ b : Bars, (b.dmaLine j).text =
      ['0', 'x'] ++ (hexPad 8 (BitVec.ofNat 32 (4 * j * 4)).toNat ++ (['\t', '0', 'x'] ++
        (hexPad 8 (b.dma (4 * j)).toNat ++ (['\t', '0', 'x'] ++
          (hexPad 8 (b.dma (4 * j + 1)).toNat ++ (['\t', '0', 'x'] ++
            (hexPad 8 (b.dma (4 * j + 2)).toNat ++ (['\t', '0', 'x'] ++
              (hexPad 8 (b.dma (4 * j + 3)).toNat ++ ['\n']))))))))) := by
    intro b
    dsimp only [SeqLine.text, Bars.dmaLine]
    rfl
  have hword : ∀ i, TellsApart (fun b : Bars => hexPad 8 (b.dma (4 * j + i)).toNat)
      fun b b' => b.dma (4 * j + i) = b'.dma (4 * j + i) := fun i =>
    tellsApart_hexPad.comp fun b : Bars => b.dma (4 * j + i)
  have hlast := (hword 3).append (tellsApart_const ['\n'])
  have hwords := (hword 0).append (.after ['\t', '0', 'x'] ((hword 1).append
    (.after ['\t', '0', 'x'] ((hword 2).append (.after ['\t', '0', 'x'] hlast)))))
  intro b b' r r' h
  dsimp only at h
  rw [hline, hline] at h
  obtain ⟨⟨h₀, h₁, h₂, h₃, -⟩, hr⟩ :=
    (TellsApart.after _ (.after _ (.after _ hwords))) b b' r r' h
  refine ⟨fun i hi => ?_, hr⟩
  match i, hi with
  | 0, _ => exact h₀
  | 1, _ => exact h₁
  | 2, _ => exact h₂
  | 3, _ => exact h₃

/-- **The dump tells the words of the bars.** -/
theorem tellsApart_dump (slotNr : U32) :
    TellsApart (fun b : Bars => textOf (b.dump slotNr)) Bars.Same := by
  have htext : ∀ b : Bars, textOf (b.dump slotNr) =
      textOf [⟨"Device %i System Bar:\n", [slotNr]⟩, ⟨"Register Content_hex Content_dec:\n", []⟩] ++
        ((List.range nRegisters).flatMap (fun reg => (b.systemLine reg).text) ++
          (textOf [⟨"\nDevice %i DMA Bar:\n", [slotNr]⟩,
            ⟨"Offset Content[offset]  Content[offset+0x4]  Content[offset+0x8] Content[offset+0xC]:\n",
              []⟩] ++
            ((List.range (dmaSize / 4 / 4)).flatMap (fun j => (b.dmaLine j).text) ++
              textOf [⟨"\n", []⟩]))) := by
    intro b
    simp only [Bars.dump, textOf, List.flatMap_append, List.flatMap_map]
  intro b b' r r' h
  simp only [htext] at h
  obtain ⟨⟨hsystem, hdma, -⟩, hr⟩ := (TellsApart.after _
    ((tellsApart_flatMap (List.range nRegisters) fun reg _ => tellsApart_systemLine reg).append
      (.after _ ((tellsApart_flatMap (List.range (dmaSize / 4 / 4)) fun j _ =>
        tellsApart_dmaLine j).append (tellsApart_const _))))) b b' r r' h
  refine ⟨fun bar i hi => ?_, hr⟩
  cases bar with
  | system => exact hsystem i (List.mem_range.2 (by simpa [Bar.size] using hi))
  | dma =>
    have hi' : i < 1024 := hi
    have hline := hdma (i / 4) (List.mem_range.2 (show i / 4 < 256 by omega)) (i % 4)
      (Nat.mod_lt i (by decide))
    rwa [Nat.div_add_mod] at hline

/-- What two stores have in common if device `d` is shown alike. -/
structure Board.ShownAlike (B : Board N) (d : ℕ) (s s' : Store) : Prop where
  inUse : s (.inUse d) = 0#32 ↔ s' (.inUse d) = 0#32
  bars : s (.inUse d) ≠ 0#32 → (B.bars d s).Same (B.bars d s')

theorem tellsApart_shown (B : Board N) (d : ℕ) :
    TellsApart (fun s : Store => textOf (B.shown d s)) (B.ShownAlike d) := by
  -- behind the number of the device, the two forms differ in the first letter
  have hdiffer : ∀ (b : Bars) r r', textOf [⟨"Device %i not in use.\n\n",
      [(B.dummyPrivateData d).slotNr]⟩] ++ r ≠
      textOf (b.dump (B.dummyPrivateData d).slotNr) ++ r' := by
    intro b r r' h
    have hnot : ∀ slotNr : U32, textOf [⟨"Device %i not in use.\n\n", [slotNr]⟩] =
        ['D', 'e', 'v', 'i', 'c', 'e', ' '] ++ (decimal slotNr.toInt ++
          ' ' :: 'n' :: "ot in use.\n\n".toList) := by
      intro slotNr
      rw [textOf, List.flatMap_singleton]
      dsimp only [SeqLine.text]
      rfl
    have hdump : ∀ slotNr : U32, ∃ t, textOf (b.dump slotNr) =
        ['D', 'e', 'v', 'i', 'c', 'e', ' '] ++ (decimal slotNr.toInt ++ ' ' :: 'S' :: t) := by
      intro slotNr
      have hfirst : (SeqLine.mk "Device %i System Bar:\n" [slotNr]).text =
          ['D', 'e', 'v', 'i', 'c', 'e', ' '] ++ (decimal slotNr.toInt ++
            ' ' :: 'S' :: "ystem Bar:\n".toList) := by
        dsimp only [SeqLine.text]
        rfl
      rw [textOf, Bars.dump, List.cons_append, List.flatMap_cons, hfirst, List.append_assoc,
        List.append_assoc]
      exact ⟨_, rfl⟩
    obtain ⟨t, ht⟩ := hdump (B.dummyPrivateData d).slotNr
    rw [hnot, ht, List.append_assoc, List.append_assoc, List.append_assoc, List.append_assoc] at h
    have hrest := List.append_cancel_left (List.append_cancel_left h)
    injection hrest with _ hrest
    injection hrest with hletter
    exact absurd hletter (by decide)
  intro s s' r r' h
  dsimp only [Board.shown] at h
  by_cases hs : s (.inUse d) = 0#32
  · by_cases hs' : s' (.inUse d) = 0#32
    · rw [if_pos hs, if_pos hs'] at h
      exact ⟨⟨⟨fun _ => hs', fun _ => hs⟩, fun hne => absurd hs hne⟩, List.append_cancel_left h⟩
    · rw [if_pos hs, if_neg hs'] at h
      exact absurd h (hdiffer _ _ _)
  · by_cases hs' : s' (.inUse d) = 0#32
    · rw [if_neg hs, if_pos hs'] at h
      exact absurd h.symm (hdiffer _ _ _)
    · rw [if_neg hs, if_neg hs'] at h
      obtain ⟨hbars, hr⟩ := tellsApart_dump _ (B.bars d s) (B.bars d s') r r' h
      exact ⟨⟨⟨fun h0 => absurd h0 hs, fun h0 => absurd h0 hs'⟩, fun _ => hbars⟩, hr⟩

/-- **The text of the proc file is faithful.**  Two texts of the whole file are
    equal only if the same devices were in use, and every word of the bars of
    those was the same. -/
theorem proc_text_faithful (B : Board N) {found found' : ℕ → Store}
    (h : textOf ((List.range N).flatMap fun d => B.shown d (found d)) =
      textOf ((List.range N).flatMap fun d => B.shown d (found' d))) :
    ∀ d < N, B.ShownAlike d (found d) (found' d) := by
  have htext : ∀ found : ℕ → Store, textOf ((List.range N).flatMap fun d => B.shown d (found d)) =
      (List.range N).flatMap fun d => textOf (B.shown d (found d)) := fun found => by
    simp only [textOf, List.flatMap_assoc]
  rw [htext, htext] at h
  have happart := tellsApart_flatMap (List.range N) fun d _ =>
    (tellsApart_shown B d).comp fun found : ℕ → Store => found d
  exact fun d hd => (happart found found' [] [] (congrArg (· ++ []) h)).1 d (List.mem_range.2 hd)

/-- Bars whose words are not zero. -/
def usedBars : Bars := ⟨fun i => BitVec.ofNat 32 (i + 17), fun i => BitVec.ofNat 32 (i + 34)⟩

/-- Device 6 has `n` open files and these bars. -/
def usedStore (n : U32) : Store :=
  loadedBoard.put 6 usedBars (Function.update (readyStore (fun _ _ => n) nrDevs) (.inUse 6) n)

theorem usedStore_inUse (n : U32) : usedStore n (.inUse 6) = n := by
  rw [usedStore, put_inUse, Function.update_self]

theorem usedStore_bars (n : U32) : loadedBoard.bars 6 (usedStore n) = usedBars :=
  bars_put (by decide)

/-- What is shown does not depend on how many files are open. -/
theorem shown_usedStore {n : U32} (hn : n ≠ 0#32) (d : ℕ) :
    loadedBoard.shown d (usedStore n) =
      if d = 6 then usedBars.dump (loadedBoard.dummyPrivateData d).slotNr
      else [⟨"Device %i not in use.\n\n", [(loadedBoard.dummyPrivateData d).slotNr]⟩] := by
  unfold Board.shown
  by_cases hd : d = 6
  · subst hd
    rw [usedStore_inUse, if_neg hn, if_pos rfl, usedStore_bars]
  · have hne : Loc.inUse d ≠ .inUse 6 := fun h => hd (Loc.inUse.inj h)
    rw [usedStore, put_inUse, Function.update_of_ne hne, if_neg hd]
    exact if_pos rfl

/-- A device with one open file and with two. -/
theorem proc_text_faithful_used :
    usedStore 1#32 (.inUse 6) = 1#32 ∧ loadedBoard.bars 6 (usedStore 1#32) = usedBars ∧
      loadedBoard.ShownAlike 6 (usedStore 1#32) (usedStore 2#32) := by
  refine ⟨usedStore_inUse _, usedStore_bars _, ?_⟩
  refine @proc_text_faithful nrDevs loadedBoard (fun _ => usedStore 1#32)
    (fun _ => usedStore 2#32) (congrArg textOf ?_) 6 (by decide)
  exact List.flatMap_congr fun d _ =>
    (shown_usedStore (by decide) d).trans (shown_usedStore (by decide) d).symm

end MtcaDummy

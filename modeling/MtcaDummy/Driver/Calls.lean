/-
  Concurrent calls of the entry points: any number of calls, each with its own
  user memory, file position and signals, in every interleaving of their
  instructions.

  A read by DMA whose sum wraps reads words that are none of its device
  (`wrappedRead`); calls in range keep the lock discipline and are serialisable.
-/
import MtcaDummy.Conc.Schedule
import MtcaDummy.Conc.Serial
import MtcaDummy.Driver.Copies
import MtcaDummy.Driver.Discipline

namespace MtcaDummy

open Conc

variable {N : ℕ}

/-- The programs of the calls `e t`, with the local state `ℓ t`. -/
def Board.calls (B : Board N) {ι : Type} (e : ι → Entry N) (ℓ : ι → Local) (t : ι) :
    KProg (ℤ × Local) :=
  (e t).body B (ℓ t)

section
variable {B : Board N} {ι : Type} [DecidableEq ι] {e : ι → Entry N} {ℓ : ι → Local} {s : Store}
  {h : List (Event ι)} {cfg : Config ι Loc.Val Mutex Note (ℤ × Local)}

theorem finish_calls_store (t : ι) : (cfg.finish t (B.calls e ℓ t)).store =
    (exec ((e t).body B) (ℓ t) cfg.store).store := rfl

/-! ## A read that leaves its bar -/

/-- The blocks lie 1 GiB one behind the other. -/
def Layout.sparse : Layout where
  address p := 2 ^ 28 * p
  wordAt a := (a / 2 ^ 28, a % 2 ^ 28)
  address_wordAt a := Nat.div_add_mod a (2 ^ 28)

def sparseBoard : Board nrDevs := Board.ready nrDevs_le .sparse

/-- What calls come to on the devices just loaded, following a schedule. -/
def sparseRun {ι : Type} [DecidableEq ι] (e : ι → Entry nrDevs) (ℓ : ι → Local) (ts : List ι) :
    Config ι Loc.Val Mutex Note (ℤ × Local) :=
  (Config.start (readyStore (fun _ _ => 0#32) nrDevs)).play (sparseBoard.calls e ℓ) ts

theorem sparseRun_run (e : ι → Entry nrDevs) (ℓ : ι → Local) (ts : List ι) :
    ∃ h, Run (sparseBoard.calls e ℓ) (readyStore (fun _ _ => 0#32) nrDevs) h (sparseRun e ℓ ts) :=
  Run.nil.play ts

/-- A read by DMA of 12 bytes from `0xFFFFFFFC` on, on device 4: the sum is 8,
    and the last two words are the first two of bar 2 of device 6.  Beside it,
    a write of these two. -/
def wrappedRead : Bool → Entry nrDevs
  | true => .read llrfSlot 0 24
  | false => .writeNoStruct pcieuniSlot 0 8

def wrappedLocal : Bool → Local
  | true => dmaLocal 0xFFFFFFFC#32 12#32
  | false => ⟨.ofBytes (bytesOf [17#32, 34#32]), [], 2 * 2 ^ 60, none, []⟩

/-- Two calls on device 6: a read by DMA of the first two words of bar 2, and
    beside it a write of these two. -/
def readBesideWrite : Bool → Entry nrDevs
  | true => .pcieuniIoctl pcieuniSlot pcieuniReadDma 0
  | false => .writeNoStruct pcieuniSlot 0 8

def besideLocal : Bool → Local
  | true => ⟨.ofBytes (bytesOf [0#32, 8#32]), [], 0, none, []⟩
  | false => ⟨.ofBytes (bytesOf [17#32, 34#32]), [], 2 * 2 ^ 60, none, []⟩

theorem readBesideWrite_inRange (t : Bool) : (readBesideWrite t).InRange (besideLocal t) := by
  cases t with
  | true =>
    rintro offset size ⟨⟩ -
    decide
  | false => exact Entry.inRange_of_none rfl

/-- The return value of a call, and the first `n` words of its memory. -/
def answerWords (n : ℕ) (a : ℤ × Local) : ℤ × List U32 :=
  (a.1, (List.range n).map fun i => wordAt a.2.user.byte (4 * i))

/-! ## Locks -/

/-- **Lock discipline and absence of deadlock.**  In every reachable
    configuration, the next instruction of a call in progress

    * takes only a mutex the call does not hold, and no device mutex while it
      holds the control mutex,
    * releases only a mutex the call holds,
    * touches the words of a bar, if the call is in range, only while it holds
      the mutex of the device, and the flags only while it holds the control
      mutex;

    a call that has returned, or is about to, holds no mutex; and calls never
    wait for each other in a cycle. -/
theorem calls_keep_discipline (hr : Run (B.calls e ℓ) s h cfg) :
    (∀ t i k, cfg.thread t = .running (.op i k) →
      (∀ m intr, i = .lock m intr → cfg.owner m ≠ some t ∧
        ∀ d, m = .devMutex d → cfg.owner .controlMutex ≠ some t) ∧
      (∀ m, i = .unlock m → cfg.owner m = some t) ∧
      ((e t).InRange (ℓ t) → ∀ d < N, ∀ b j, B.InBar d b j → i.Touches (.word b j) →
        cfg.owner (.devMutex d) = some t) ∧
      ∀ f, i.Touches (.flag f) → cfg.owner .controlMutex = some t) ∧
    (∀ t, (∀ i k, cfg.thread t ≠ .running (.op i k)) → ∀ m, cfg.owner m ≠ some t) ∧
    ∀ t, ¬ Relation.TransGen cfg.Waits t t := by
  -- each call keeps the discipline for the words as far as it is in range
  have hc : ∀ t, Disciplined (B.protection ((e t).InRange (ℓ t))) (B.calls e ℓ t) :=
    fun t => Entry.disciplined id
  have hlocks : ∀ t, Disciplined (B.protection False) (B.calls e ℓ t) :=
    fun t => Entry.disciplined_any (e t) (ℓ t)
  refine ⟨fun t i k ht => ?_, fun t ht => hr.released hc ht, hr.acyclic hlocks⟩
  have hob : i.Obeys (B.protection ((e t).InRange (ℓ t))) cfg.owner t := hr.obeys hc ht
  refine ⟨?_, ?_, ?_, ?_⟩
  · rintro m intr rfl
    refine ⟨hob.1, ?_⟩
    rintro d rfl hown
    exact absurd (hob.2 _ hown) (Nat.not_lt_zero _)
  · rintro m rfl
    exact hob
  · intro hin d hd b j hb htouch
    exact hob.guarded (m := .devMutex d) htouch ⟨hin, hd, hb⟩
  · intro f htouch
    exact hob.guarded (m := .controlMutex) htouch trivial

/-- The write waits for the read, which is about to copy its first word. -/
theorem calls_keep_discipline_beside : ∃ h cfg k,
    Run (sparseBoard.calls readBesideWrite besideLocal) (readyStore (fun _ _ => 0#32) nrDevs) h
      cfg ∧
    cfg.thread true = .running (.op (.load (.word 14 0)) k) ∧
    cfg.owner (.devMutex 6) = some true ∧
    cfg.Waits false true ∧ ¬ Relation.TransGen cfg.Waits false false := by
  obtain ⟨h, hr⟩ := sparseRun_run readBesideWrite besideLocal
    [true, true, true, false, false, false, false]
  obtain ⟨hsteps, -, hacyclic⟩ := calls_keep_discipline hr
  exact ⟨_, _, _, hr, rfl,
    (hsteps true _ _ rfl).2.2.1 (readBesideWrite_inRange true) 6 (by decide) 14 0
      ⟨.dma, rfl, by decide⟩ .load,
    ⟨.devMutex 6, ⟨false, _, rfl⟩, rfl⟩, hacyclic false⟩

/-- The wrapped read is about to copy a word of device 6, whose mutex no call
    holds. -/
theorem wrapped_read_unguarded : ∃ h cfg k,
    Run (sparseBoard.calls wrappedRead wrappedLocal) (readyStore (fun _ _ => 0#32) nrDevs) h cfg ∧
    cfg.thread true = .running (.op (.load (.word 14 0)) k) ∧ sparseBoard.InBar 6 14 0 ∧
    cfg.owner (.devMutex 6) = none := by
  obtain ⟨h, hr⟩ := sparseRun_run wrappedRead wrappedLocal (List.replicate 7 true)
  exact ⟨_, _, _, hr, rfl, ⟨.dma, rfl, by decide⟩, rfl⟩

theorem protection_level_le (m : Mutex) : (B.protection False).level m ≤ 1 := by
  cases m with
  | devMutex d => exact Nat.zero_le 1
  | controlMutex => exact Nat.le_refl 1

/-- **Progress.**  A call in progress can step, or it waits, along a chain of
    waiting calls, for one that can. -/
theorem calls_progress (hr : Run (B.calls e ℓ) s h cfg) {t : ι} {p : KProg (ℤ × Local)}
    (ht : cfg.thread t = .running p) :
    ∃ u, Relation.ReflTransGen cfg.Waits t u ∧ cfg.CanStep (B.calls e ℓ) u := by
  have hc : ∀ t, Disciplined (B.protection False) (B.calls e ℓ t) :=
    fun t => Entry.disciplined_any (e t) (ℓ t)
  exact hr.unblocked hc protection_level_le ht

/-! ## Serialisability -/

/-- Reads, writes and ioctls, through either interface. -/
def Entry.Transfer : Entry N → Prop
  | .read _ _ _ | .write _ _ _ | .readNoStruct _ _ _ | .writeNoStruct _ _ _ => True
  | .ioctl _ _ _ | .llrfIoctl _ _ _ | .pcieuniIoctl _ _ _ => True
  | _ => False

/-- A transfer writes only words of the bars. -/
theorem Entry.Transfer.writes {e : Entry N} (he : e.Transfer) (ℓ : Local) :
    (e.body B ℓ).All fun i => ∀ l, i.Writes l → (B.protection True).Resource l := by
  obtain ⟨d, hd, heff⟩ : ∃ d, e.device = some d ∧ e.effect ≠ .counter := by
    cases e <;> first | exact he.elim | exact ⟨_, rfl, by simp [Entry.effect]⟩
  refine (Entry.scope_any hd ℓ).mono fun i hi l hl => ?_
  cases hl with
  | @store l v =>
    cases l with
    | word b j => exact ⟨.devMutex d, ⟨trivial, d.isLt, hi.1⟩, rfl⟩
    | flag f => exact absurd hi id
    | inUse n => exact absurd hi id
  | @modify l f =>
    cases l with
    | word b j => exact absurd hi id
    | flag f => exact absurd hi id
    | inUse n => exact absurd hi.2 heff

/-- **Transfers in range are serialisable.**  When no call is in progress, the
    replies (return value, user memory and file position) and the final store
    are those of executing the calls that replied one after the other, in some
    order that keeps the order of calls that did not overlap. -/
theorem transfers_serialisable (he : ∀ t, (e t).Transfer) (hin : ∀ t, (e t).InRange (ℓ t))
    (hr : Run (B.calls e ℓ) s h cfg) (hdone : ∀ t p, cfg.thread t ≠ .running p) :
    Serialisable (B.calls e ℓ) s h cfg :=
  hr.serialisable (P := B.protection True) (fun t => Entry.disciplined fun _ => hin t)
    (fun t => (he t).writes (ℓ t)) hdone

/-- The write is in its section when the read is called. -/
def besideSchedule : List Bool :=
  List.replicate 5 false ++ [true, false, true, false, true, false] ++ List.replicate 8 true ++
    List.replicate 4 false

theorem besideRun_done (t : Bool) :
    ∃ a, (sparseRun readBesideWrite besideLocal besideSchedule).thread t = .done a := by
  have hsome : ∀ t,
      ((sparseRun readBesideWrite besideLocal besideSchedule).thread t).result.isSome = true := by
    decide +kernel
  exact Thread.exists_done (hsome t)

theorem besideRun_read : ((sparseRun readBesideWrite besideLocal besideSchedule).thread
    true).result.map (answerWords 2) = some (0, [17#32, 34#32]) := by decide +kernel

/-- The read waits for the write, and has both its words. -/
theorem transfers_serialisable_beside : ∃ h cfg,
    Run (sparseBoard.calls readBesideWrite besideLocal) (readyStore (fun _ _ => 0#32) nrDevs) h
      cfg ∧
    (cfg.thread false).result.map (answerWords 0) = some (8, []) ∧
    (cfg.thread true).result.map (answerWords 2) = some (0, [17#32, 34#32]) ∧
    Serialisable (sparseBoard.calls readBesideWrite besideLocal)
      (readyStore (fun _ _ => 0#32) nrDevs) h cfg := by
  obtain ⟨h, hr⟩ := sparseRun_run readBesideWrite besideLocal besideSchedule
  refine ⟨h, _, hr, by decide +kernel, besideRun_read, transfers_serialisable
    (fun t => by cases t <;> trivial) readBesideWrite_inRange hr fun t p hp => ?_⟩
  obtain ⟨a, ha⟩ := besideRun_done t
  rw [ha] at hp
  cases hp

/-- An order in which both of two calls come. -/
theorem order_of_two {order : List Bool} (hn : order.Nodup) (hmem : ∀ t, t ∈ order) :
    order = [false, true] ∨ order = [true, false] := by
  have hperm : order.Perm [false, true] :=
    (List.perm_ext_iff_of_nodup hn (by decide)).2 fun t =>
      iff_of_true (hmem t) (by cases t <;> decide)
  have hlen := hperm.length_eq
  match order, hlen with
  | [a, b], _ =>
    cases a <;> cases b <;> simp_all

/-- **A read that wraps can be torn.**  The write of the two words comes
    between their copies: the first is old, the second new. -/
theorem wrapped_read_torn : ∃ h cfg,
    Run (sparseBoard.calls wrappedRead wrappedLocal) (readyStore (fun _ _ => 0#32) nrDevs) h
      cfg ∧
    (∀ t, ∃ a, cfg.thread t = .done a) ∧
    (cfg.thread true).result.map (answerWords 3) = some (12, [0#32, 0#32, 34#32]) ∧
    ¬ Serialisable (sparseBoard.calls wrappedRead wrappedLocal)
      (readyStore (fun _ _ => 0#32) nrDevs) h cfg := by
  let ts := List.replicate 8 true ++ List.replicate 10 false ++ List.replicate 4 true
  obtain ⟨h, hr⟩ := sparseRun_run wrappedRead wrappedLocal ts
  have hdone : ∀ t, ∃ a, (sparseRun wrappedRead wrappedLocal ts).thread t = .done a := by
    have hsome : ∀ t, ((sparseRun wrappedRead wrappedLocal ts).thread t).result.isSome = true := by
      decide +kernel
    exact fun t => Thread.exists_done (hsome t)
  have htorn : ((sparseRun wrappedRead wrappedLocal ts).thread true).result.map (answerWords 3) =
      some (12, [0#32, 0#32, 34#32]) := by decide +kernel
  refine ⟨h, _, hr, hdone, htorn, ?_⟩
  rintro ⟨order, hn, hmem, hreply, -, -⟩
  obtain ⟨a, ha⟩ := hdone true
  rw [ha] at htorn
  have hserial : ((serial (sparseBoard.calls wrappedRead wrappedLocal) order
      (readyStore (fun _ _ => 0#32) nrDevs)).1 true).map (answerWords 3) =
        some (12, [0#32, 0#32, 34#32]) := by
    rw [hreply true a ha]
    exact htorn
  rcases order_of_two hn fun t => (hmem t).2 (hdone t) with rfl | rfl
  · exact absurd hserial (by decide +kernel)
  · exact absurd hserial (by decide +kernel)

end

end MtcaDummy

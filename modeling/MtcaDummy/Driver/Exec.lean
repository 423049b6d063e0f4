/-
  How kernel programs are run and judged: `exec` is the run of a `KM` program
  alone, `wp` and `Every` are the judgements of `Conc.Prog` for it.  The simp
  lemmas push them through the monad down to the kernel calls.
-/
import MtcaDummy.Driver.Kernel

namespace MtcaDummy

open Conc

variable {α β σ : Type}

/-! ## Reading an updated store -/

section
variable (s : Store)

@[simp] theorem update_word_word (b c : Ptr) (i j : ℕ) (v : U32) :
    Function.update s (.word b i) v (.word c j) =
      if c = b ∧ j = i then v else s (.word c j) := by
  by_cases h : c = b ∧ j = i
  · obtain ⟨rfl, rfl⟩ := h
    simp
  · rw [if_neg h, Function.update_of_ne]
    intro he
    injection he with hb hi
    exact h ⟨hb, hi⟩

@[simp] theorem update_word_flag (b : Ptr) (i : ℕ) (v : U32) (f : Flag) :
    Function.update s (.word b i) v (.flag f) = s (.flag f) :=
  Function.update_of_ne (by simp) _ _

@[simp] theorem update_word_inUse (b : Ptr) (i : ℕ) (v : U32) (n : ℕ) :
    Function.update s (.word b i) v (.inUse n) = s (.inUse n) :=
  Function.update_of_ne (by simp) _ _

@[simp] theorem update_flag_word (f : Flag) (v : Bool) (b : Ptr) (i : ℕ) :
    Function.update s (.flag f) v (.word b i) = s (.word b i) :=
  Function.update_of_ne (by simp) _ _

@[simp] theorem update_flag_flag (f g : Flag) (v : Bool) :
    Function.update s (.flag f) v (.flag g) = if g = f then v else s (.flag g) := by
  by_cases h : g = f
  · subst h
    simp
  · rw [if_neg h, Function.update_of_ne (by simpa using h)]

@[simp] theorem update_flag_inUse (f : Flag) (v : Bool) (n : ℕ) :
    Function.update s (.flag f) v (.inUse n) = s (.inUse n) :=
  Function.update_of_ne (by simp) _ _

@[simp] theorem update_inUse_word (n : ℕ) (v : U32) (b : Ptr) (i : ℕ) :
    Function.update s (.inUse n) v (.word b i) = s (.word b i) :=
  Function.update_of_ne (by simp) _ _

@[simp] theorem update_inUse_flag (n : ℕ) (v : U32) (f : Flag) :
    Function.update s (.inUse n) v (.flag f) = s (.flag f) :=
  Function.update_of_ne (by simp) _ _

@[simp] theorem update_inUse_inUse (n m : ℕ) (v : U32) :
    Function.update s (.inUse n) v (.inUse m) = if m = n then v else s (.inUse m) := by
  by_cases h : m = n
  · subst h
    simp
  · rw [if_neg h, Function.update_of_ne (by simpa using h)]

end

/-! ## User memory -/

namespace UserMem

/-- A process that can access all its memory. -/
def ofBytes (b : ℕ → Byte) : UserMem where
  byte := b
  readable _ := true
  writable _ := true
  accessOk _ _ := true
  accessOk_of_readable _ _ _ _ := rfl
  accessOk_of_writable _ _ _ _ := rfl

variable (u : UserMem) (a n : ℕ)

theorem readLen_le : u.readLen a n ≤ n := by
  unfold readLen
  split
  · exact okLen_le _ _ _
  · exact Nat.zero_le n

theorem writeLen_le : u.writeLen a n ≤ n := by
  unfold writeLen
  split
  · exact okLen_le _ _ _
  · exact Nat.zero_le n

variable {u a n}

/-- A copy that is not whole leaves something. -/
theorem readLeft_ne_zero (h : u.readLen a n ≠ n) : n - u.readLen a n ≠ 0 := by
  have := u.readLen_le a n
  omega

theorem writeLeft_ne_zero (h : u.writeLen a n ≠ n) : n - u.writeLen a n ≠ 0 := by
  have := u.writeLen_le a n
  omega

end UserMem

/-- A process without memory. -/
def noUser : UserMem where
  byte _ := 0
  readable _ := false
  writable _ := false
  accessOk _ _ := false
  accessOk_of_readable _ _ hn h := absurd (h 0 hn) Bool.false_ne_true
  accessOk_of_writable _ _ hn h := absurd (h 0 hn) Bool.false_ne_true

/-! ## The signals to come -/

theorem headD_eq_getD (l : List Bool) : l.headD false = l.getD 0 false := by
  cases l <;> rfl

theorem getD_tail (l : List Bool) (i : ℕ) : l.tail.getD i false = l.getD (i + 1) false := by
  cases l <;> rfl

theorem headD_tail_tail (l : List Bool) : l.tail.tail.headD false = l.getD 2 false := by
  rcases l with _ | ⟨a, _ | ⟨b, _ | ⟨c, l⟩⟩⟩ <;> rfl

/-! ## Running alone -/

/-- What a call leaves behind. -/
structure Outcome (α : Type) where
  val : α
  loc : Local
  store : Store

/-- Run the program alone. -/
def exec (x : KM α) (ℓ : Local) (s : Store) : Outcome α :=
  ⟨((x ℓ).exec s).1.1, ((x ℓ).exec s).1.2, ((x ℓ).exec s).2⟩

@[simp] theorem exec_pure (a : α) (ℓ : Local) (s : Store) :
    exec (pure a : KM α) ℓ s = ⟨a, ℓ, s⟩ := rfl

/-- Go on from an outcome. -/
def Outcome.next (o : Outcome α) (f : α → KM β) : Outcome β := exec (f o.val) o.loc o.store

@[simp] theorem next_mk (a : α) (ℓ : Local) (s : Store) (f : α → KM β) :
    (⟨a, ℓ, s⟩ : Outcome α).next f = exec (f a) ℓ s := rfl

@[simp] theorem exec_bind (x : KM α) (f : α → KM β) (ℓ : Local) (s : Store) :
    exec (x >>= f) ℓ s = (exec x ℓ s).next f := by
  have h : (x >>= f) ℓ = (x ℓ) >>= fun r => f r.1 r.2 := rfl
  simp only [exec, Outcome.next, h, Prog.exec_bind]

@[simp] theorem exec_ite (c : Prop) [Decidable c] (x y : KM α) (ℓ : Local) (s : Store) :
    exec (if c then x else y) ℓ s = if c then exec x ℓ s else exec y ℓ s := by
  split <;> rfl

@[simp] theorem exec_lock (m : Mutex) (ℓ : Local) (s : Store) :
    exec (mutexLockInterruptible m) ℓ s =
      ⟨ℓ.signals.headD false, { ℓ with signals := ℓ.signals.tail }, s⟩ := rfl

@[simp] theorem exec_unlock (m : Mutex) (ℓ : Local) (s : Store) :
    exec (mutexUnlock m) ℓ s = ⟨(), ℓ, s⟩ := rfl

@[simp] theorem exec_load (l : Loc) (ℓ : Local) (s : Store) :
    exec (load l) ℓ s = ⟨s l, ℓ, s⟩ := rfl

@[simp] theorem exec_store (l : Loc) (v : l.Val) (ℓ : Local) (s : Store) :
    exec (store l v) ℓ s = ⟨(), ℓ, Function.update s l v⟩ := rfl

@[simp] theorem exec_loadWord (b : Ptr) (i : ℕ) (ℓ : Local) (s : Store) :
    exec (loadWord b i) ℓ s = ⟨s (.word b i), ℓ, s⟩ := rfl

@[simp] theorem exec_storeWord (b : Ptr) (i : ℕ) (v : U32) (ℓ : Local) (s : Store) :
    exec (storeWord b i v) ℓ s = ⟨(), ℓ, Function.update s (.word b i) v⟩ := rfl

@[simp] theorem exec_controlData (f : Flag) (ℓ : Local) (s : Store) :
    exec (controlData f) ℓ s = ⟨s (.flag f), ℓ, s⟩ := rfl

@[simp] theorem exec_atomicInc (n : ℕ) (ℓ : Local) (s : Store) :
    exec (atomicInc n) ℓ s =
      ⟨(), ℓ, Function.update s (.inUse n) (s (.inUse n) + 1 : U32)⟩ := rfl

@[simp] theorem exec_atomicDec (n : ℕ) (ℓ : Local) (s : Store) :
    exec (atomicDec n) ℓ s =
      ⟨(), ℓ, Function.update s (.inUse n) (s (.inUse n) - 1 : U32)⟩ := rfl

@[simp] theorem exec_getPos (ℓ : Local) (s : Store) : exec getPos ℓ s = ⟨ℓ.fPos, ℓ, s⟩ := rfl

@[simp] theorem exec_setPos (p : ℕ) (ℓ : Local) (s : Store) :
    exec (setPos p) ℓ s = ⟨(), { ℓ with fPos := p }, s⟩ := rfl

@[simp] theorem exec_setPrivateData (n : ℕ) (ℓ : Local) (s : Store) :
    exec (setPrivateData n) ℓ s = ⟨(), { ℓ with privateData := some n }, s⟩ := rfl

@[simp] theorem exec_accessOk (a n : ℕ) (ℓ : Local) (s : Store) :
    exec (accessOk a n) ℓ s = ⟨ℓ.user.accessOk a n, ℓ, s⟩ := rfl

/-- What a copy from the user leaves in its destination. -/
def UserMem.fetch (u : UserMem) (src n j : ℕ) : Byte :=
  if j < u.readLen src n then u.byte (src + j) else 0

@[simp] theorem exec_copyFromUser (src n : ℕ) (ℓ : Local) (s : Store) :
    exec (copyFromUser src n) ℓ s =
      ⟨(n - ℓ.user.readLen src n, ℓ.user.fetch src n), ℓ, s⟩ := rfl

@[simp] theorem exec_copyToUser (dst : ℕ) (src : ℕ → Byte) (n : ℕ) (ℓ : Local) (s : Store) :
    exec (copyToUser dst src n) ℓ s = ⟨n - ℓ.user.writeLen dst n,
      { ℓ with user := ℓ.user.set dst (ℓ.user.writeLen dst n) src }, s⟩ := rfl

@[simp] theorem exec_rawCopyToUser (dst : ℕ) (src : ℕ → Byte) (n : ℕ) (ℓ : Local) (s : Store) :
    exec (rawCopyToUser dst src n) ℓ s = ⟨n - okLen ℓ.user.writable dst n,
      { ℓ with user := ℓ.user.set dst (okLen ℓ.user.writable dst n) src }, s⟩ := rfl

/-! ## The instructions executed -/

/-- The instructions of the run alone. -/
def trace (x : KM α) (ℓ : Local) (s : Store) : List KInstr := (x ℓ).trace s

@[simp] theorem trace_pure (a : α) (ℓ : Local) (s : Store) :
    trace (pure a : KM α) ℓ s = [] := rfl

@[simp] theorem trace_bind (x : KM α) (f : α → KM β) (ℓ : Local) (s : Store) :
    trace (x >>= f) ℓ s = trace x ℓ s ++
      trace (f (exec x ℓ s).val) (exec x ℓ s).loc (exec x ℓ s).store := by
  have h : (x >>= f) ℓ = (x ℓ) >>= fun r => f r.1 r.2 := rfl
  simp only [trace, exec, h, Prog.trace_bind]

@[simp] theorem trace_ite (c : Prop) [Decidable c] (x y : KM α) (ℓ : Local) (s : Store) :
    trace (if c then x else y) ℓ s = if c then trace x ℓ s else trace y ℓ s := by
  split <;> rfl

@[simp] theorem trace_lock (m : Mutex) (ℓ : Local) (s : Store) :
    trace (mutexLockInterruptible m) ℓ s = [.lock m (ℓ.signals.headD false)] := rfl

@[simp] theorem trace_unlock (m : Mutex) (ℓ : Local) (s : Store) :
    trace (mutexUnlock m) ℓ s = [.unlock m] := rfl

@[simp] theorem trace_controlData (f : Flag) (ℓ : Local) (s : Store) :
    trace (controlData f) ℓ s = [.load (.flag f)] := rfl

@[simp] theorem trace_accessOk (a n : ℕ) (ℓ : Local) (s : Store) :
    trace (accessOk a n) ℓ s = [] := rfl

@[simp] theorem trace_copyFromUser (src n : ℕ) (ℓ : Local) (s : Store) :
    trace (copyFromUser src n) ℓ s = [] := rfl

/-! ## Judgements -/

section
variable {T : (i : KInstr) → (i.Resp → σ → Prop) → σ → Prop}

/-- `Prog.wp` for a program with local state. -/
def wp (T : (i : KInstr) → (i.Resp → σ → Prop) → σ → Prop) (x : KM α)
    (Q : α → Local → σ → Prop) (ℓ : Local) (st : σ) : Prop :=
  (x ℓ).wp T (fun r st => Q r.1 r.2 st) st

@[simp] theorem wp_pure (a : α) (Q : α → Local → σ → Prop) (ℓ : Local) (st : σ) :
    wp T (pure a) Q ℓ st = Q a ℓ st := rfl

@[simp] theorem wp_bind (x : KM α) (f : α → KM β) (Q : β → Local → σ → Prop) (ℓ : Local)
    (st : σ) : wp T (x >>= f) Q ℓ st = wp T x (fun a => wp T (f a) Q) ℓ st := by
  have h : (x >>= f) ℓ = (x ℓ) >>= fun r => f r.1 r.2 := rfl
  simp only [wp, h, Prog.wp_bind]

@[simp] theorem wp_ite (c : Prop) [Decidable c] (x y : KM α) (Q : α → Local → σ → Prop)
    (ℓ : Local) (st : σ) :
    wp T (if c then x else y) Q ℓ st ↔ (c → wp T x Q ℓ st) ∧ (¬ c → wp T y Q ℓ st) := by
  split <;> simp_all

theorem wp_consequence (hT : Prog.Mono T) {x : KM α} {Q Q' : α → Local → σ → Prop}
    (hQ : ∀ a ℓ st, Q a ℓ st → Q' a ℓ st) {ℓ : Local} {st : σ} (h : wp T x Q ℓ st) :
    wp T x Q' ℓ st := by
  have h' : (x ℓ).wp T (fun r st => Q r.1 r.2 st) st := h
  exact Prog.wp_mono hT (fun r st hr => hQ r.1 r.2 st hr) h'

@[simp] theorem wp_lock (m : Mutex) (Q : Bool → Local → σ → Prop) (ℓ : Local) (st : σ) :
    wp T (mutexLockInterruptible m) Q ℓ st = T (.lock m (ℓ.signals.headD false))
      (fun _ => Q (ℓ.signals.headD false) { ℓ with signals := ℓ.signals.tail }) st := rfl

@[simp] theorem wp_unlock (m : Mutex) (Q : Unit → Local → σ → Prop) (ℓ : Local) (st : σ) :
    wp T (mutexUnlock m) Q ℓ st = T (.unlock m) (fun _ => Q () ℓ) st := rfl

@[simp] theorem wp_load (l : Loc) (Q : l.Val → Local → σ → Prop) (ℓ : Local) (st : σ) :
    wp T (load l) Q ℓ st = T (.load l) (fun v => Q v ℓ) st := rfl

@[simp] theorem wp_store (l : Loc) (v : l.Val) (Q : Unit → Local → σ → Prop) (ℓ : Local)
    (st : σ) : wp T (store l v) Q ℓ st = T (.store l v) (fun _ => Q () ℓ) st := rfl

@[simp] theorem wp_loadWord (b : Ptr) (i : ℕ) (Q : U32 → Local → σ → Prop) (ℓ : Local)
    (st : σ) : wp T (loadWord b i) Q ℓ st = T (.load (.word b i)) (fun v => Q v ℓ) st := rfl

@[simp] theorem wp_storeWord (b : Ptr) (i : ℕ) (v : U32) (Q : Unit → Local → σ → Prop)
    (ℓ : Local) (st : σ) :
    wp T (storeWord b i v) Q ℓ st = T (.store (.word b i) v) (fun _ => Q () ℓ) st := rfl

@[simp] theorem wp_controlData (f : Flag) (Q : Bool → Local → σ → Prop) (ℓ : Local) (st : σ) :
    wp T (controlData f) Q ℓ st = T (.load (.flag f)) (fun v => Q v ℓ) st := rfl

@[simp] theorem wp_atomicInc (n : ℕ) (Q : Unit → Local → σ → Prop) (ℓ : Local) (st : σ) :
    wp T (atomicInc n) Q ℓ st =
      T (.modify (.inUse n) (fun m : U32 => m + 1)) (fun _ => Q () ℓ) st := rfl

@[simp] theorem wp_atomicDec (n : ℕ) (Q : Unit → Local → σ → Prop) (ℓ : Local) (st : σ) :
    wp T (atomicDec n) Q ℓ st =
      T (.modify (.inUse n) (fun m : U32 => m - 1)) (fun _ => Q () ℓ) st := rfl

@[simp] theorem wp_atomicRead (n : ℕ) (Q : U32 → Local → σ → Prop) (ℓ : Local) (st : σ) :
    wp T (atomicRead n) Q ℓ st = T (.load (.inUse n)) (fun v => Q v ℓ) st := rfl

@[simp] theorem wp_seqPrintf (fmt : String) (args : List U32) (Q : Unit → Local → σ → Prop)
    (ℓ : Local) (st : σ) :
    wp T (seqPrintf fmt args) Q ℓ st = Q () { ℓ with seq := ℓ.seq ++ [⟨fmt, args⟩] } st := rfl

@[simp] theorem wp_getPos (Q : ℕ → Local → σ → Prop) (ℓ : Local) (st : σ) :
    wp T getPos Q ℓ st = Q ℓ.fPos ℓ st := rfl

@[simp] theorem wp_setPos (p : ℕ) (Q : Unit → Local → σ → Prop) (ℓ : Local) (st : σ) :
    wp T (setPos p) Q ℓ st = Q () { ℓ with fPos := p } st := rfl

@[simp] theorem wp_setPrivateData (n : ℕ) (Q : Unit → Local → σ → Prop) (ℓ : Local) (st : σ) :
    wp T (setPrivateData n) Q ℓ st = Q () { ℓ with privateData := some n } st := rfl

@[simp] theorem wp_accessOk (a n : ℕ) (Q : Bool → Local → σ → Prop) (ℓ : Local) (st : σ) :
    wp T (accessOk a n) Q ℓ st = Q (ℓ.user.accessOk a n) ℓ st := rfl

@[simp] theorem wp_copyFromUser (src n : ℕ) (Q : ℕ × (ℕ → Byte) → Local → σ → Prop)
    (ℓ : Local) (st : σ) :
    wp T (copyFromUser src n) Q ℓ st =
      Q (n - ℓ.user.readLen src n, ℓ.user.fetch src n) ℓ st := rfl

@[simp] theorem wp_copyToUser (dst : ℕ) (src : ℕ → Byte) (n : ℕ) (Q : ℕ → Local → σ → Prop)
    (ℓ : Local) (st : σ) :
    wp T (copyToUser dst src n) Q ℓ st = Q (n - ℓ.user.writeLen dst n)
      { ℓ with user := ℓ.user.set dst (ℓ.user.writeLen dst n) src } st := rfl

end

/-! ## Properties of all instructions -/

/-- Every instruction of the program, whatever its local state, satisfies
    `P`. -/
def Every (P : KInstr → Prop) (x : KM α) : Prop := ∀ ℓ, (x ℓ).All P

section
variable {P : KInstr → Prop}

theorem every_pure (a : α) : Every P (pure a) := fun _ => trivial

theorem Every.bind {x : KM α} {f : α → KM β} (hx : Every P x) (hf : ∀ a, Every P (f a)) :
    Every P (x >>= f) :=
  fun ℓ => (hx ℓ).bind fun r => hf r.1 r.2

theorem Every.ite {c : Prop} [Decidable c] {x y : KM α} (hx : Every P x) (hy : Every P y) :
    Every P (if c then x else y) := by
  split
  · exact hx
  · exact hy

end

end MtcaDummy

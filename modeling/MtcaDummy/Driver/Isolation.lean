/-
  Devices do not interfere.

  `World.Like B a` relates two worlds that look alike to the calls on device
  `a`: its cells and its open files are the same.  A call on another device
  leaves the world alike (`step_other`), and a call on `a` or of the proc file
  replies alike in worlds that are alike (`step_like`).
  `devices_do_not_interfere` puts the two together over runs.
-/
import MtcaDummy.Driver.Discipline
import MtcaDummy.Driver.Init
import MtcaDummy.Driver.Vfs

namespace MtcaDummy

open Conc

variable {N : ℕ}

/-! ## The methods -/

/-- A read by DMA asks for a range whose end does not wrap. -/
def Request.DmaInRange (B : Board N) (r : Request (Handle N)) : Prop :=
  ∀ m p ℓ offset size, r.method B = some m → ℓ.user = r.user →
    (m p).dmaRequest ℓ = some (offset, size) → offset.toNat + size.toNat < 2 ^ 32

/-- If the request of a call is one to read by DMA, it does not wrap. -/
def Request.InRange (B : Board N) (r : Request (Handle N)) : Prop :=
  ∀ m p ℓ, r.method B = some m → ℓ.user = r.user → (m p).InRange ℓ

theorem Request.DmaInRange.inRange {B : Board N} {r : Request (Handle N)} (h : r.DmaInRange B) :
    r.InRange B :=
  fun m p ℓ hm hu offset size hreq _ => h m p ℓ offset size hm hu hreq

/-- A method is an entry point on the device it is given. -/
theorem Request.method_device {B : Board N} {r : Request (Handle N)} {m : Fin N → Entry N}
    (hm : r.method B = some m) (p : Fin N) : (m p).device = some p := by
  obtain ⟨call, user, signals⟩ := r
  have hops : ∀ d : Fin N, (∀ m, (B.ops d).opn = some m → ∀ p, (m p).device = some p) ∧
      (∀ m, (B.ops d).release = some m → ∀ p, (m p).device = some p) ∧
      (∀ m, (B.ops d).read = some m → ∀ p buf count, (m p buf count).device = some p) ∧
      (∀ m, (B.ops d).write = some m → ∀ p buf count, (m p buf count).device = some p) ∧
      ∀ m, (B.ops d).unlockedIoctl = some m → ∀ p cmd arg, (m p cmd arg).device = some p := by
    intro d
    unfold Board.ops
    split
    · rename_i name _
      cases name <;> refine ⟨?_, ?_, ?_, ?_, ?_⟩ <;> rintro m ⟨⟩ <;> intros <;> rfl
    · exact ⟨nofun, nofun, nofun, nofun, nofun⟩
  cases call with
  | opn h => exact (hops h.slot).1 m hm p
  | release h => exact (hops h.slot).2.1 m hm p
  | read h buf count pos =>
    obtain ⟨m', hm', rfl⟩ := Option.map_eq_some_iff.1 hm
    exact (hops h.slot).2.2.1 m' hm' p buf count
  | write h buf count pos =>
    obtain ⟨m', hm', rfl⟩ := Option.map_eq_some_iff.1 hm
    exact (hops h.slot).2.2.2.1 m' hm' p buf count
  | ioctl h cmd arg =>
    obtain ⟨m', hm', rfl⟩ := Option.map_eq_some_iff.1 hm
    exact (hops h.slot).2.2.2.2 m' hm' p cmd arg
  | procWrite ubuf count => cases hm

/-- The request that a read or an ioctl would make is in range. -/
def Request.decodesInRange (r : Request (Handle N)) : Bool :=
  match r.call with
  | .read _ buf _ _ =>
    let q := DeviceRw.ofBytes (r.user.fetch buf sizeofDeviceRw)
    q.offsetRw.toNat + q.sizeRw.toNat < 2 ^ 32
  | .ioctl _ _ arg =>
    let q := DeviceIoctrlDma.ofBytes (r.user.fetch arg sizeofDeviceIoctrlDma)
    q.dmaOffset.toNat + q.dmaSize.toNat < 2 ^ 32
  | _ => true

theorem Request.dmaInRange_of_decodes {B : Board N} {r : Request (Handle N)}
    (hr : r.decodesInRange = true) : r.DmaInRange B := by
  obtain ⟨call, user, signals⟩ := r
  intro m p ℓ offset size hm hu hreq
  dsimp only at hu
  have hops : ∀ d : Fin N, B.ops d = {} ∨ ∃ name : FopsName, B.ops d = name.ops := by
    intro d
    unfold Board.ops
    split
    · exact .inr ⟨_, rfl⟩
    · exact .inl rfl
  cases call with
  | opn h =>
    rw [opn_eq hm] at hreq
    cases hreq
  | release h =>
    simp only [Request.method] at hm
    rcases hops h.slot with he | ⟨name, he⟩ <;> rw [he] at hm
    · cases hm
    · cases name <;> cases hm <;> cases hreq
  | read h buf count pos =>
    simp only [Request.method] at hm
    rcases hops h.slot with he | ⟨name, he⟩ <;> rw [he] at hm
    · cases hm
    · cases name <;> cases hm <;> simp_all [Entry.dmaRequest, Request.decodesInRange]
  | write h buf count pos =>
    simp only [Request.method] at hm
    rcases hops h.slot with he | ⟨name, he⟩ <;> rw [he] at hm
    · cases hm
    · cases name <;> cases hm <;> cases hreq
  | ioctl h cmd arg =>
    simp only [Request.method] at hm
    rcases hops h.slot with he | ⟨name, he⟩ <;> rw [he] at hm
    · cases hm
    · cases name <;> cases hm <;> simp_all [Entry.dmaRequest, Request.decodesInRange]
  | procWrite ubuf count => cases hm

/-! ## Single entry points -/

section
variable {B : Board N} {e : Entry N} {a d : Fin N}

/-- A call on another device writes no cell of device `a` ... -/
theorem Entry.writes_no_cell (hd : e.device = some d) (hne : d ≠ a) (ℓ : Local) :
    (e.body B ℓ).All fun i => ∀ l, i.Writes l → ¬ B.Cell a l := by
  refine (Entry.scope_any hd ℓ).mono fun i hi l hw hl => ?_
  cases hw with
  | @store l v =>
    cases l with
    | word p i =>
      have hbar : B.InBar a p i := hl
      exact hne (Fin.ext (hi.1.isBar.unique d.isLt a.isLt hbar.isBar))
    | flag f => exact hi
    | inUse n => exact hi
  | @modify l f =>
    cases l with
    | word p i => exact hi
    | flag f => exact hi
    | inUse n => exact hne (Fin.ext (hi.1.symm.trans hl))

/-- ... and so leaves them alone. -/
theorem Entry.exec_other (hd : e.device = some d) (hne : d ≠ a) (ℓ : Local) (s : Store) {l : Loc}
    (hl : B.Cell a l) : (exec (e.body B) ℓ s).store l = s l :=
  Prog.exec_frame ((Entry.writes_no_cell hd hne ℓ).mono fun _ hi hw => hi l hw hl) s

/-- A call on device `a` replies alike on stores with the same cells of `a`. -/
theorem Entry.exec_like (hd : e.device = some a) {ℓ : Local} (hin : e.InRange ℓ)
    {s s' : Store} (hs : ∀ l, B.Cell a l → s l = s' l) :
    (exec (e.body B) ℓ s).val = (exec (e.body B) ℓ s').val ∧
      (exec (e.body B) ℓ s).loc = (exec (e.body B) ℓ s').loc ∧
      ∀ l, B.Cell a l → (exec (e.body B) ℓ s).store l = (exec (e.body B) ℓ s').store l := by
  obtain ⟨hret, hstore⟩ := Prog.exec_agree (K := {l | B.Cell a l}) (Entry.cells hd hin) hs
  exact ⟨congrArg Prod.fst hret, congrArg Prod.snd hret, hstore⟩

/-- So does a write of the proc file. -/
theorem exec_procWrite_like (ubuf count : ℕ) (ℓ : Local) {s s' : Store}
    (hs : ∀ l, B.Cell a l → s l = s' l) :
    (exec ((Entry.procWrite ubuf count).body B) ℓ s).val =
        (exec ((Entry.procWrite ubuf count).body B) ℓ s').val ∧
      (exec ((Entry.procWrite ubuf count).body B) ℓ s).loc =
        (exec ((Entry.procWrite ubuf count).body B) ℓ s').loc ∧
      ∀ l, B.Cell a l → (exec ((Entry.procWrite ubuf count).body B) ℓ s).store l =
        (exec ((Entry.procWrite ubuf count).body B) ℓ s').store l := by
  obtain ⟨hret, hstore⟩ := Prog.exec_agree (K := {l | B.Cell a l})
    ((every_procWrite ubuf (min count maxRwCount) ℓ).mono fun i hi l hl => by
      obtain ⟨f, rfl⟩ := hi l hl
      trivial) hs
  exact ⟨congrArg Prod.fst hret, congrArg Prod.snd hret, hstore⟩

end

/-! ## Calls -/

/-- A file points to its device, or to none. -/
def World.Valid (w : World N) : Prop :=
  ∀ h f, w.files h = some f → f.privateData = none ∨ f.privateData = some (h.slot : ℕ)

/-- The worlds look alike to the calls on device `a`. -/
structure World.Like (B : Board N) (a : Fin N) (w w' : World N) : Prop where
  cells : ∀ l, B.Cell a l → w.store l = w'.store l
  files : ∀ h, h.slot = a → w.files h = w'.files h

section
variable {B : Board N} {a : Fin N} {w w' : World N} {r : Request (Handle N)}

theorem World.Like.refl (w : World N) : w.Like B a w := ⟨fun _ _ => rfl, fun _ _ => rfl⟩

theorem World.Like.trans {w₁ w₂ w₃ : World N} (h : w₁.Like B a w₂) (h' : w₂.Like B a w₃) :
    w₁.Like B a w₃ :=
  ⟨fun l hl => (h.cells l hl).trans (h'.cells l hl),
    fun f hf => (h.files f hf).trans (h'.files f hf)⟩

theorem World.Like.symm {w₁ w₂ : World N} (h : w₁.Like B a w₂) : w₂.Like B a w₁ :=
  ⟨fun l hl => (h.cells l hl).symm, fun f hf => (h.files f hf).symm⟩

theorem World.Like.setFile (hw : w.Like B a w') (h : Handle N) (f : Option File) :
    (w.setFile h f).Like B a (w'.setFile h f) := by
  refine ⟨hw.cells, fun h' hh' => ?_⟩
  simp only [World.setFile, Function.update_apply, hw.files h' hh']

theorem World.Like.setFile_other (hw : w.Like B a w') {h : Handle N} (hne : h.slot ≠ a)
    (f : Option File) : (w.setFile h f).Like B a w' := by
  refine ⟨hw.cells, fun h' hh' => ?_⟩
  have hne' : h' ≠ h := fun he => hne (he ▸ hh')
  simp only [World.setFile, Function.update_of_ne hne']
  exact hw.files h' hh'

theorem toDevice_some (d : Fin N) : toDevice (N := N) (some d.val) = some d := by
  simp [toDevice, d.isLt]

/-- An open file points to its device, or to none. -/
theorem World.Valid.toDevice (hw : w.Valid) {h : Handle N} {f : File} (hf : w.files h = some f) :
    toDevice (N := N) f.privateData = none ∨ toDevice f.privateData = some h.slot := by
  rcases hw h f hf with hp | hp
  · exact .inl (by rw [hp]; rfl)
  · exact .inr (by rw [hp, toDevice_some])

theorem World.Valid.setFile {s : Store} (hw : w.Valid) (h : Handle N) {f : Option File}
    (hf : ∀ f', f = some f' → f'.privateData = none ∨ f'.privateData = some (h.slot : ℕ)) :
    ({ w with store := s }.setFile h f).Valid := by
  intro h' f' hf'
  simp only [World.setFile, Function.update_apply] at hf'
  split at hf'
  · rename_i he
    subst he
    exact hf f' hf'
  · exact hw h' f' hf'

theorem chrdevOpen_valid (hw : w.Valid) (h : Handle N) (hr : r.call = .opn h) :
    (w.chrdevOpen B r h).2.Valid := by
  unfold World.chrdevOpen
  split
  · exact hw
  · split
    · refine hw.setFile (s := w.store) h ?_
      rintro f' ⟨⟩
      exact .inl rfl
    · rename_i m hm
      rw [Request.method, hr] at hm
      rw [opn_eq hm]
      simp only [Entry.body, exec_open]
      split_ifs with h₁ h₂ h₃ h₄ h₅
      · exact hw
      · exact absurd (show -ERESTARTSYS < 0 by decide) h₂
      · exact hw
      · exact absurd (show -EINVAL < 0 by decide) h₄
      · exact hw
      · refine hw.setFile h ?_
        rintro f' ⟨⟩
        exact .inr rfl

theorem fput_valid (hw : w.Valid) (h : Handle N) : (w.fput B r h).2.Valid := by
  unfold World.fput
  split
  · exact hw
  · split
    · exact hw.setFile (s := w.store) h fun _ hf => nomatch hf
    · exact hw.setFile h fun _ hf => nomatch hf

theorem vfsTransfer_valid (hw : w.Valid) (h : Handle N) (pos : Option ℕ) :
    (w.vfsTransfer B r h pos).2.Valid := by
  unfold World.vfsTransfer
  split
  · exact hw
  · rename_i f hf
    split
    · exact hw
    · dsimp only
      split
      · refine hw.setFile h ?_
        rintro f' ⟨⟩
        exact hw h f hf
      · exact hw

theorem vfsIoctl_valid (hw : w.Valid) (h : Handle N) : (w.vfsIoctl B r h).2.Valid := by
  unfold World.vfsIoctl
  split
  · exact hw
  · split
    · exact hw
    · exact hw

/-- **Every call keeps the files valid.** -/
theorem step_valid (hw : w.Valid) : (w.step B r).2.Valid := by
  unfold World.step
  split
  · exact chrdevOpen_valid hw _ ‹_›
  · exact fput_valid hw _
  · exact vfsTransfer_valid hw _ _
  · exact vfsTransfer_valid hw _ _
  · exact vfsIoctl_valid hw _
  · exact hw

/-! ### Calls on another device -/

theorem run₁_other (hw : w.Valid) {h : Handle N} (hne : h.slot ≠ a) {f : File}
    (hf : w.files h = some f) {pos : ℕ} {o : Outcome ℤ} (ho : w.run₁ B r f pos = some o) :
    World.Like B a { w with store := o.store } w := by
  obtain ⟨m, hm, ho⟩ := Option.bind_eq_some_iff.1 ho
  obtain ⟨p, hp, rfl⟩ := Option.map_eq_some_iff.1 ho
  have hslot : p = h.slot := by
    rcases hw.toDevice hf with hnone | hsome
    · rw [hnone] at hp
      cases hp
    · rw [hsome] at hp
      cases hp
      rfl
  refine ⟨fun l hl => ?_, fun _ _ => rfl⟩
  exact Entry.exec_other (Request.method_device hm p) (hslot ▸ hne) _ _ hl

theorem vfsTransfer_other (hw : w.Valid) {h : Handle N} (hne : h.slot ≠ a) {pos : Option ℕ} :
    (w.vfsTransfer B r h pos).2.Like B a w := by
  unfold World.vfsTransfer
  split
  · exact .refl w
  · split
    · exact .refl w
    · have hlike := run₁_other (a := a) hw hne ‹_› ‹_›
      dsimp only
      split
      · exact hlike.setFile_other hne _
      · exact hlike

/-- **A call on another device leaves the world alike.** -/
theorem step_other (hw : w.Valid) {h : Handle N} (hr : r.call.file = some h)
    (hne : h.slot ≠ a) : (w.step B r).2.Like B a w := by
  obtain ⟨call, user, signals⟩ := r
  cases call with
  | opn h' =>
    cases hr
    simp only [World.step, World.chrdevOpen]
    split
    · exact .refl w
    · split
      · exact (World.Like.refl w).setFile_other hne _
      · rename_i m hm
        have hlike : World.Like B a { w with store := (exec ((m h.slot).body B)
            (World.enter ⟨.opn h, user, signals⟩ 0 none) w.store).store } w :=
          ⟨fun l hl => Entry.exec_other (Request.method_device hm h.slot) hne _ _ hl,
            fun _ _ => rfl⟩
        split
        · exact hlike
        · exact hlike.setFile_other hne _
  | release h' =>
    cases hr
    simp only [World.step, World.fput]
    split
    · exact .refl w
    · split
      · exact (World.Like.refl w).setFile_other hne _
      · exact (run₁_other hw hne ‹_› ‹_›).setFile_other hne _
  | read h' buf count pos =>
    cases hr
    exact vfsTransfer_other hw hne
  | write h' buf count pos =>
    cases hr
    exact vfsTransfer_other hw hne
  | ioctl h' cmd arg =>
    cases hr
    simp only [World.step, World.vfsIoctl]
    split
    · exact .refl w
    · split
      · exact .refl w
      · exact run₁_other hw hne ‹_› ‹_›
  | procWrite ubuf count => cases hr

/-! ### Calls on the device -/

/-- The replies are the same, and the worlds still look alike. -/
def Alike (B : Board N) (a : Fin N) (x x' : Reply × World N) : Prop :=
  x.1 = x'.1 ∧ x.2.Like B a x'.2

theorem run₁_like (hw : w.Valid) (hlike : w.Like B a w') (hdma : r.DmaInRange B) {h : Handle N}
    (ha : h.slot = a) {f : File} (hf : w.files h = some f) (pos : ℕ) :
    (w.run₁ B r f pos = none ∧ w'.run₁ B r f pos = none) ∨
      ∃ o o', w.run₁ B r f pos = some o ∧ w'.run₁ B r f pos = some o' ∧ o.val = o'.val ∧
        o.loc = o'.loc ∧
        World.Like B a { w with store := o.store } { w' with store := o'.store } := by
  cases hm : r.method B with
  | none => simp [World.run₁, hm]
  | some m =>
    rcases hw.toDevice hf with hp | hp
    · simp [World.run₁, hm, hp]
    · obtain ⟨hval, hloc, hstore⟩ := Entry.exec_like (B := B) (ℓ := World.enter r pos f.privateData)
        (Request.method_device hm a) (hdma.inRange m a _ hm rfl) hlike.cells
      refine .inr ⟨_, _, ?_, ?_, hval, hloc, hstore, hlike.files⟩
      · rw [World.run₁, hm, hp, ha]
        rfl
      · rw [World.run₁, hm, hp, ha]
        rfl

theorem vfsTransfer_like (hw : w.Valid) (hlike : w.Like B a w') (hdma : r.DmaInRange B)
    {h : Handle N} (ha : h.slot = a) (pos : Option ℕ) :
    Alike B a (w.vfsTransfer B r h pos) (w'.vfsTransfer B r h pos) := by
  unfold World.vfsTransfer
  rw [← hlike.files h ha]
  cases hf : w.files h with
  | none => exact ⟨rfl, hlike⟩
  | some f =>
    dsimp only
    rcases run₁_like hw hlike hdma ha hf (pos.getD f.fPos) with ⟨ho, ho'⟩ | ⟨o, o', ho, ho', hrest⟩
    · rw [ho, ho']
      exact ⟨rfl, hlike⟩
    · obtain ⟨hval, hloc, hlike'⟩ := hrest
      rw [ho, ho']
      dsimp only
      rw [hval, hloc]
      split
      · exact ⟨rfl, hlike'.setFile h _⟩
      · exact ⟨rfl, hlike'⟩

theorem fput_like (hw : w.Valid) (hlike : w.Like B a w') (hdma : r.DmaInRange B)
    {h : Handle N} (ha : h.slot = a) : Alike B a (w.fput B r h) (w'.fput B r h) := by
  unfold World.fput
  rw [← hlike.files h ha]
  cases hf : w.files h with
  | none => exact ⟨rfl, hlike⟩
  | some f =>
    dsimp only
    rcases run₁_like hw hlike hdma ha hf f.fPos with ⟨ho, ho'⟩ | ⟨o, o', ho, ho', hrest⟩
    · rw [ho, ho']
      exact ⟨rfl, hlike.setFile h _⟩
    · obtain ⟨-, hloc, hlike'⟩ := hrest
      rw [ho, ho']
      dsimp only
      rw [hloc]
      exact ⟨rfl, hlike'.setFile h _⟩

theorem vfsIoctl_like (hw : w.Valid) (hlike : w.Like B a w') (hdma : r.DmaInRange B)
    {h : Handle N} (ha : h.slot = a) : Alike B a (w.vfsIoctl B r h) (w'.vfsIoctl B r h) := by
  unfold World.vfsIoctl
  rw [← hlike.files h ha]
  cases hf : w.files h with
  | none => exact ⟨rfl, hlike⟩
  | some f =>
    dsimp only
    rcases run₁_like hw hlike hdma ha hf f.fPos with ⟨ho, ho'⟩ | ⟨o, o', ho, ho', hrest⟩
    · rw [ho, ho']
      exact ⟨rfl, hlike⟩
    · obtain ⟨hval, hloc, hlike'⟩ := hrest
      rw [ho, ho']
      dsimp only
      rw [hval, hloc]
      exact ⟨rfl, hlike'⟩

theorem chrdevOpen_like (hlike : w.Like B a w') (hdma : r.DmaInRange B) {h : Handle N}
    (ha : h.slot = a) : Alike B a (w.chrdevOpen B r h) (w'.chrdevOpen B r h) := by
  unfold World.chrdevOpen
  rw [← hlike.files h ha]
  cases w.files h with
  | some f => exact ⟨rfl, hlike⟩
  | none =>
    dsimp only
    cases hm : r.method B with
    | none => exact ⟨rfl, hlike.setFile h _⟩
    | some m =>
      obtain ⟨hval, hloc, hstore⟩ := Entry.exec_like (B := B) (ℓ := World.enter r 0 none)
        (Request.method_device hm a) (hdma.inRange m a _ hm rfl) hlike.cells
      have hlike' : World.Like B a
          { w with store := (exec ((m a).body B) (World.enter r 0 none) w.store).store }
          { w' with store := (exec ((m a).body B) (World.enter r 0 none) w'.store).store } :=
        ⟨hstore, hlike.files⟩
      dsimp only
      rw [ha, hval, hloc]
      split
      · exact ⟨rfl, hlike'⟩
      · exact ⟨rfl, hlike'.setFile h _⟩

/-- **A call on the device replies alike in worlds that are alike**, and so
    does a write of the proc file. -/
theorem step_like (hw : w.Valid) (hlike : w.Like B a w') (hdma : r.DmaInRange B)
    (hr : ∀ h, r.call.file = some h → h.slot = a) : Alike B a (w.step B r) (w'.step B r) := by
  obtain ⟨call, user, signals⟩ := r
  cases call with
  | opn h => exact chrdevOpen_like hlike hdma (hr h rfl)
  | release h => exact fput_like hw hlike hdma (hr h rfl)
  | read h buf count pos => exact vfsTransfer_like hw hlike hdma (hr h rfl) pos
  | write h buf count pos => exact vfsTransfer_like hw hlike hdma (hr h rfl) pos
  | ioctl h cmd arg => exact vfsIoctl_like hw hlike hdma (hr h rfl)
  | procWrite ubuf count =>
    obtain ⟨hval, hloc, hstore⟩ := exec_procWrite_like ubuf count
      (World.enter ⟨.procWrite ubuf count, user, signals⟩ 0 none) hlike.cells
    refine ⟨?_, hstore, hlike.files⟩
    simp only [World.step, World.procWrite, hval, hloc]

end

/-! ## Runs -/

/-- The call is not on a file of another device. -/
def Request.concerns (a : Fin N) (r : Request (Handle N)) : Bool :=
  r.call.file.all fun h => h.slot = a

section
variable {B : Board N} {a : Fin N}

/-- The run without the calls on other devices. -/
theorem run_like (rs : List (Request (Handle N))) {w w' : World N} (hw : w.Valid)
    (hlike : w.Like B a w') (hdma : ∀ r ∈ rs, r.DmaInRange B) :
    ((w.run B rs).1.filter fun x => x.1.concerns a) = (w'.run B (rs.filter (·.concerns a))).1 ∧
      (w.run B rs).2.Like B a (w'.run B (rs.filter (·.concerns a))).2 := by
  induction rs generalizing w w' with
  | nil => exact ⟨rfl, hlike⟩
  | cons r rs ih =>
    have hrs : ∀ r ∈ rs, r.DmaInRange B := fun r hr => hdma r (List.mem_cons_of_mem _ hr)
    cases hc : r.concerns a with
    | true =>
      have hr : ∀ h, r.call.file = some h → h.slot = a := fun h hh => by
        rw [Request.concerns, hh] at hc
        simpa using hc
      obtain ⟨hreply, hstep⟩ := step_like hw hlike (hdma r List.mem_cons_self) hr
      obtain ⟨hreplies, hend⟩ := ih (step_valid hw) hstep hrs
      simp only [run_cons, List.filter_cons, hc, if_true, hreply, hreplies]
      exact ⟨trivial, hend⟩
    | false =>
      obtain ⟨h, hh, hne⟩ : ∃ h, r.call.file = some h ∧ h.slot ≠ a := by
        rw [Request.concerns] at hc
        cases hfile : r.call.file with
        | none => rw [hfile] at hc; cases hc
        | some h => exact ⟨h, rfl, by simpa [hfile] using hc⟩
      obtain ⟨hreplies, hend⟩ := ih (step_valid hw) ((step_other hw hh hne).trans hlike) hrs
      simp only [run_cons, List.filter_cons, hc, Bool.false_eq_true, if_false]
      exact ⟨hreplies, hend⟩

theorem World.run_valid (rs : List (Request (Handle N))) {w : World N} (hw : w.Valid) :
    (w.run B rs).2.Valid :=
  World.run_invariant (fun _ _ h => step_valid h) hw rs

/-- Calls on two devices, in either order. -/
theorem step_comm {w : World N} (hw : w.Valid) {r₁ r₂ : Request (Handle N)} {h₁ h₂ : Handle N}
    (hr₁ : r₁.call.file = some h₁) (hr₂ : r₂.call.file = some h₂) (hne : h₁.slot ≠ h₂.slot)
    (hdma₁ : r₁.DmaInRange B) (hdma₂ : r₂.DmaInRange B) :
    (w.run B [r₂, r₁]).1 = (w.run B [r₁, r₂]).1.reverse ∧
      ∀ c, (w.run B [r₁, r₂]).2.Like B c (w.run B [r₂, r₁]).2 := by
  -- the second call of either order, seen from its own device
  have hon : ∀ {r : Request (Handle N)} {h : Handle N}, r.call.file = some h →
      ∀ h', r.call.file = some h' → h'.slot = h.slot := by
    intro r h hr h' hr'
    rw [hr] at hr'
    cases hr'
    rfl
  have hother₁ : ∀ c, h₁.slot ≠ c → (w.step B r₁).2.Like B c w :=
    fun c hc => step_other hw hr₁ hc
  have hother₂ : ∀ c, h₂.slot ≠ c → (w.step B r₂).2.Like B c w :=
    fun c hc => step_other hw hr₂ hc
  obtain ⟨hreply₁, hlike₁⟩ := step_like (step_valid hw) (hother₂ _ hne.symm) hdma₁ (hon hr₁)
  obtain ⟨hreply₂, hlike₂⟩ := step_like (step_valid hw) (hother₁ _ hne) hdma₂ (hon hr₂)
  refine ⟨by simp only [run_cons, run_nil, hreply₁, hreply₂, List.reverse_cons, List.reverse_nil,
    List.nil_append, List.singleton_append], fun c => ?_⟩
  simp only [run_cons, run_nil]
  by_cases hc₁ : h₁.slot = c
  · subst hc₁
    exact (step_other (step_valid hw) hr₂ hne.symm).trans hlike₁.symm
  · by_cases hc₂ : h₂.slot = c
    · subst hc₂
      exact hlike₂.trans (step_other (step_valid hw) hr₁ hne).symm
    · exact ((step_other (step_valid hw) hr₂ hc₂).trans (hother₁ c hc₁)).trans
        ((step_other (step_valid hw) hr₁ hc₁).trans (hother₂ c hc₂)).symm

end

/-- Devices 6 and 4 are opened, two words of bar 2 of device 6 and one of
    device 4 are written, and both are read by DMA. -/
def twoDeviceRun : List (Request (Handle nrDevs)) :=
  let six : Handle nrDevs := ⟨pcieuniSlot, 0⟩
  let four : Handle nrDevs := ⟨llrfSlot, 0⟩
  [⟨.opn six, .ofBytes fun _ => 0, []⟩,
    ⟨.opn four, .ofBytes fun _ => 0, []⟩,
    ⟨.write six 0 8 (some (2 * 2 ^ 60)), .ofBytes (bytesOf [17#32, 34#32]), []⟩,
    ⟨.write four 0 24 none, .ofBytes (DeviceRw.bytes ⟨0#32, 51#32, rwD32, 2#32, 0#32, 0#32⟩), []⟩,
    ⟨.read four 0 24 none, .ofBytes (DeviceRw.bytes ⟨0#32, 0#32, rwDma, 0#32, 4#32, 0#32⟩), []⟩,
    ⟨.ioctl six pcieuniReadDma 0, .ofBytes (bytesOf [0#32, 8#32]), []⟩]

theorem twoDeviceRun_replies :
    let a := pcieuniSlot
    let w : World nrDevs := .start (loaded nrDevs .success fun _ _ => 0#32).2.store
    ((w.run loadedBoard (twoDeviceRun.filter (·.concerns a))).1.map fun x =>
        (x.2.ret, wordAt x.2.user.byte 0, wordAt x.2.user.byte 4)) =
      [(0, 0#32, 0#32), (8, 17#32, 34#32), (0, 17#32, 34#32)] := by
  rw [loadedBoard_eq, loaded_success_store]
  decide +kernel

/-- **Devices do not interfere.**  In a run of a module just loaded, the
    replies to the calls on device `a` and to the writes of the proc file, and
    the bars and the use counter of `a` at the end, are those of the run
    without the calls on the other devices; and after every run, two calls on
    different devices commute. -/
theorem devices_do_not_interfere {k : Outcomes} {mem : Ptr → ℕ → U32} (hN : N ≤ 2 ^ 32)
    (hl : (loaded N k mem).1 = 0) (a : Fin N) (rs : List (Request (Handle N)))
    (hdma : ∀ r ∈ rs, r.DmaInRange (Board.loaded hl hN)) :
    let B := Board.loaded hl hN
    let w : World N := .start (loaded N k mem).2.store
    let w₁ := (w.run B rs).2
    let w₂ := (w.run B (rs.filter (·.concerns a))).2
    ((w.run B rs).1.filter fun x => x.1.concerns a) = (w.run B (rs.filter (·.concerns a))).1 ∧
    (∀ bar : Bar, ∀ i < bar.size / 4, w₁.store (.word (bar.base (B.dummyPrivateData a)) i) =
      w₂.store (.word (bar.base (B.dummyPrivateData a)) i)) ∧
    w₁.store (.inUse a) = w₂.store (.inUse a) ∧
    ∀ r₁ r₂ h₁ h₂, r₁.call.file = some h₁ → r₂.call.file = some h₂ → h₁.slot ≠ h₂.slot →
      r₁.DmaInRange B → r₂.DmaInRange B →
      (w₁.run B [r₂, r₁]).1 = (w₁.run B [r₁, r₂]).1.reverse ∧
        ∀ c, (w₁.run B [r₁, r₂]).2.Like B c (w₁.run B [r₂, r₁]).2 := by
  intro B w w₁ w₂
  have hw : w.Valid := fun _ _ hf => nomatch hf
  obtain ⟨hreplies, hend⟩ := run_like (a := a) rs hw (.refl w) hdma
  refine ⟨hreplies, fun bar i hi => hend.cells _ ⟨bar, rfl, hi⟩, hend.cells (.inUse a) rfl, ?_⟩
  intro r₁ r₂ h₁ h₂ hr₁ hr₂ hne hdma₁ hdma₂
  exact step_comm (World.run_valid rs hw) hr₁ hr₂ hne hdma₁ hdma₂

/-- The read of device 6 has the words written there. -/
theorem devices_do_not_interfere_two_devices :
    let a := pcieuniSlot
    let w : World nrDevs := .start (loaded nrDevs .success fun _ _ => 0#32).2.store
    ((w.run loadedBoard (twoDeviceRun.filter (·.concerns a))).1.map fun x =>
        (x.2.ret, wordAt x.2.user.byte 0, wordAt x.2.user.byte 4)) =
      [(0, 0#32, 0#32), (8, 17#32, 34#32), (0, 17#32, 34#32)] ∧
    ((w.run loadedBoard twoDeviceRun).1.filter fun x => x.1.concerns a) =
      (w.run loadedBoard (twoDeviceRun.filter (·.concerns a))).1 ∧
    (w.run loadedBoard twoDeviceRun).2.store (.inUse a) =
      (w.run loadedBoard (twoDeviceRun.filter (·.concerns a))).2.store (.inUse a) := by
  intro a w
  have hdma : ∀ r ∈ twoDeviceRun, r.DmaInRange loadedBoard := by
    have hin : ∀ r ∈ twoDeviceRun, r.decodesInRange = true := by decide +kernel
    exact fun r hr => Request.dmaInRange_of_decodes (hin r hr)
  refine ⟨twoDeviceRun_replies, ?_⟩
  generalize twoDeviceRun = rs at hdma
  obtain ⟨hreplies, -, hinUse, -⟩ := devices_do_not_interfere (by decide)
    (loaded_success nrDevs fun _ _ => 0#32) a rs hdma
  exact ⟨hreplies, hinUse⟩

end MtcaDummy

/-
  Bar 2 as plain memory.

  `overlay` is a memory with a range of words replaced.  `ReadsAs` says that
  every way to read bar 2 delivers the words of a given memory and changes
  nothing: requests for a word, bulk reads, the ioctls that read by DMA, and
  reads through the other interface.  `bar2_is_memory`: after a range has been
  written, by requests or by one transfer, bar 2 reads as the overlay, and bar
  0 is unchanged.
-/
import MtcaDummy.Driver.Accounts

namespace MtcaDummy

/-! ## Memory -/

/-- The memory `f` with the `k` words from `w` on replaced by `v`. -/
def overlay (f : ℕ → U32) (w k : ℕ) (v : ℕ → U32) (i : ℕ) : U32 :=
  if w ≤ i ∧ i < w + k then v (i - w) else f i

section
variable {f v : ℕ → U32} {w k : ℕ}

@[simp] theorem overlay_zero : overlay f w 0 v = f :=
  funext fun _ => if_neg fun h => by omega

theorem overlay_congr {v' : ℕ → U32} (h : ∀ j < k, v j = v' j) :
    overlay f w k v = overlay f w k v' := by
  funext i
  rw [overlay, overlay]
  split
  · exact h _ (by omega)
  · rfl

/-- The last word of a range. -/
theorem overlay_succ : Function.update (overlay f w k v) (w + k) (v k) = overlay f w (k + 1) v := by
  funext i
  rw [Function.update_apply, overlay, overlay]
  by_cases h : i = w + k
  · rw [if_pos h, if_pos (by omega), h, Nat.add_sub_cancel_left]
  · rw [if_neg h]
    exact if_congr (by omega) rfl rfl

/-- The first one. -/
theorem overlay_update : overlay (Function.update f w (v 0)) (w + 1) k (fun j => v (1 + j)) =
    overlay f w (k + 1) v := by
  funext i
  rw [overlay, overlay, Function.update_apply]
  by_cases h : w + 1 ≤ i ∧ i < w + 1 + k
  · rw [if_pos h, if_pos (by omega), show 1 + (i - (w + 1)) = i - w by omega]
  · rw [if_neg h]
    by_cases hw : i = w
    · rw [if_pos hw, if_pos (by omega), hw, Nat.sub_self]
    · rw [if_neg hw, if_neg (by omega)]

end

/-- The bytes of the `m` words from `x` on of the memory `f` are at `dst`. -/
def DeliversWords (f : ℕ → U32) (x m dst : ℕ) (u : UserMem) : Prop :=
  ∀ j < 4 * m, u.byte (dst + j) = byteOf (f (x + j / 4)) (j % 4)

theorem deliversWords_set {f : ℕ → U32} {x m dst : ℕ} {u : UserMem} :
    DeliversWords f x m dst (u.set dst (4 * m) (wordBytes f x)) := by
  intro j hj
  rw [UserMem.set_byte, if_pos (by omega), Nat.add_sub_cancel_left]
  rfl

/-! ## The ways to read bar 2 -/

/-- The word of a request is a word of bar 2. -/
structure DeviceRw.Bar2Word (r : DeviceRw) (x : ℕ) : Prop where
  mode : r.modeRw = rwD32
  bar : r.barxRw = 2#32
  offset : r.offsetRw.toNat = 4 * x

variable {N : ℕ} {B : Board N} {d : Fin N} {s : Store}

/-- Every way to read the words of bar 2 delivers those of `f`, and leaves the
    store as it is. -/
structure ReadsAs (B : Board N) (d : Fin N) (s : Store) (f : ℕ → U32) : Prop where
  word : ∀ (ℓ : Local) (r : DeviceRw) (buf count x : ℕ), ℓ.signals = [] →
    ℓ.user.Request buf r → ℓ.user.Writable buf sizeofDeviceRw → sizeofDeviceRw ≤ count →
    r.Bar2Word x → x < dmaSize / 4 →
    (exec (mtcaDummyRead B d buf count) ℓ s).val = sizeofDeviceRw ∧
      DeliversWords f x 1 (buf + 4) (exec (mtcaDummyRead B d buf count) ℓ s).loc.user ∧
      (exec (mtcaDummyRead B d buf count) ℓ s).store = s
  bulk : ∀ (ℓ : Local) (r : DeviceRw) (buf count x m : ℕ), ℓ.signals = [] →
    ℓ.user.Request buf r → ℓ.user.Writable buf (4 * m) → sizeofDeviceRw ≤ count →
    r.modeRw = rwDma → r.offsetRw.toNat = 4 * x → r.sizeRw.toNat = 4 * m → x + m ≤ dmaSize / 4 →
    (exec (mtcaDummyRead B d buf count) ℓ s).val = (4 * m : ℕ) ∧
      DeliversWords f x m buf (exec (mtcaDummyRead B d buf count) ℓ s).loc.user ∧
      (exec (mtcaDummyRead B d buf count) ℓ s).store = s
  ioctl : ∀ (ℓ : Local) (offset size : U32) (arg x m : ℕ), ℓ.signals = [] →
    ℓ.user.DmaRequest arg offset size → ℓ.user.Writable arg (4 * m) →
    offset.toNat = 4 * x → size.toNat = 4 * m → x + m ≤ dmaSize / 4 →
    ∀ call ∈ [mtcaDummyIoctl B d pciedevReadDma, pcieuniDummyIoctl B d pcieuniReadDma],
      (exec (call arg) ℓ s).val = 0 ∧ DeliversWords f x m arg (exec (call arg) ℓ s).loc.user ∧
        (exec (call arg) ℓ s).store = s
  noStruct : ∀ (ℓ : Local) (buf x m : ℕ), ℓ.signals = [] → ℓ.user.Writable buf (4 * m) →
    ℓ.fPos = 2 * 2 ^ 60 + 4 * x → x + m ≤ dmaSize / 4 →
    (exec (mtcaDummyReadNoStruct B d buf (4 * m)) ℓ s).val = (4 * m : ℕ) ∧
      DeliversWords f x m buf (exec (mtcaDummyReadNoStruct B d buf (4 * m)) ℓ s).loc.user ∧
      (exec (mtcaDummyReadNoStruct B d buf (4 * m)) ℓ s).store = s

/-- The words of a transfer in bar 2. -/
theorem span_dma {x m : ℕ} (h : x + m ≤ dmaSize / 4) :
    span (4 * m) (2 * 2 ^ 60 + 4 * x) = .ok ⟨.dma, x, m⟩ := by
  have hdma : dmaSize = 4096 := rfl
  have hnum : (Bar.number .dma).toNat = 2 := rfl
  have hbytes : barBytes 2 = 4096 := rfl
  have haccepted : ¬ Refused (Bar.number .dma).toNat (4 * x) (4 * m) := by
    unfold Refused
    rw [hnum, hbytes]
    omega
  have hspan := span_packed (by omega) haccepted
  rw [hnum] at hspan
  rw [hspan, clamped, hbytes]
  congr 2 <;> omega

/-- The datum of a request. -/
theorem bytes_data (r : DeviceRw) {j : ℕ} (hj : j < 4) : r.bytes (4 + j) = byteOf r.dataRw j := by
  rw [DeviceRw.bytes, bytesOf, show (4 + j) / 4 = 1 by omega, show (4 + j) % 4 = j by omega]
  rfl

/-- No word of bar 2 is broken. -/
theorem deliver_dma {b : Bars} {x m : ℕ} {u : UserMem} {buf : ℕ} (h : u.Writable buf (4 * m)) :
    b.deliver .dma x m u buf = ⟨none, m, u.set buf (4 * m) (wordBytes b.dma x)⟩ := by
  have hall : okLen (fun i => !Bar.rejectsRead .dma i) x m = m := okLen_all fun _ _ => rfl
  rw [Bars.deliver_of_writable h, hall, if_neg (Nat.lt_irrefl m)]
  rfl

/-- **Bar 2 reads as its contents**, whichever way. -/
theorem readsAs_bars (hclear : s (.flag .readError) = false) :
    ReadsAs B d s (B.bars d s).dma := by
  have hdma : dmaSize = 4096 := rfl
  refine ⟨fun ℓ r buf count x hℓ hr hw hcount ⟨hmode, hbar, hoffset⟩ hx => ?_,
    fun ℓ r buf count x m hℓ hr hw hcount hmode hoffset hsize hx => ?_,
    fun ℓ offset size arg x m hℓ hr hw hoffset hsize hx call hcall => ?_,
    fun ℓ buf x m hℓ hw hpos hx => ?_⟩
  · have hword := DeviceRw.word_eq_some .dma hbar (by omega)
      (show r.offsetRw.toNat < dmaSize by omega)
    have hseen :
        (B.seen d s).dma (r.offsetRw.toNat / 4) = (B.bars d s).dma (r.offsetRw.toNat / 4) :=
      (seen_word (DeviceRw.word_lt hword) : (B.seen d s).word .dma (r.offsetRw.toNat / 4) = _)
    have hanswer : (B.seen d s).structAnswer (B.dummyPrivateData d).slotNr r =
        ⟨sizeofDeviceRw, sizeofDeviceRw,
          { r with dataRw := (B.bars d s).dma (r.offsetRw.toNat / 4) }.bytes⟩ := by
      rw [Bars.structAnswer, hmode, if_neg (by decide), if_pos rfl, hword, ← hseen]
      rfl
    rw [exec_read hℓ, hclear, if_neg Bool.false_ne_true, Bars.structReply_of_request _ _ hr hcount,
      hanswer]
    dsimp only
    rw [UserMem.answer_of_writable hw]
    refine ⟨rfl, fun j hj => ?_, rfl⟩
    have hsize : sizeofDeviceRw = 24 := rfl
    dsimp only
    rw [UserMem.set_byte, if_pos (by omega), Nat.add_assoc, Nat.add_sub_cancel_left,
      bytes_data _ (by omega), hoffset, show 4 * x / 4 = x + j / 4 by omega,
      show j % 4 = j by omega]
  · rw [exec_bulkRead hr hmode hcount (hsize ▸ hw) hℓ hclear (by omega), if_pos (.inr (by omega)),
      hsize, hoffset, Nat.mul_div_cancel_left x (by decide)]
    exact ⟨rfl, deliversWords_set, rfl⟩
  · have hrun : exec (call arg) ℓ s = ⟨0,
        { ℓ with user := ℓ.user.set arg size.toNat (wordBytes (B.bars d s).dma (offset.toNat / 4)) },
        s⟩ := by
      rcases List.mem_cons.1 hcall with rfl | hcall
      · rw [mtcaDummyIoctl, exec_ioctlReadDma mtcaDummyConstants_readsDma hr (hsize ▸ hw) hℓ
          (by omega), if_pos (by omega)]
      · obtain rfl := List.mem_singleton.1 hcall
        rw [pcieuniDummyIoctl, exec_ioctlReadDma pcieuniDummyConstants_readsDma hr (hsize ▸ hw) hℓ
          (by omega), if_pos (by omega)]
    rw [hrun, hsize, hoffset, Nat.mul_div_cancel_left x (by decide)]
    exact ⟨rfl, deliversWords_set, rfl⟩
  · rw [exec_readNoStruct d.isLt hℓ (by omega), hclear, hpos, Bars.noStructRead_ok (span_dma hx)]
    dsimp only
    rw [deliver_dma hw]
    exact ⟨by simp, deliversWords_set, rfl⟩

/-! ## The ways to write it -/

/-- A call of a process that writes through the struct interface. -/
structure WriteCall where
  loc : Local
  buf : ℕ
  count : ℕ

/-- The call asks for a write of `v` to word `x` of bar 2. -/
structure WriteCall.Asks (c : WriteCall) (x : ℕ) (v : U32) : Prop where
  signals : c.loc.signals = []
  count : sizeofDeviceRw ≤ c.count
  request : ∃ r, c.loc.user.Request c.buf r ∧ r.Bar2Word x ∧ r.dataRw = v

/-- The store after the first `n` calls. -/
def writeCalls (B : Board N) (d : Fin N) (c : ℕ → WriteCall) : ℕ → Store → Store
  | 0, s => s
  | n + 1, s =>
    (exec (mtcaDummyWrite B d (c n).buf (c n).count) (c n).loc (writeCalls B d c n s)).store

/-- The store `s'` is `s` after `v` was written to the `k` words from `w` on of
    bar 2: that is what bar 2 reads as, and bar 0 is unchanged. -/
structure WrittenAs (B : Board N) (d : Fin N) (s s' : Store) (w k : ℕ) (v : ℕ → U32) : Prop where
  reads : ReadsAs B d s' (overlay (B.bars d s).dma w k v)
  system : (B.bars d s').system = (B.bars d s).system

/-- Bar 2 with the range written. -/
def Bars.overlaid (b : Bars) (w k : ℕ) (v : ℕ → U32) : Bars := { b with dma := overlay b.dma w k v }

theorem writtenAs_overlaid {w k : ℕ} {v : ℕ → U32} (hread : s (.flag .readError) = false) :
    WrittenAs B d s (B.put d ((B.bars d s).overlaid w k v) s) w k v := by
  have hbars : B.bars d (B.put d ((B.bars d s).overlaid w k v) s) =
      (B.bars d s).overlaid w k v := bars_put d.isLt
  have hreads := readsAs_bars (B := B) (d := d)
    (s := B.put d ((B.bars d s).overlaid w k v) s) hread
  rw [hbars] at hreads
  exact ⟨hreads, by rw [hbars]; rfl⟩

/-- A request for a word of bar 2 writes the word. -/
theorem exec_asks {c : WriteCall} {x : ℕ} {v : U32} (hc : c.Asks x v) (hx : x < dmaSize / 4)
    {b : Bars} (hclear : s (.flag .writeError) = false) :
    (exec (mtcaDummyWrite B d c.buf c.count) c.loc (B.put d b s)).store =
      B.put d (b.setWord .dma x v) s := by
  obtain ⟨hsignals, hcount, r, hr, ⟨hmode, hbar, hoffset⟩, rfl⟩ := hc
  have hdma : dmaSize = 4096 := rfl
  have hword := structWord_of_request hr hcount hmode
  rw [DeviceRw.word_eq_some .dma hbar (by omega)
    (show r.offsetRw.toNat < dmaSize by omega), hoffset, Nat.mul_div_cancel_left x (by decide)]
    at hword
  rw [exec_write d.isLt hsignals, Bars.structWrite_some hclear hword]
  rfl

/-- The calls write the range, one word after the other. -/
theorem writeCalls_eq {c : ℕ → WriteCall} {w : ℕ} {v : ℕ → U32} {k : ℕ}
    (hc : ∀ i < k, (c i).Asks (w + i) (v i)) (hk : w + k ≤ dmaSize / 4)
    (hclear : s (.flag .writeError) = false) :
    writeCalls B d c k s = B.put d ((B.bars d s).overlaid w k v) s := by
  induction k with
  | zero =>
    rw [Bars.overlaid, overlay_zero]
    exact put_bars.symm
  | succ k ih =>
    rw [writeCalls, ih (fun i hi => hc i (by omega)) (by omega),
      exec_asks (hc k (Nat.lt_succ_self k)) (by omega) hclear]
    congr 1
    exact congrArg (Bars.mk (B.bars d s).system) overlay_succ

/-- So does a block. -/
theorem block_dma {spiFail : ℕ → Bool} {w : ℕ} {copy : ℕ → U32 × Bool} {k i : ℕ} {b : Bars}
    (hcopy : ∀ j < k, (copy (i + j)).2 = true) :
    Bars.block spiFail .dma w copy k i b =
      ⟨none, k, b.overlaid (w + i) k fun j => (copy (i + j)).1⟩ := by
  induction k generalizing i b with
  | zero =>
    rw [Bars.overlaid, overlay_zero]
    rfl
  | succ k ih =>
    have hfirst := hcopy 0 (Nat.succ_pos k)
    have hshift : ∀ j, i + 1 + j = i + (1 + j) := fun j => by omega
    rw [Nat.add_zero] at hfirst
    rw [Bars.block, hfirst, ih fun j hj => by rw [hshift, Nat.add_comm 1]; exact hcopy _ (by omega)]
    have hover := overlay_update (f := b.dma) (v := fun j => (copy (i + j)).1) (w := w + i) (k := k)
    simp only [hshift, Bool.not_true, Bool.false_eq_true, if_false, Bar.rejects]
    refine congrArg (Block.mk none (k + 1)) ?_
    exact congrArg (Bars.mk b.system) hover

/-- **Bar 2 is plain memory**: written by requests or by a transfer, it reads
    as the data written where they are, and as before elsewhere. -/
theorem bar2_is_memory {w k : ℕ} {v : ℕ → U32} (hk : w + k ≤ dmaSize / 4)
    (hread : s (.flag .readError) = false) (hwrite : s (.flag .writeError) = false)
    {c : ℕ → WriteCall} (hc : ∀ i < k, (c i).Asks (w + i) (v i)) {ℓ : Local} {buf : ℕ}
    (hℓ : ℓ.signals = []) (hbuf : ℓ.user.Readable buf (4 * k))
    (hdata : ∀ i < k, (ℓ.user.copyWord buf i).1 = v i) (hpos : ℓ.fPos = 2 * 2 ^ 60 + 4 * w) :
    WrittenAs B d s (writeCalls B d c k s) w k v ∧
      WrittenAs B d s (exec (mtcaDummyWriteNoStruct B d buf (4 * k)) ℓ s).store w k v := by
  refine ⟨?_, ?_⟩
  · rw [writeCalls_eq hc hk hwrite]
    exact writtenAs_overlaid hread
  · have hdma : dmaSize = 4096 := rfl
    have hs : s = B.put d (B.bars d s) s := put_bars.symm
    have hcopy : ∀ j < k, (ℓ.user.copyWord buf (0 + j)).2 = true := fun j hj =>
      decide_eq_true (UserMem.readLen_eq_iff.2 fun i hi => by
        rw [Nat.zero_add, Nat.add_assoc]
        exact hbuf _ (by omega))
    have hover : overlay (B.bars d s).dma w k (fun j => (ℓ.user.copyWord buf (0 + j)).1) =
        overlay (B.bars d s).dma w k v :=
      overlay_congr fun j hj => by rw [Nat.zero_add, hdata j hj]
    have hstore : (exec (mtcaDummyWriteNoStruct B d buf (4 * k)) ℓ s).store =
        B.put d ((B.bars d s).overlaid w k v) s := by
      rw [hs, exec_writeNoStruct d.isLt (by omega) hℓ, hpos,
        Bars.noStructWrite_ok (show (fun _ => s) 0 (.flag .writeError) = false from hwrite)
          (span_dma hk), bars_put d.isLt]
      dsimp only
      rw [block_dma hcopy]
      dsimp only [Bars.overlaid]
      rw [Nat.add_zero, hover]
      exact (put_put _).symm
    rw [hstore]
    exact writtenAs_overlaid hread

/-- A request of a process to write `v` to word `x` of bar 2. -/
def dmaWriteCall (x : ℕ) (v : U32) : WriteCall where
  loc :=
    { user := UserMem.ofBytes
        (DeviceRw.bytes ⟨BitVec.ofNat 32 (4 * x), v, rwD32, 2#32, 0#32, 0#32⟩) }
  buf := 0
  count := sizeofDeviceRw

/-- The last three words of the bar. -/
theorem bar2_is_memory_last :
    let v : ℕ → U32 := fun i => BitVec.ofNat 32 (17 * (i + 1))
    WrittenAs loadedBoard (0 : Fin nrDevs) clearFlags
        (writeCalls loadedBoard 0 (fun i => dmaWriteCall (1021 + i) (v i)) 3 clearFlags) 1021 3 v ∧
      WrittenAs loadedBoard (0 : Fin nrDevs) clearFlags
        (exec (mtcaDummyWriteNoStruct loadedBoard 0 0 12)
          ⟨.ofBytes (bytesOf [17#32, 34#32, 51#32]), [], 2 * 2 ^ 60 + 4084, none, []⟩
          clearFlags).store 1021 3 v := by
  refine bar2_is_memory (by decide) rfl rfl (fun i hi => ?_) rfl (fun _ _ => rfl)
    (fun i hi => ?_) rfl
  · refine ⟨rfl, Nat.le_refl _, _, UserMem.ofBytes_request _, ⟨rfl, rfl, ?_⟩, rfl⟩
    rw [BitVec.toNat_ofNat]
    omega
  · rcases i with _ | _ | _ | i
    · decide
    · decide
    · decide
    · omega

end MtcaDummy

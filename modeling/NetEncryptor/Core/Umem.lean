import NetEncryptor.Db.Load

/-!
# Frame addresses in the UMEM

An interface hands frames to the kernel twice: `interface_init_local` and `interface_init_wan_rx`
put the first `ring_size` frames into the fill ring, and the send functions take their frames from
the upper half of the UMEM.  The validator asks for twice the ring, but in 32-bit arithmetic and in
whole megabytes, and says nothing of the frame size; `rxTxApart_iff` is the exact condition under
which the two kinds of frames stay apart.
-/

namespace NetEncryptor

/-- The fields of `struct xsk_interface` that the frame addresses come from. -/
structure XskInterface where
  umemSize : UInt64
  ringSize : UInt32
  frameSize : UInt32

/-- `interface_init_local`, as far as the fields above go. -/
def interfaceInitLocalUmem (loc : LocalConfig) : XskInterface where
  umemSize := loc.umemMb.toUInt64 * 1024 * 1024
  ringSize := loc.ringSize
  frameSize := loc.frameSize

/-- `interface_init_wan_rx`, as far as the fields above go. -/
def interfaceInitWanRxUmem (wan : WanConfig) : XskInterface where
  umemSize := wan.umemMb.toUInt64 * 1024 * 1024
  ringSize := wan.ringSize
  frameSize := wan.frameSize

namespace XskInterface

variable (iface : XskInterface)

/-- `i * frame_size`, a product of `uint32_t`. -/
def fillAddr (i : ℕ) : UInt64 := (UInt32.ofNat i * iface.frameSize).toUInt64

/-- The addresses that the initialisation writes into the fill ring.  The whole ring is reserved,
and the loop runs to its size as an `int`. -/
def fillAddrs : List UInt64 :=
  (List.range iface.ringSize.toInt32.toInt.toNat).map iface.fillAddr

/-- The frame that `interface_send_batch_queue` and `interface_send_to_local_batch_queue` take for
a value of `tx_slot`; `none` stands for a division by zero. -/
def txAddr (txSlot : UInt64) : Option UInt64 :=
  if iface.frameSize = 0 then none
  else
    let frameCount := (iface.umemSize / iface.frameSize.toUInt64).toUInt32
    let half := (frameCount / 2).toUInt64
    if half = 0 then none else some ((txSlot % half + half) * iface.frameSize.toUInt64)

/-- The frame at `addr` lies in the UMEM. -/
def Inside (addr : UInt64) : Prop := addr.toNat + iface.frameSize.toNat ≤ iface.umemSize.toNat

/-- The frames at `a` and `b` have no byte in common. -/
def Apart (a b : UInt64) : Prop :=
  a.toNat + iface.frameSize.toNat ≤ b.toNat ∨ b.toNat + iface.frameSize.toNat ≤ a.toNat

/-- Every frame to send is there, in the UMEM and apart from the frames of the fill ring, which are
in the UMEM too. -/
structure RxTxApart : Prop where
  fill_inside : ∀ a ∈ iface.fillAddrs, iface.Inside a
  tx_apart : ∀ txSlot, ∃ addr, iface.txAddr txSlot = some addr ∧ iface.Inside addr ∧
    ∀ a ∈ iface.fillAddrs, iface.Apart a addr

end XskInterface

/-! ## The two halves of the UMEM -/

/-- Frames in each half of a UMEM of `umem` bytes.  It is `0` when the frames have no bytes. -/
def halfFrames (umem frameSize : ℕ) : ℕ := umem / frameSize % 2 ^ 32 / 2

/-- The fill frames are in the lower half: there are no more of them than it has frames, or no
address is written as the count is negative as an `int`, or the lower half has all the addresses
that are left when the product wraps. -/
def FillFits (umem ringSize frameSize : ℕ) : Prop :=
  ringSize ≤ halfFrames umem frameSize ∨
    (2 ^ 31 ≤ ringSize ∧ 0 < halfFrames umem frameSize) ∨
    (2 ^ 32 ≤ halfFrames umem frameSize * frameSize ∧ ∀ i < ringSize,
      i * frameSize % 2 ^ 32 + frameSize ≤ halfFrames umem frameSize * frameSize)

section

variable {umem ringSize frameSize : ℕ}

theorem halfFrames_zero : halfFrames umem 0 = 0 := by simp [halfFrames]

theorem two_mul_halfFrames_mul_le : 2 * halfFrames umem frameSize * frameSize ≤ umem :=
  calc 2 * halfFrames umem frameSize * frameSize
      ≤ umem / frameSize * frameSize := by
        apply Nat.mul_le_mul_right
        have := Nat.mod_le (umem / frameSize) (2 ^ 32)
        unfold halfFrames
        omega
    _ ≤ umem := Nat.div_mul_le_self _ _

/-- The loop's bound, a count as an `int`. -/
def fillCount (ringSize : ℕ) : ℕ := if ringSize < 2 ^ 31 then ringSize else 0

theorem mod_add_le_of_lt {i : ℕ} (h : i < halfFrames umem frameSize) :
    i * frameSize % 2 ^ 32 + frameSize ≤ halfFrames umem frameSize * frameSize :=
  calc i * frameSize % 2 ^ 32 + frameSize
      ≤ i * frameSize + frameSize := Nat.add_le_add_right (Nat.mod_le _ _) _
    _ = (i + 1) * frameSize := (Nat.succ_mul i frameSize).symm
    _ ≤ halfFrames umem frameSize * frameSize := Nat.mul_le_mul_right _ h

namespace FillFits

theorem halfFrames_pos (h : FillFits umem ringSize frameSize) (hring : 0 < ringSize) :
    0 < halfFrames umem frameSize := by
  rcases h with hle | ⟨-, hpos⟩ | ⟨hwide, -⟩
  · omega
  · exact hpos
  · exact Nat.pos_of_ne_zero fun h₀ => by simp [h₀] at hwide

theorem below (h : FillFits umem ringSize frameSize) {i : ℕ} (hi : i < fillCount ringSize) :
    i * frameSize % 2 ^ 32 + frameSize ≤ halfFrames umem frameSize * frameSize := by
  unfold fillCount at hi
  split_ifs at hi with hsmall
  · rcases h with hle | ⟨hneg, -⟩ | ⟨-, hbelow⟩
    · exact mod_add_le_of_lt (by omega)
    · omega
    · exact hbelow i hi
  · omega

end FillFits

/-- What the validator checks is enough when its product neither wraps nor is rounded and the
number of frames fits 32 bits. -/
theorem fillFits_of_minUmemMb_le {umemMb ringSize frameSize : UInt32} (hframe : frameSize ≠ 0)
    (hwrap : ringSize.toNat * 2 * frameSize.toNat < 2 ^ 32)
    (hwhole : 2 ^ 20 ∣ ringSize.toNat * 2 * frameSize.toNat)
    (hcount : umemMb.toNat * 2 ^ 20 / frameSize.toNat < 2 ^ 32)
    (hmin : ¬ umemMb < minUmemMb ringSize frameSize) :
    FillFits (umemMb.toNat * 2 ^ 20) ringSize.toNat frameSize.toNat := by
  have hpos : 0 < frameSize.toNat := Nat.pos_of_ne_zero fun h => hframe (UInt32.toNat_inj.mp h)
  have hprod : (ringSize * 2 * frameSize).toNat = ringSize.toNat * 2 * frameSize.toNat := by
    have htwo : (2 : UInt32).toNat = 2 := rfl
    rw [UInt32.toNat_mul, UInt32.toNat_mul, htwo, Nat.mod_mul_mod, Nat.mod_eq_of_lt hwrap]
  have hmb : (minUmemMb ringSize frameSize).toNat =
      ringSize.toNat * 2 * frameSize.toNat / 2 ^ 20 := by
    unfold minUmemMb
    rw [UInt32.toNat_div, hprod]
    rfl
  have hle : ringSize.toNat * 2 * frameSize.toNat ≤ umemMb.toNat * 2 ^ 20 := by
    rw [UInt32.lt_iff_toNat_lt, hmb, not_lt] at hmin
    calc ringSize.toNat * 2 * frameSize.toNat
        = ringSize.toNat * 2 * frameSize.toNat / 2 ^ 20 * 2 ^ 20 := (Nat.div_mul_cancel hwhole).symm
      _ ≤ umemMb.toNat * 2 ^ 20 := Nat.mul_le_mul_right _ hmin
  have hframes : ringSize.toNat * 2 ≤ umemMb.toNat * 2 ^ 20 / frameSize.toNat :=
    (Nat.le_div_iff_mul_le hpos).mpr hle
  refine .inl ?_
  unfold halfFrames
  rw [Nat.mod_eq_of_lt hcount]
  omega

end

/-! ## The interface -/

namespace XskInterface

/-- Frames in each half of the UMEM of `iface`. -/
def half (iface : XskInterface) : ℕ := halfFrames iface.umemSize.toNat iface.frameSize.toNat

variable {iface : XskInterface}

theorem fillCount_eq : iface.ringSize.toInt32.toInt.toNat = fillCount iface.ringSize.toNat := by
  have hlt := iface.ringSize.toNat_lt
  have hint : iface.ringSize.toInt32.toInt = (iface.ringSize.toNat : ℤ).bmod (2 ^ 32) := by
    rw [← UInt32.toNat_toBitVec, ← BitVec.toInt_eq_toNat_bmod]
    rfl
  rw [hint]
  unfold fillCount
  split_ifs with hsmall
  · rw [Int.bmod_eq_of_le (by omega) (by omega), Int.toNat_natCast]
  · have hneg : (iface.ringSize.toNat : ℤ).bmod (2 ^ 32) < 0 := by
      rw [Int.bmod_def]
      omega
    omega

theorem fillAddr_toNat (i : ℕ) :
    (iface.fillAddr i).toNat = i * iface.frameSize.toNat % 2 ^ 32 := by
  unfold fillAddr
  rw [UInt32.toNat_toUInt64, UInt32.toNat_mul, UInt32.toNat_ofNat', Nat.mod_mul_mod]

theorem mem_fillAddrs {a : UInt64} : a ∈ iface.fillAddrs ↔
    ∃ i < fillCount iface.ringSize.toNat, iface.fillAddr i = a := by
  unfold fillAddrs
  rw [fillCount_eq, List.mem_map]
  simp only [List.mem_range]

theorem half_toNat : ((iface.umemSize / iface.frameSize.toUInt64).toUInt32 / 2).toUInt64.toNat =
    iface.half := by
  have htwo : (2 : UInt32).toNat = 2 := rfl
  rw [UInt32.toNat_toUInt64, UInt32.toNat_div, htwo, UInt64.toNat_toUInt32, UInt64.toNat_div,
    UInt32.toNat_toUInt64]
  rfl

theorem txAddr_eq_none (h : iface.half = 0) (txSlot : UInt64) : iface.txAddr txSlot = none := by
  unfold txAddr
  split_ifs with hframe
  · rfl
  · exact if_pos (UInt64.toNat_inj.mp (half_toNat.trans h))

theorem txAddr_eq_some (h : 0 < iface.half) (txSlot : UInt64) :
    ∃ addr, iface.txAddr txSlot = some addr ∧
      addr.toNat = (txSlot.toNat % iface.half + iface.half) * iface.frameSize.toNat := by
  have hframe : iface.frameSize ≠ 0 := by
    intro h₀
    rw [half, h₀] at h
    exact absurd halfFrames_zero h.ne'
  have hhalf : ((iface.umemSize / iface.frameSize.toUInt64).toUInt32 / 2).toUInt64 ≠ 0 := by
    intro h₀
    rw [← half_toNat, h₀] at h
    exact absurd h (lt_irrefl 0)
  refine ⟨_, (if_neg hframe).trans (if_neg hhalf), ?_⟩
  have hmod := Nat.mod_lt txSlot.toNat h
  have hfits : (txSlot.toNat % iface.half + iface.half) * iface.frameSize.toNat < 2 ^ 64 :=
    calc (txSlot.toNat % iface.half + iface.half) * iface.frameSize.toNat
        ≤ 2 * iface.half * iface.frameSize.toNat := Nat.mul_le_mul_right _ (by omega)
      _ ≤ iface.umemSize.toNat := two_mul_halfFrames_mul_le
      _ < 2 ^ 64 := iface.umemSize.toNat_lt
  rw [UInt64.toNat_mul, UInt64.toNat_add, UInt64.toNat_mod, half_toNat, UInt32.toNat_toUInt64,
    Nat.mod_mul_mod, Nat.mod_eq_of_lt hfits]

theorem RxTxApart.half_pos (h : iface.RxTxApart) : 0 < iface.half := by
  obtain ⟨addr, hsome, -⟩ := h.tx_apart 0
  by_contra h₀
  rw [txAddr_eq_none (by omega)] at hsome
  cases hsome

theorem RxTxApart.apart_first (h : iface.RxTxApart) {i : ℕ}
    (hi : i < fillCount iface.ringSize.toNat) :
    i * iface.frameSize.toNat % 2 ^ 32 + iface.frameSize.toNat ≤
        iface.half * iface.frameSize.toNat ∨
      iface.half * iface.frameSize.toNat + iface.frameSize.toNat ≤
        i * iface.frameSize.toNat % 2 ^ 32 := by
  obtain ⟨addr, hsome, -, hapart⟩ := h.tx_apart 0
  obtain ⟨addr', hsome', haddr⟩ := txAddr_eq_some h.half_pos 0
  obtain rfl : addr' = addr := Option.some.inj (hsome'.symm.trans hsome)
  rw [UInt64.toNat_zero, Nat.zero_mod, Nat.zero_add] at haddr
  have := hapart _ (mem_fillAddrs.mpr ⟨i, hi, rfl⟩)
  unfold Apart at this
  rwa [fillAddr_toNat, haddr] at this

theorem RxTxApart.fillFits (h : iface.RxTxApart) :
    FillFits iface.umemSize.toNat iface.ringSize.toNat iface.frameSize.toNat := by
  have hpos := h.half_pos
  by_cases hle : iface.ringSize.toNat ≤ iface.half
  · exact .inl hle
  by_cases hneg : 2 ^ 31 ≤ iface.ringSize.toNat
  · exact .inr (.inl ⟨hneg, hpos⟩)
  have hcount : fillCount iface.ringSize.toNat = iface.ringSize.toNat := if_pos (by omega)
  have hframe : 0 < iface.frameSize.toNat :=
    Nat.pos_of_ne_zero fun h₀ => by simp [half, h₀, halfFrames_zero] at hpos
  have hwide : 2 ^ 32 ≤ iface.half * iface.frameSize.toNat := by
    by_contra hnarrow
    have hsame := h.apart_first (show iface.half < fillCount iface.ringSize.toNat by omega)
    rw [Nat.mod_eq_of_lt (by omega)] at hsame
    omega
  refine .inr (.inr ⟨hwide, fun i hi => ?_⟩)
  have hlt := Nat.mod_lt (i * iface.frameSize.toNat) (Nat.two_pow_pos 32)
  rcases h.apart_first (show i < fillCount iface.ringSize.toNat by omega) with hlow | hhigh
  · exact hlow
  · omega

theorem rxTxApart_of_fillFits (hring : iface.ringSize ≠ 0)
    (h : FillFits iface.umemSize.toNat iface.ringSize.toNat iface.frameSize.toNat) :
    iface.RxTxApart := by
  have hpos : 0 < iface.half :=
    h.halfFrames_pos (Nat.pos_of_ne_zero fun h₀ => hring (UInt32.toNat_inj.mp h₀))
  have hupper : 2 * iface.half * iface.frameSize.toNat ≤ iface.umemSize.toNat :=
    two_mul_halfFrames_mul_le
  have hfill {a : UInt64} (ha : a ∈ iface.fillAddrs) :
      a.toNat + iface.frameSize.toNat ≤ iface.half * iface.frameSize.toNat := by
    obtain ⟨i, hi, rfl⟩ := mem_fillAddrs.mp ha
    rw [fillAddr_toNat]
    exact h.below hi
  refine ⟨fun a ha => (hfill ha).trans ?_, fun txSlot => ?_⟩
  · exact (Nat.mul_le_mul_right _ (by omega)).trans hupper
  obtain ⟨addr, hsome, haddr⟩ := txAddr_eq_some hpos txSlot
  have hmod := Nat.mod_lt txSlot.toNat hpos
  have hlow : iface.half * iface.frameSize.toNat ≤ addr.toNat := by
    rw [haddr]
    exact Nat.mul_le_mul_right _ (by omega)
  refine ⟨addr, hsome, ?_, fun a ha => .inl ((hfill ha).trans hlow)⟩
  calc addr.toNat + iface.frameSize.toNat
      = (txSlot.toNat % iface.half + iface.half + 1) * iface.frameSize.toNat := by
        rw [haddr, Nat.succ_mul]
    _ ≤ 2 * iface.half * iface.frameSize.toNat := Nat.mul_le_mul_right _ (by omega)
    _ ≤ iface.umemSize.toNat := hupper

theorem rxTxApart_iff_fillFits (hring : iface.ringSize ≠ 0) : iface.RxTxApart ↔
    FillFits iface.umemSize.toNat iface.ringSize.toNat iface.frameSize.toNat :=
  ⟨RxTxApart.fillFits, rxTxApart_of_fillFits hring⟩

end XskInterface

/-! ## Validated configurations -/

theorem umemBytes_toNat (umemMb : UInt32) :
    (umemMb.toUInt64 * 1024 * 1024).toNat = umemMb.toNat * 2 ^ 20 := by
  have hk : (1024 : UInt64).toNat = 1024 := rfl
  have hlt := umemMb.toNat_lt
  rw [UInt64.toNat_mul, UInt64.toNat_mul, UInt32.toNat_toUInt64, hk]
  omega

/-- On an interface of an accepted configuration the frames are apart exactly if the ring is no
larger than half the UMEM's frames, or one of the two cases applies where it need not be. -/
theorem rxTxApart_iff {cfg : AppConfig} (hvalid : configValidate cfg) :
    (∀ loc ∈ cfg.locals, (interfaceInitLocalUmem loc).RxTxApart ↔
      FillFits (loc.umemMb.toNat * 2 ^ 20) loc.ringSize.toNat loc.frameSize.toNat) ∧
    ∀ wan ∈ cfg.wans, (interfaceInitWanRxUmem wan).RxTxApart ↔
      FillFits (wan.umemMb.toNat * 2 ^ 20) wan.ringSize.toNat wan.frameSize.toNat := by
  obtain ⟨-, -, hlocals, hwans⟩ := hvalid
  constructor
  · intro loc hloc
    obtain ⟨-, -, hring, -⟩ := hlocals loc hloc
    rw [← umemBytes_toNat]
    exact XskInterface.rxTxApart_iff_fillFits hring
  · intro wan hwan
    obtain ⟨-, -, hring, -⟩ := hwans wan hwan
    rw [← umemBytes_toNat]
    exact XskInterface.rxTxApart_iff_fillFits hring

/-- One interface on either side, as the loader fills them in. -/
def loadedConfig : AppConfig :=
  { AppConfig.start with
    locals := [loadLocalRow AppConfig.start "lan0"]
    wans := [loadWanRow AppConfig.start ⟨"wan0", 0, 1⟩] }

theorem rxTxApart_iff_loaded :
    (interfaceInitLocalUmem (loadLocalRow AppConfig.start "lan0")).RxTxApart ∧
      (interfaceInitWanRxUmem (loadWanRow AppConfig.start ⟨"wan0", 0, 1⟩)).RxTxApart := by
  have hvalid : configValidate loadedConfig := by decide
  obtain ⟨hlocals, hwans⟩ := rxTxApart_iff hvalid
  exact ⟨(hlocals _ (List.mem_singleton_self _)).mpr (.inl (by decide)),
    (hwans _ (List.mem_singleton_self _)).mpr (.inl (by decide))⟩

/-- A ring of `2 ^ 19` frames of 4096 bytes: twice the ring has `2 ^ 32` bytes, which the validator
takes for none. -/
def wrappedLocal : LocalConfig :=
  { loadLocalRow AppConfig.start "lan0" with umemMb := 64, ringSize := 524288 }

theorem not_rxTxApart_wrapped :
    ∃ cfg : AppConfig, configValidate cfg ∧ ∃ loc ∈ cfg.locals,
      ¬ (interfaceInitLocalUmem loc).RxTxApart := by
  refine ⟨{ loadedConfig with locals := [wrappedLocal] }, by decide, wrappedLocal,
    List.mem_singleton_self _, fun h => ?_⟩
  -- the fill frame `8192` is the first frame of the upper half
  have hfirst := h.apart_first (show 8192 < fillCount 524288 by decide)
  revert hfirst
  decide

end NetEncryptor

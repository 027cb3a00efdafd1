import NetEncryptor.Core.Peers
import NetEncryptor.Core.Worker
import NetEncryptor.Crypto.Encoders

/-!
# Lengths of fragments

The sender has buffers of 2048 bytes for the plaintext of a first fragment and for each fragment.
`splitAndEncrypt_ne_none_iff` says when a split succeeds and `splitAndEncrypt_lengths` how long the
fragments are, at all three layers.  From them follows what the worker puts on the link: whole or in
two parts, every frame that fits it leaves as frames that fit it (`sendEncrypted_fitsLink`).
-/

namespace NetEncryptor

/-! ## The split at any layer -/

namespace SplitLayer

/-- Where the bytes begin that the layer splits. -/
def plainOff : SplitLayer → Packet → ℕ
  | l2, _ => ethHeaderSize
  | l3, p => ethHeaderSize + ihlAt p ethHeaderSize
  | l4, p => ethHeaderSize + ihlAt p ethHeaderSize

def firstLen : SplitLayer → Packet → ℕ → ℕ
  | l2 => frag0LenL2
  | l3 => frag0Len
  | l4 => frag0Len

def secondLen (layer : SplitLayer) (p : Packet) (len : ℕ) : ℕ :=
  len - layer.plainOff p - layer.firstLen p len

/-- What stands before the ciphertext of a fragment. -/
def encOff : SplitLayer → CryptoParams → Packet → ℕ
  | l2, P, _ => l2FragEncStartOffset P
  | l3, P, p => ethHeaderSize + ihlAt p ethHeaderSize + P.tunnelHdrSize + fragTagSize
  | l4, P, p =>
    ethHeaderSize + ihlAt p ethHeaderSize + l4WirePortLen + P.tunnelHdrSize + fragTagSize

/-- The cipher succeeds on both parts of the plaintext. -/
def CipherSucceeds (layer : SplitLayer) (evp : Evp) (P : CryptoParams) (ctx : PacketCryptoCtx)
    (counter₁ counter₂ : ℕ) (p : Packet) (len : ℕ) : Prop :=
  (encryptPayload evp P (packetCryptoGetKey ctx .current)
    (cryptoGenerateNonce P counter₁ protoFlagIpv4)
    (p.slice (layer.plainOff p) (layer.firstLen p len))).1 = true ∧
  (encryptPayload evp P (packetCryptoGetKey ctx .current)
    (cryptoGenerateNonce P counter₂ protoFlagIpv4)
    (p.slice (layer.plainOff p + layer.firstLen p len) (layer.secondLen p len))).1 = true

end SplitLayer

/-- The size of the transport header of a TCP or UDP frame; `none` stands for `-1`. -/
def transportHdrSizeAt (p : Packet) (len : ℕ) : Option ℕ :=
  getTransportHdrSize (p.shift (ethHeaderSize + ihlAt p ethHeaderSize)) (p ipv4ProtoOff)
    (len - (ethHeaderSize + ihlAt p ethHeaderSize))

theorem exists_pair_eq_some_iff {α : Type*} {x y : Option α} :
    (∃ fs : α × α, x = some fs.1 ∧ y = some fs.2) ↔ x ≠ none ∧ y ≠ none := by
  constructor
  · rintro ⟨fs, rfl, rfl⟩
    exact ⟨Option.some_ne_none _, Option.some_ne_none _⟩
  · rintro ⟨hx, hy⟩
    obtain ⟨f₁, rfl⟩ := Option.ne_none_iff_exists'.mp hx
    obtain ⟨f₂, rfl⟩ := Option.ne_none_iff_exists'.mp hy
    exact ⟨(f₁, f₂), rfl, rfl⟩

theorem slice_frag0Plain (p : Packet) (off n : ℕ) : (frag0Plain p off n).slice 0 n = p.slice off n :=
  Buffer.slice_copy_self _ _ _ _ _

theorem slice_shift (p : Packet) (off n : ℕ) : (p.shift off).slice 0 n = p.slice off n :=
  Buffer.slice_eq_slice_iff.mpr fun k _ => by rw [Buffer.shift_apply, Nat.zero_add]

section

variable {evp : Evp} {P : CryptoParams} {ctx : PacketCryptoCtx} {counter₁ counter₂ pktId len th : ℕ}
  {p out₁ out₂ : Packet} {fs : (Packet × ℕ) × Packet × ℕ}

theorem firstLen_eq (layer : SplitLayer)
    (hth : transportHdrSizeAt p len = some th) :
    layer.plainOff p + layer.firstLen p len = ethHeaderSize + ihlAt p ethHeaderSize + th +
      (len - (ethHeaderSize + ihlAt p ethHeaderSize + th)) / 2 := by
  have hthle := getTransportHdrSize_le hth
  have hfrag := frag0Len_eq hth
  have hfrag₂ : frag0LenL2 p len = ihlAt p ethHeaderSize + th +
      (len - (ethHeaderSize + ihlAt p ethHeaderSize) - th) / 2 := by
    unfold frag0LenL2 appOffL2
    rw [show getTransportHdrSize (p.shift (ethHeaderSize + ihlAt p ethHeaderSize)) (p ipv4ProtoOff)
      (len - (ethHeaderSize + ihlAt p ethHeaderSize)) = some th from hth, Option.getD_some]
  rw [Nat.sub_sub] at hfrag hfrag₂
  cases layer
  · show ethHeaderSize + frag0LenL2 p len = _
    omega
  · show ethHeaderSize + ihlAt p ethHeaderSize + frag0Len p len = _
    omega
  · show ethHeaderSize + ihlAt p ethHeaderSize + frag0Len p len = _
    omega

/-- **When a split succeeds.** There is something to split, the fragments fit their buffers, and the
cipher succeeds on both. -/
theorem splitAndEncrypt_ne_none_iff (layer : SplitLayer) (hns : P.NonceSizeOk)
    (hp : TcpUdpFrame p len) (hth : transportHdrSizeAt p len = some th) :
    layer.splitAndEncrypt evp P ctx counter₁ counter₂ pktId p len out₁ out₂ ≠ none ↔
      (ctx.initialized = true ∧ (layer = .l2 → P.fakeEthertypeIpv4 ≠ 0) ∧
        ethHeaderSize + ihlAt p ethHeaderSize + th < len ∧
        layer.encOff P p + layer.firstLen p len + P.tagSize ≤ fragBufSize ∧
        layer.encOff P p + layer.secondLen p len + P.tagSize ≤ fragBufSize) ∧
      layer.CipherSucceeds evp P ctx counter₁ counter₂ p len := by
  have hfirst := firstLen_eq layer hth
  have h₈ := getTransportHdrSize_le hth
  have h₂₀ := hp.ihl_ge
  rw [Option.ne_none_iff_exists']
  cases layer with
  | l2 =>
    show (∃ fs, fragSplitAndEncryptL2 evp P ctx counter₁ counter₂ pktId p len out₁ out₂ = some fs) ↔ _
    rw [exists_congr fun _ => fragSplitAndEncryptL2_eq_some_iff, exists_and_left,
      exists_pair_eq_some_iff, cryptoLayer2EncryptFragmentSingle_ne_none_iff,
      cryptoLayer2EncryptFragmentSingle_ne_none_iff, slice_frag0Plain, slice_shift]
    have hfirst' : ethHeaderSize + frag0LenL2 p len = _ := hfirst
    have hsecond : SplitLayer.l2.secondLen p len = len - ethHeaderSize - frag0LenL2 p len := rfl
    have happ : appOffL2 p len = th := by
      unfold appOffL2
      rw [show getTransportHdrSize (p.shift (ethHeaderSize + ihlAt p ethHeaderSize))
        (p ipv4ProtoOff) (len - (ethHeaderSize + ihlAt p ethHeaderSize)) = some th from hth,
        Option.getD_some]
    constructor
    · rintro ⟨⟨hsplits, -⟩, ⟨⟨hinit, -, -, h₁, hfake⟩, hc₁⟩, ⟨-, -, -, h₂, -⟩, hc₂⟩
      exact ⟨⟨hinit, fun _ => hfake, happ ▸ hsplits.app, h₁, h₂⟩, hc₁, hc₂⟩
    · rintro ⟨⟨hinit, hfake, hlt, h₁, h₂⟩, hc₁, hc₂⟩
      have h₁' : l2FragEncStartOffset P + frag0LenL2 p len + P.tagSize ≤ fragBufSize := h₁
      have hsplits : SplitsL2 p len :=
        ⟨hp.ipv4, h₂₀, fun _ h => Option.some_ne_none th (hth.symm.trans h), happ.symm ▸ hlt⟩
      exact ⟨⟨hsplits, by omega⟩, ⟨⟨hinit, by omega, hp.ipv4.2, h₁, hfake rfl⟩, hc₁⟩,
        ⟨hinit, by omega, hp.ipv4.2, h₂, hfake rfl⟩, hc₂⟩
  | l3 =>
    show (∃ fs, fragSplitAndEncrypt evp P ctx counter₁ counter₂ pktId p len out₁ out₂ = some fs) ↔ _
    rw [exists_congr fun _ => fragSplitAndEncrypt_eq_some_iff, exists_and_left,
      exists_pair_eq_some_iff, cryptoLayer3EncryptFragmentSingle_ne_none_iff,
      cryptoLayer3EncryptFragmentSingle_ne_none_iff, slice_frag0Plain, slice_shift]
    have hfirst' : ethHeaderSize + ihlAt p ethHeaderSize + frag0Len p len = _ := hfirst
    have hsecond : SplitLayer.l3.secondLen p len =
      len - (ethHeaderSize + ihlAt p ethHeaderSize) - frag0Len p len := rfl
    constructor
    · rintro ⟨⟨⟨-, th', hth', hlt⟩, -⟩, ⟨⟨hinit, -, -, h₁⟩, hc₁⟩, ⟨-, -, -, h₂⟩, hc₂⟩
      obtain rfl := Option.some.inj (hth.symm.trans hth')
      exact ⟨⟨hinit, nofun, hlt, h₁, h₂⟩, hc₁, hc₂⟩
    · rintro ⟨⟨hinit, -, hlt, h₁, h₂⟩, hc₁, hc₂⟩
      have h₁' : ethHeaderSize + ihlAt p ethHeaderSize + P.tunnelHdrSize + fragTagSize +
        frag0Len p len + P.tagSize ≤ fragBufSize := h₁
      exact ⟨⟨⟨hp, th, hth, hlt⟩, by omega⟩, ⟨⟨hinit, by omega, h₂₀, h₁⟩, hc₁⟩,
        ⟨hinit, by omega, h₂₀, h₂⟩, hc₂⟩
  | l4 =>
    show (∃ fs, fragSplitAndEncryptL4 evp P ctx counter₁ counter₂ pktId p len out₁ out₂ = some fs) ↔ _
    rw [exists_congr fun _ => fragSplitAndEncryptL4_eq_some_iff, exists_and_left,
      exists_pair_eq_some_iff, cryptoLayer4EncryptFragmentSingle_ne_none_iff hns,
      cryptoLayer4EncryptFragmentSingle_ne_none_iff hns, slice_frag0Plain, slice_shift]
    have hfirst' : ethHeaderSize + ihlAt p ethHeaderSize + frag0Len p len = _ := hfirst
    have hsecond : SplitLayer.l4.secondLen p len =
      len - (ethHeaderSize + ihlAt p ethHeaderSize) - frag0Len p len := rfl
    have hoff : SplitLayer.l4.encOff P p =
      ethHeaderSize + ihlAt p ethHeaderSize + l4WirePortLen + P.tunnelHdrSize + fragTagSize := rfl
    have hfl : SplitLayer.l4.firstLen p len = frag0Len p len := rfl
    constructor
    · rintro ⟨⟨⟨-, th', hth', hlt⟩, -⟩, ⟨⟨hinit, -, h₁⟩, hc₁⟩, ⟨-, -, h₂⟩, hc₂⟩
      obtain rfl := Option.some.inj (hth.symm.trans hth')
      exact ⟨⟨hinit, nofun, hlt, by omega, by omega⟩, hc₁, hc₂⟩
    · rintro ⟨⟨hinit, -, hlt, h₁, h₂⟩, hc₁, hc₂⟩
      exact ⟨⟨⟨hp, th, hth, hlt⟩, by omega⟩, ⟨⟨hinit, by omega, by omega⟩, hc₁⟩,
        ⟨hinit, by omega, by omega⟩, hc₂⟩

theorem splitAndEncrypt_lengths {layer : SplitLayer} (hns : P.NonceSizeOk)
    (h : layer.splitAndEncrypt evp P ctx counter₁ counter₂ pktId p len out₁ out₂ = some fs) :
    fs.1.2 = layer.encOff P p + layer.firstLen p len + P.tagSize ∧
      fs.2.2 = layer.encOff P p + layer.secondLen p len + P.tagSize := by
  cases layer with
  | l2 =>
    obtain ⟨-, he₁, he₂⟩ := fragSplitAndEncryptL2_eq_some_iff.mp h
    exact ⟨(cryptoLayer2EncryptFragmentSingle_frame hns he₁).1,
      (cryptoLayer2EncryptFragmentSingle_frame hns he₂).1⟩
  | l3 =>
    obtain ⟨-, he₁, he₂⟩ := fragSplitAndEncrypt_eq_some_iff.mp h
    exact ⟨(cryptoLayer3EncryptFragmentSingle_frame hns he₁).1,
      (cryptoLayer3EncryptFragmentSingle_frame hns he₂).1⟩
  | l4 =>
    obtain ⟨⟨⟨hp, -⟩, -⟩, he₁, he₂⟩ := fragSplitAndEncryptL4_eq_some_iff.mp h
    exact ⟨(cryptoLayer4EncryptFragmentSingle_frame hns hp.ihl_ge he₁).1,
      (cryptoLayer4EncryptFragmentSingle_frame hns hp.ihl_ge he₂).1⟩

end

/-! ## What the worker puts on the link -/

/-- The longest frame of a link with an MTU of 1500 bytes. -/
def linkFrameMax : ℕ := 1514

namespace EncryptLayer

def splitLayer : EncryptLayer → SplitLayer
  | l2 => .l2
  | l3 => .l3
  | l4 => .l4

def cryptoLayer : EncryptLayer → CryptoLayer
  | l2 => .l2
  | l3 => .l3
  | l4 => .l4

/-- The cipher succeeds on what the worker has encrypted of the frame. -/
def CipherSucceeds (layer : EncryptLayer) (evp : Evp) (P : CryptoParams) (ctx : PacketCryptoCtx)
    (counter₁ counter₂ : ℕ) (p : Packet) (len : ℕ) : Prop :=
  if layer.NeedSplit P len then layer.splitLayer.CipherSucceeds evp P ctx counter₁ counter₂ p len
  else (cipherOutput layer.cryptoLayer evp P ctx counter₁ p len).1 = true

end EncryptLayer

/-- The encoders and the split functions over a cipher, with the values that the counters have, the
packet id and the buffers for the fragments. -/
def Encryptors.ofEvp (evp : Evp) (counter₁ counter₂ pktId : ℕ) (frag1 frag2 : Packet) :
    Encryptors where
  encrypt layer ctx P pkt len := layer.cryptoLayer.encrypt evp P ctx counter₁ pkt len
  split layer ctx P pkt len :=
    layer.splitLayer.splitAndEncrypt evp P ctx counter₁ counter₂ pktId pkt len frag1 frag2

theorem SplitLayer.plainOff_le (layer : SplitLayer) (p : Packet) : layer.plainOff p ≤ 74 := by
  have heth : ethHeaderSize = 14 := rfl
  have hihl := ihlAt_le p ethHeaderSize
  cases layer
  · show ethHeaderSize ≤ 74
    omega
  · show ethHeaderSize + ihlAt p ethHeaderSize ≤ 74
    omega
  · show ethHeaderSize + ihlAt p ethHeaderSize ≤ 74
    omega

theorem SplitLayer.encOff_le (layer : SplitLayer) {P : CryptoParams} (hns : P.NonceSizeOk)
    (p : Packet) : layer.encOff P p ≤ layer.plainOff p + 26 := by
  have hns' := hns.le_sixteen
  have hhdr : P.tunnelHdrSize = P.nonceSize + 2 := rfl
  have htag : fragTagSize = 4 := rfl
  have hport : l4WirePortLen = 4 := rfl
  cases layer
  · show ethHeaderSize + P.nonceSize + 1 + fragTagSize ≤ ethHeaderSize + 26
    omega
  · show ethHeaderSize + ihlAt p ethHeaderSize + P.tunnelHdrSize + fragTagSize ≤
      ethHeaderSize + ihlAt p ethHeaderSize + 26
    omega
  · show ethHeaderSize + ihlAt p ethHeaderSize + l4WirePortLen + P.tunnelHdrSize + fragTagSize ≤
      ethHeaderSize + ihlAt p ethHeaderSize + 26
    omega

/-- What is left whole gets less than the difference to the limit, and what is split is long. -/
theorem EncryptLayer.needSplit_iff (layer : EncryptLayer) (P : CryptoParams) (p : Packet) (len : ℕ) :
    layer.NeedSplit P len ↔
      fragMtu + layer.splitLayer.plainOff p < len + layer.splitLayer.encOff P p + P.tagSize := by
  cases layer
  · show fragMtu < len + (P.nonceSize + 1 + fragTagSize + P.tagSize) ↔
      fragMtu + ethHeaderSize < len + (ethHeaderSize + P.nonceSize + 1 + fragTagSize) + P.tagSize
    omega
  · show fragMtu < len + (P.tunnelHdrSize + fragTagSize + P.tagSize) ↔
      fragMtu + (ethHeaderSize + ihlAt p ethHeaderSize) <
        len + (ethHeaderSize + ihlAt p ethHeaderSize + P.tunnelHdrSize + fragTagSize) + P.tagSize
    omega
  · show fragMtu < len + (l4WirePortLen + P.tunnelHdrSize + fragTagSize + P.tagSize) ↔
      fragMtu + (ethHeaderSize + ihlAt p ethHeaderSize) <
        len + (ethHeaderSize + ihlAt p ethHeaderSize + l4WirePortLen + P.tunnelHdrSize +
          fragTagSize) + P.tagSize
    omega

section

variable {evp : Evp} {P : CryptoParams} {ctx : PacketCryptoCtx} {counter₁ counter₂ pktId len : ℕ}
  {p out₁ out₂ : Packet} {layer : EncryptLayer} (hinit : ctx.initialized = true)
  (hns : P.NonceSizeOk) (hfake : layer = .l2 → P.fakeEthertypeIpv4 ≠ 0) (hp : TcpUdpFrame p len)
  (hth : transportHdrSizeAt p len ≠ none) (hlen : len ≤ linkFrameMax)
include hinit hns hfake hp hth hlen

theorem split_fitsLink (hneed : layer.NeedSplit P len)
    (hok : layer.splitLayer.CipherSucceeds evp P ctx counter₁ counter₂ p len) :
    ∃ fs, layer.splitLayer.splitAndEncrypt evp P ctx counter₁ counter₂ pktId p len out₁ out₂ =
        some fs ∧ fs.1.2 ≤ linkFrameMax ∧ fs.2.2 ≤ linkFrameMax := by
  obtain ⟨th, hth⟩ := Option.ne_none_iff_exists'.mp hth
  have heth : ethHeaderSize = 14 := rfl
  have hmtu : fragMtu = 1500 := rfl
  have hbuf : fragBufSize = 2048 := rfl
  have hmax : linkFrameMax = 1514 := rfl
  have hihl := ihlAt_le p ethHeaderSize
  have h₆₀ := getTransportHdrSize_le_sixty hth
  have hoff := layer.splitLayer.plainOff_le p
  have henc := layer.splitLayer.encOff_le hns p
  have htag := P.tagSize_le
  rw [layer.needSplit_iff P p] at hneed
  -- both parts are about half of the bytes behind the transport header
  have hfirst := firstLen_eq layer.splitLayer hth
  have hsecond : layer.splitLayer.secondLen p len =
    len - layer.splitLayer.plainOff p - layer.splitLayer.firstLen p len := rfl
  have hfake' : layer.splitLayer = .l2 → P.fakeEthertypeIpv4 ≠ 0 := fun h =>
    hfake (by cases layer <;> first | rfl | cases h)
  have hsome : layer.splitLayer.splitAndEncrypt evp P ctx counter₁ counter₂ pktId p len out₁ out₂ ≠
      none :=
    (splitAndEncrypt_ne_none_iff layer.splitLayer hns hp hth).mpr
      ⟨⟨hinit, hfake', by omega, by omega, by omega⟩, hok⟩
  obtain ⟨fs, hfs⟩ := Option.ne_none_iff_exists'.mp hsome
  obtain ⟨hl₁, hl₂⟩ := splitAndEncrypt_lengths hns hfs
  exact ⟨fs, hfs, by omega, by omega⟩

theorem encrypt_fitsLink (hneed : ¬ layer.NeedSplit P len)
    (hok : (cipherOutput layer.cryptoLayer evp P ctx counter₁ p len).1 = true) :
    ∃ n : ℕ, (layer.cryptoLayer.encrypt evp P ctx counter₁ p len).1 = n ∧ n ≤ linkFrameMax := by
  have hmtu : fragMtu = 1500 := rfl
  have hmax : linkFrameMax = 1514 := rfl
  cases layer with
  | l2 =>
    have hret := (layer2_encryptsFully hinit hns hp (hfake rfl) hok).ret
    have hmeta : ¬ fragMtu < len + (P.nonceSize + 1 + fragTagSize + P.tagSize) := hneed
    have hhdr : CryptoLayer.l2.hdrSize P = P.nonceSize := rfl
    exact ⟨_, hret, by omega⟩
  | l3 =>
    by_cases hfrag : LooksLikeLayer3Fragment P p len
    · have hret : cryptoLayer3Encrypt evp P ctx counter₁ p len = (↑len, p) :=
        layer3_returns_fragment hinit hp hfrag
      exact ⟨len, congrArg Prod.fst hret, hlen⟩
    · have hret := (layer3_encryptsFully hinit hns hp hfrag hok).ret
      have hmeta : ¬ fragMtu < len + (P.tunnelHdrSize + fragTagSize + P.tagSize) := hneed
      have hhdr : CryptoLayer.l3.hdrSize P = P.tunnelHdrSize := rfl
      exact ⟨_, hret, by omega⟩
  | l4 =>
    have hret := (layer4_encryptsFully hinit hns hp hth hok).ret
    have hmeta : ¬ fragMtu < len + (l4WirePortLen + P.tunnelHdrSize + fragTagSize + P.tagSize) :=
      hneed
    have hhdr : CryptoLayer.l4.hdrSize P = P.tunnelHdrSize := rfl
    exact ⟨_, hret, by omega⟩

end

/-! ### The addresses of the link -/

theorem setWanL2Addrs_of_ge {fwd : Forwarder} {wanIdx j : ℕ} {p q : Packet}
    (h : setWanL2Addrs fwd wanIdx p = some q) (hj : 12 ≤ j) : q j = p j := by
  unfold setWanL2Addrs at h
  split at h
  · cases h
  simp only at h
  split at h
  · exact congrFun (Option.some.inj h).symm j
  split at h
  · cases h
  · rename_i mac _
    rw [← Option.some.inj h, Buffer.write_of_ge (by rw [(fwd.wanIfMac wanIdx).property]; omega),
      Buffer.write_of_ge (by rw [mac.property]; omega)]

theorem setWanL2Addrs_ne_none {fwd : Forwarder} {wanIdx : ℕ} {p q : Packet}
    (h : setWanL2Addrs fwd wanIdx p ≠ none) : setWanL2Addrs fwd wanIdx q ≠ none := by
  unfold setWanL2Addrs at h ⊢
  split at h
  · exact absurd rfl h
  rename_i hcount
  rw [if_neg hcount]
  simp only at h ⊢
  split at h
  · rename_i hdst
    rw [if_pos hdst]
    exact Option.some_ne_none _
  · rename_i hdst
    rw [if_neg hdst]
    cases harp : fwd.wanArp wanIdx ((fwd.cfg.wans[wanIdx]?.map WanConfig.dstIp).getD 0) with
    | none => simp [harp] at h
    | some mac => exact Option.some_ne_none _

section

variable {evp : Evp} {P : CryptoParams} {ctx : PacketCryptoCtx} {counter₁ counter₂ len : ℕ}
  {p q : Packet} (h : ∀ j ≥ 12, q j = p j)
include h

theorem shift_congr {off : ℕ} (hoff : 12 ≤ off) : q.shift off = p.shift off := by
  funext i
  exact h _ (by omega)

theorem ihlAt_eth_congr : ihlAt q ethHeaderSize = ihlAt p ethHeaderSize :=
  ihlAt_congr (h _ (by decide))

theorem transportHdrSizeAt_congr : transportHdrSizeAt q len = transportHdrSizeAt p len := by
  unfold transportHdrSizeAt
  rw [ihlAt_eth_congr h, h ipv4ProtoOff (by decide),
    shift_congr h (show 12 ≤ ethHeaderSize + ihlAt p ethHeaderSize from Nat.le_add_right_of_le
      (by decide))]

theorem tcpUdpFrame_congr (hp : TcpUdpFrame p len) : TcpUdpFrame q len := by
  have hihl := ihlAt_eth_congr h
  refine ⟨⟨hp.ipv4.1, ?_⟩, ?_, ?_, ?_⟩
  · exact (Buffer.be16_congr (h 12 le_rfl) (h 13 (by decide))).trans hp.ipv4.2
  · rw [hihl]
    exact hp.ihl_ge
  · rw [hihl]
    exact hp.ihl_le
  · rw [h ipv4ProtoOff (by decide)]
    exact hp.proto

theorem SplitLayer.plainOff_congr (layer : SplitLayer) : layer.plainOff q = layer.plainOff p := by
  have hihl := ihlAt_eth_congr h
  cases layer <;> simp only [plainOff, hihl]

theorem SplitLayer.firstLen_congr (layer : SplitLayer) :
    layer.firstLen q len = layer.firstLen p len := by
  have hihl := ihlAt_eth_congr h
  have hth : transportHdrSizeAt q len = transportHdrSizeAt p len := transportHdrSizeAt_congr h
  unfold transportHdrSizeAt at hth
  rw [hihl] at hth
  cases layer <;> simp only [firstLen, frag0LenL2, frag0Len, appOffL2, hihl, hth]

theorem EncryptLayer.cipherSucceeds_congr {layer : EncryptLayer}
    (hok : layer.CipherSucceeds evp P ctx counter₁ counter₂ p len) :
    layer.CipherSucceeds evp P ctx counter₁ counter₂ q len := by
  have heth : ethHeaderSize = 14 := rfl
  have hslice : ∀ off n, ethHeaderSize ≤ off → q.slice off n = p.slice off n := fun off n hoff =>
    Buffer.slice_congr fun j hj _ => h j (by omega)
  have hpay : layer.cryptoLayer.payloadOff q = layer.cryptoLayer.payloadOff p := by
    have hihl := ihlAt_eth_congr h
    cases layer <;> simp only [cryptoLayer, CryptoLayer.payloadOff, hihl]
  have hge : ethHeaderSize ≤ layer.cryptoLayer.payloadOff p := by
    cases layer <;> simp only [cryptoLayer, CryptoLayer.payloadOff] <;> omega
  have hge' : ethHeaderSize ≤ layer.splitLayer.plainOff p := by
    cases layer <;> simp only [splitLayer, SplitLayer.plainOff] <;> omega
  unfold CipherSucceeds SplitLayer.CipherSucceeds SplitLayer.secondLen cipherOutput at hok ⊢
  rwa [SplitLayer.plainOff_congr h, SplitLayer.firstLen_congr h, hpay, hslice _ _ hge,
    hslice _ _ hge', hslice _ _ (by omega)]

end

/-- **Frames on the link.** Under a policy that encrypts, the worker makes of every TCP or UDP frame
that fits the link one frame or two, which fit it as well. -/
theorem sendEncrypted_fitsLink {evp : Evp} {fwd : Forwarder} {job : PacketJob} {cp : CryptoPolicy}
    {ctx : PacketCryptoCtx} {layer : EncryptLayer} {counter₁ counter₂ pktId : ℕ}
    {frag1 frag2 : Packet} (hlayer : EncryptLayer.ofAction cp.action = some layer)
    (haddr : setWanL2Addrs fwd (job.wan fwd) job.pkt ≠ none) (hinit : ctx.initialized = true)
    (hns : (cryptoApplyFromPolicy fwd.params cp).NonceSizeOk)
    (hfake : layer = .l2 → fwd.params.fakeEthertypeIpv4 ≠ 0)
    (hp : TcpUdpFrame job.pkt job.pktLen) (hth : transportHdrSizeAt job.pkt job.pktLen ≠ none)
    (hlen : job.pktLen ≤ linkFrameMax)
    (hok : layer.CipherSucceeds evp (cryptoApplyFromPolicy fwd.params cp) ctx counter₁ counter₂
      job.pkt job.pktLen) :
    let P := cryptoApplyFromPolicy fwd.params cp
    let E := Encryptors.ofEvp evp counter₁ counter₂ pktId frag1 frag2
    ∃ pkt frames, setWanL2Addrs fwd (job.wan fwd) job.pkt = some pkt ∧
      (layer.NeedSplit P job.pktLen → E.split layer ctx P pkt job.pktLen ≠ none) ∧
      sendEncrypted E fwd job cp ctx = some frames ∧
      frames.length = (if layer.NeedSplit P job.pktLen then 2 else 1) ∧
      ∀ f ∈ frames, f.2 ≤ linkFrameMax := by
  intro P E
  obtain ⟨pkt, hpkt⟩ := Option.ne_none_iff_exists'.mp haddr
  have hcongr : ∀ j ≥ 12, pkt j = job.pkt j := fun _ => setWanL2Addrs_of_ge hpkt
  have hp' := tcpUdpFrame_congr hcongr hp
  have hth' : transportHdrSizeAt pkt job.pktLen ≠ none := by
    rwa [transportHdrSizeAt_congr hcongr]
  have hok' := EncryptLayer.cipherSucceeds_congr hcongr hok
  have hfake' : layer = .l2 → P.fakeEthertypeIpv4 ≠ 0 := hfake
  unfold EncryptLayer.CipherSucceeds at hok'
  refine ⟨pkt, ?_⟩
  unfold sendEncrypted
  simp only [hpkt, hlayer, true_and]
  by_cases hneed : layer.NeedSplit P job.pktLen
  · rw [if_pos hneed] at hok'
    obtain ⟨⟨⟨p₁, l₁⟩, p₂, l₂⟩, hfs, hl₁, hl₂⟩ :=
      split_fitsLink hinit hns hfake' hp' hth' hlen hneed hok'
    have hsplit : E.split layer ctx P pkt job.pktLen = some ((p₁, l₁), p₂, l₂) := hfs
    obtain ⟨q₁, hq₁⟩ := Option.ne_none_iff_exists'.mp (setWanL2Addrs_ne_none haddr (q := p₁))
    obtain ⟨q₂, hq₂⟩ := Option.ne_none_iff_exists'.mp (setWanL2Addrs_ne_none haddr (q := p₂))
    refine ⟨[(q₁, l₁), (q₂, l₂)], fun _ => by simp [hsplit], ?_, by rw [if_pos hneed]; rfl, ?_⟩
    · rw [if_pos hneed, hsplit]
      unfold sendFragments
      simp only [hq₁, hq₂]
    · intro f hf
      rcases List.mem_pair.mp hf with rfl | rfl
      · exact hl₁
      · exact hl₂
  · rw [if_neg hneed] at hok'
    obtain ⟨n, hret, hn⟩ := encrypt_fitsLink hinit hns hfake' hp' hth' hlen hneed hok'
    have henc : (E.encrypt layer ctx P pkt job.pktLen).1 = n := hret
    refine ⟨[((E.encrypt layer ctx P pkt job.pktLen).2, n)], fun h => absurd h hneed, ?_,
      by rw [if_neg hneed]; rfl, ?_⟩
    · rw [if_neg hneed, henc, if_neg (by omega), Int.toNat_natCast]
    · intro f hf
      obtain rfl := List.mem_singleton.mp hf
      exact hn

/-- A TCP segment as long as the link takes. -/
def longJob : PacketJob := ⟨ackFrame, linkFrameMax, 0, 0, 1⟩

theorem sendEncrypted_fitsLink_longJob :
    ∃ frames, sendEncrypted (.ofEvp splitEvp 0 1 7 (fun _ => 0) fun _ => 0)
        (sampleForwarder (Key.repeated 1)) longJob (samplePolicy actionEncryptL3)
        (sampleCtx Key.zero) = some frames ∧
      frames.length = 2 ∧ ∀ f ∈ frames, f.2 ≤ linkFrameMax := by
  have hlayer : EncryptLayer.ofAction (samplePolicy actionEncryptL3).action = some .l3 := rfl
  have haddr : setWanL2Addrs (sampleForwarder (Key.repeated 1)) 0 ackFrame ≠ none :=
    Option.some_ne_none ackFrame
  have hok : EncryptLayer.l3.CipherSucceeds splitEvp
      (cryptoApplyFromPolicy (sampleParams .ctr) (samplePolicy actionEncryptL3))
      (sampleCtx Key.zero) 0 1 ackFrame linkFrameMax := by
    unfold EncryptLayer.CipherSucceeds
    rw [if_pos (by decide)]
    exact ⟨encryptPayload_ofStream_fst, encryptPayload_ofStream_fst⟩
  obtain ⟨-, frames, -, -, hsend, hcount, hmax⟩ :=
    @sendEncrypted_fitsLink splitEvp (sampleForwarder (Key.repeated 1)) longJob
      (samplePolicy actionEncryptL3) (sampleCtx Key.zero) .l3 0 1 7 (fun _ => 0) (fun _ => 0) hlayer
      haddr rfl (by decide) nofun (tcpUdpFrame_ackFrame (by decide)) (by decide) le_rfl hok
  exact ⟨frames, hsend, hcount.trans (if_pos (by decide)), hmax⟩

end NetEncryptor

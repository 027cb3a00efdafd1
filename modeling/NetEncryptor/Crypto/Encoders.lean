import NetEncryptor.Crypto.Layer2RoundTrip
import NetEncryptor.Crypto.Layer3RoundTrip
import NetEncryptor.Crypto.Layer4RoundTrip

/-!
# What the encoders make of a well-formed frame

`EncryptsFully` says that an encoder added its header and tag and that its output carries the
cipher's output on the whole payload.  On well-formed frames the layer-2 and layer-4 encoders do
this whatever the payload is.  The layer-3 encoder first looks for `0x5C` where a fragment would
have it, in a byte that is still plaintext, and returns such a frame as it is.
-/

namespace NetEncryptor

/-- The layers that have an encoder. -/
inductive CryptoLayer
  | l2
  | l3
  | l4
  deriving DecidableEq, Repr

namespace CryptoLayer

/-- `crypto_layer2_encrypt`, `crypto_layer3_encrypt` or `crypto_layer4_encrypt`. -/
def encrypt (layer : CryptoLayer) (evp : Evp) (P : CryptoParams) (ctx : PacketCryptoCtx)
    (counter : ℕ) (packet : Packet) (pktLen : ℕ) : ℤ × Packet :=
  match layer with
  | l2 => cryptoLayer2Encrypt evp P ctx counter packet pktLen
  | l3 => cryptoLayer3Encrypt evp P ctx counter packet pktLen
  | l4 => cryptoLayer4Encrypt evp P ctx counter packet pktLen

/-- Where the bytes begin that the layer encrypts. -/
def payloadOff (layer : CryptoLayer) (p : Packet) : ℕ :=
  match layer with
  | l2 => ethHeaderSize
  | l3 => ethHeaderSize + ihlAt p ethHeaderSize
  | l4 => ethHeaderSize + ihlAt p ethHeaderSize + l4WirePortLen

/-- What the layer puts before the ciphertext. -/
def hdrSize (layer : CryptoLayer) (P : CryptoParams) : ℕ :=
  match layer with
  | l2 => P.nonceSize
  | l3 => P.tunnelHdrSize
  | l4 => P.tunnelHdrSize

end CryptoLayer

section

variable (layer : CryptoLayer) (evp : Evp) (P : CryptoParams) (ctx : PacketCryptoCtx) (counter : ℕ)
  (p : Packet) (len : ℕ)

/-- The cipher's output on the bytes that the layer encrypts. -/
def cipherOutput : Bool × List UInt8 × List UInt8 :=
  encryptPayload evp P (packetCryptoGetKey ctx .current)
    (cryptoGenerateNonce P counter protoFlagIpv4)
    (p.slice (layer.payloadOff p) (len - layer.payloadOff p))

/-- The encoder lengthened the frame by header and tag, and what follows the header is the cipher's
output and the tag. -/
structure EncryptsFully : Prop where
  ret : (layer.encrypt evp P ctx counter p len).1 = ↑(len + layer.hdrSize P + P.tagSize)
  cipher : (layer.encrypt evp P ctx counter p len).2.slice (layer.payloadOff p + layer.hdrSize P)
    (len - layer.payloadOff p) = (cipherOutput layer evp P ctx counter p len).2.1
  tag : (layer.encrypt evp P ctx counter p len).2.slice
    (layer.payloadOff p + layer.hdrSize P + (len - layer.payloadOff p)) P.tagSize =
    (cipherOutput layer evp P ctx counter p len).2.2

/-- The byte that the layer-3 encoder tests for the fragment magic is in the frame and is it. -/
def LooksLikeLayer3Fragment : Prop :=
  ethHeaderSize + ihlAt p ethHeaderSize + P.nonceSize + 2 ≤ len ∧
    p (ethHeaderSize + ihlAt p ethHeaderSize + P.nonceSize + 1) = cryptoL3FragMagic

end

instance (P : CryptoParams) (p : Packet) (len : ℕ) : Decidable (LooksLikeLayer3Fragment P p len) :=
  inferInstanceAs (Decidable (_ ∧ _))

section

variable {evp : Evp} {P : CryptoParams} {ctx : PacketCryptoCtx} {counter : ℕ} {p : Packet} {len : ℕ}
  (hinit : ctx.initialized = true) (hns : P.NonceSizeOk) (hp : TcpUdpFrame p len)
include hinit hns hp

theorem layer2_encryptsFully (hfake : P.fakeEthertypeIpv4 ≠ 0)
    (hok : (cipherOutput .l2 evp P ctx counter p len).1 = true) :
    EncryptsFully .l2 evp P ctx counter p len := by
  have heth : ethHeaderSize = 14 := rfl
  have hmin : minEthPkt = 22 := rfl
  have h₂₀ := hp.ihl_ge
  have hle := hp.ihl_le
  have hret := cryptoLayer2Encrypt_fst hns hinit (by omega) hp.ipv4.2 hfake hok
  have hns₀ := hns.pos
  obtain ⟨-, hf⟩ : _ ∧ Layer2Frame evp P ctx counter p len _ :=
    cryptoLayer2Encrypt_frame hns (by rw [hret]; omega)
  exact ⟨hret, hf.cipher, hf.tag⟩

theorem layer3_encryptsFully (hfrag : ¬ LooksLikeLayer3Fragment P p len)
    (hok : (cipherOutput .l3 evp P ctx counter p len).1 = true) :
    EncryptsFully .l3 evp P ctx counter p len := by
  have heth : ethHeaderSize = 14 := rfl
  have hmin : minEthPkt = 22 := rfl
  have h₂₀ := hp.ihl_ge
  have hle := hp.ihl_le
  have hhdr : layer3EncryptHeader P ctx p len = .ok (ihlAt p ethHeaderSize) :=
    layer3EncryptHeader_eq_ok_iff.mpr ⟨⟨hinit, by omega⟩, hp.ipv4,
      ipv4HdrLenAt_eq_some_iff.mpr ⟨rfl, h₂₀, hle⟩, hfrag⟩
  have hret : (cryptoLayer3Encrypt evp P ctx counter p len).1 =
      ↑(len + (P.tunnelHdrSize + P.tagSize)) := by
    unfold cryptoLayer3Encrypt
    rw [hhdr]
    simp only
    rw [if_pos]
    rw [encapsulate_fst]
    exact hok
  have hhdr₀ : P.tunnelHdrSize = P.nonceSize + 2 := rfl
  obtain ⟨-, hf⟩ : _ ∧ Layer3Frame evp P ctx counter p len _ :=
    cryptoLayer3Encrypt_frame hns (by rw [hret]; omega)
  refine ⟨?_, ?_, ?_⟩
  · rw [Nat.add_assoc]; exact hret
  · have := hf.tunnel.cipher_eq
    rwa [Buffer.length_slice] at this
  · have := hf.tunnel.tag_eq
    rwa [Buffer.length_slice] at this

theorem layer4_encryptsFully
    (htr : getTransportHdrSize (p.shift (ethHeaderSize + ihlAt p ethHeaderSize)) (p ipv4ProtoOff)
      (len - (ethHeaderSize + ihlAt p ethHeaderSize)) ≠ none)
    (hok : (cipherOutput .l4 evp P ctx counter p len).1 = true) :
    EncryptsFully .l4 evp P ctx counter p len := by
  have heth : ethHeaderSize = 14 := rfl
  have hport : l4WirePortLen = 4 := rfl
  have h₂₀ := hp.ihl_ge
  have hle := hp.ihl_le
  have h₈ := getTransportHdrSize_ne_none htr
  have hoff := hp.ethIpv4Offset
  have hhdr : layer4EncryptHeader ctx p len = .ok (ethHeaderSize, ihlAt p ethHeaderSize) := by
    refine layer4EncryptHeader_eq_ok_iff.mpr
      ⟨hinit, hoff, by omega, hp.proto, rfl, h₂₀, ?_, ?_⟩
    · rw [usub_of_le hle]; exact htr
    · rw [usub_of_le (by omega)]; omega
  have hret : (cryptoLayer4Encrypt evp P ctx counter p len).1 =
      ↑(len + (P.tunnelHdrSize + P.tagSize)) := by
    unfold cryptoLayer4Encrypt
    rw [hhdr]
    simp only
    rw [if_pos]
    rw [encapsulate_fst, usub_of_le (by omega)]
    exact hok
  have hhdr₀ : P.tunnelHdrSize = P.nonceSize + 2 := rfl
  obtain ⟨-, hf⟩ : _ ∧ Layer4Frame evp P ctx counter p len ethHeaderSize _ :=
    cryptoLayer4Encrypt_frame hns hoff hle (by rw [hret]; omega)
  refine ⟨?_, ?_, ?_⟩
  · rw [Nat.add_assoc]; exact hret
  · have := hf.tunnel.cipher_eq
    rwa [Buffer.length_slice] at this
  · have := hf.tunnel.tag_eq
    rwa [Buffer.length_slice] at this

omit hns in
theorem layer3_returns_fragment (hfrag : LooksLikeLayer3Fragment P p len) :
    cryptoLayer3Encrypt evp P ctx counter p len = (↑len, p) := by
  have heth : ethHeaderSize = 14 := rfl
  have hmin : minEthPkt = 22 := rfl
  have h₂₀ := hp.ihl_ge
  have hle := hp.ihl_le
  have hihl : ipv4HdrLenAt p len ethHeaderSize = some (ihlAt p ethHeaderSize) :=
    ipv4HdrLenAt_eq_some_iff.mpr ⟨rfl, h₂₀, hle⟩
  have hhdr : layer3EncryptHeader P ctx p len = .error ↑len := by
    unfold layer3EncryptHeader
    rw [if_neg (by simp [hinit]; omega), if_neg (not_not.mpr hp.ipv4), hihl]
    exact if_pos hfrag
  unfold cryptoLayer3Encrypt
  rw [hhdr]

/-- **The encoders on well-formed frames.** Every encoder encrypts every frame fully, except the
layer-3 one on the frames that look like a layer-3 fragment. -/
theorem encryptsFully_iff (layer : CryptoLayer) (hfake : P.fakeEthertypeIpv4 ≠ 0)
    (htr : getTransportHdrSize (p.shift (ethHeaderSize + ihlAt p ethHeaderSize)) (p ipv4ProtoOff)
      (len - (ethHeaderSize + ihlAt p ethHeaderSize)) ≠ none)
    (hok : (cipherOutput layer evp P ctx counter p len).1 = true) :
    EncryptsFully layer evp P ctx counter p len ↔
      ¬ (layer = .l3 ∧ LooksLikeLayer3Fragment P p len) := by
  constructor
  · rintro h ⟨rfl, hfrag⟩
    have hret := h.ret
    have hhdr₀ : CryptoLayer.l3.hdrSize P = P.nonceSize + 2 := rfl
    rw [show CryptoLayer.l3.encrypt evp P ctx counter p len = (↑len, p) from
      layer3_returns_fragment hinit hp hfrag] at hret
    simp only at hret
    omega
  · intro h
    cases layer with
    | l2 => exact layer2_encryptsFully hinit hns hp hfake hok
    | l3 => exact layer3_encryptsFully hinit hns hp (fun hfrag => h ⟨rfl, hfrag⟩) hok
    | l4 => exact layer4_encryptsFully hinit hns hp htr hok

end

theorem encryptsFully_ackFrame :
    EncryptsFully .l4 (sampleEvp sampleKeystream) (sampleParams .ctr) (sampleCtx Key.zero) 0
      ackFrame 54 :=
  (encryptsFully_iff rfl (by decide) (tcpUdpFrame_ackFrame le_rfl) .l4 (by decide) (by decide)
    (by decide)).mpr (by decide)

/-- The sample parameters with eight bytes of nonce. -/
def shortNonceParams : CryptoParams := { sampleParams .ctr with nonceSize := 8 }

/-- With eight bytes of nonce, the second byte of the TCP acknowledgement number decides: the
layer-3 encoder returns the acknowledgement in clear when it is `0x5C`. -/
theorem layer3_clear_ackFrame :
    (TcpUdpFrame (ackFrame.set 43 0x5C) 54 ∧
      getTransportHdrSize ((ackFrame.set 43 0x5C).shift 34) 6 20 = some 20 ∧
      (cipherOutput .l3 (sampleEvp sampleKeystream) shortNonceParams (sampleCtx Key.zero) 0
        (ackFrame.set 43 0x5C) 54).1 = true) ∧
      CryptoLayer.l3.encrypt (sampleEvp sampleKeystream) shortNonceParams (sampleCtx Key.zero) 0
        (ackFrame.set 43 0x5C) 54 = (54, ackFrame.set 43 0x5C) ∧
      ¬ EncryptsFully .l3 (sampleEvp sampleKeystream) shortNonceParams (sampleCtx Key.zero) 0
        (ackFrame.set 43 0x5C) 54 := by
  have hp : TcpUdpFrame (ackFrame.set 43 0x5C) 54 :=
    ⟨by decide, by decide, by decide, by decide⟩
  have hclear : cryptoLayer3Encrypt (sampleEvp sampleKeystream) shortNonceParams
      (sampleCtx Key.zero) 0 (ackFrame.set 43 0x5C) 54 = (54, ackFrame.set 43 0x5C) :=
    layer3_returns_fragment rfl hp (by decide)
  refine ⟨⟨hp, by decide, by decide⟩, hclear, fun h => ?_⟩
  exact absurd ((congrArg Prod.fst hclear).symm.trans h.ret) (by decide)

end NetEncryptor

import NetEncryptor.Crypto.Checksums
import NetEncryptor.Crypto.Layer4Fragment
import NetEncryptor.Crypto.Layer4RoundTrip

/-!
# Encrypted frames as IP packets

A frame is a self-consistent IP packet when its total length is its frame length without the
Ethernet header and its header checksum verifies.  All four encoders end by patching the header, so
the checksum always verifies (`neRxIpv4HeaderCsumOk_patchIpv4`).  Three of them compute the total
length from what they emit; `crypto_layer3_encrypt` adds its overhead to the old total length, which
is smaller than the frame when the frame is padded.
-/

namespace NetEncryptor

/-- The total length of the frame's IP header covers the frame, and the header verifies. -/
def SelfConsistent (q : Packet) (len : ℕ) : Prop :=
  ethHeaderSize + q.be16 ipv4TotlenOff = len ∧
    neRxIpv4HeaderCsumOk (q.shift ethHeaderSize) (ihlAt q ethHeaderSize)

/-! ## Patched headers -/

/-- **Patched headers verify**, whatever total length was stored. -/
theorem neRxIpv4HeaderCsumOk_patchIpv4 (packet : Packet) {l3Off ihl : ℕ} (ipTotal : ℕ)
    (h₂₀ : 20 ≤ ihl) (h₆₀ : ihl ≤ 60) :
    neRxIpv4HeaderCsumOk ((patchIpv4 packet l3Off ihl ipTotal).shift l3Off) ihl := by
  unfold patchIpv4
  rw [Buffer.shift_put16, Buffer.shift_put16]
  have h := neRxIpv4HeaderCsumOk_put16 ((packet.put16 (l3Off + 2) ipTotal).shift l3Off) h₂₀ h₆₀
  rwa [← Buffer.put16_put16 _ 10 0] at h

/-- The frame is the result of patching some frame that has a header of `ihl` bytes. -/
def Patched (q : Packet) (ihl ipTotal : ℕ) : Prop :=
  ∃ packet : Packet, ihlAt packet ethHeaderSize = ihl ∧
    q = patchIpv4 packet ethHeaderSize ihl ipTotal

theorem Patched.consistent_iff {q : Packet} {ihl ipTotal len : ℕ} (h : Patched q ihl ipTotal)
    (h₂₀ : 20 ≤ ihl) : SelfConsistent q len ↔ ethHeaderSize + ipTotal % 65536 = len := by
  obtain ⟨packet, hihl, rfl⟩ := h
  have hsame : ihlAt (patchIpv4 packet ethHeaderSize ihl ipTotal) ethHeaderSize = ihl :=
    (ihlAt_congr (patchIpv4_of_ne (by omega) (by omega) (by omega) (by omega))).trans hihl
  have h₆₀ : ihl ≤ 60 := hihl ▸ ihlAt_le packet ethHeaderSize
  have htot := be16_patchIpv4_totlen packet ethHeaderSize ihl ipTotal
  unfold SelfConsistent
  rw [hsame]
  refine ⟨fun h => ?_, fun h => ⟨?_, neRxIpv4HeaderCsumOk_patchIpv4 packet ipTotal h₂₀ h₆₀⟩⟩
  · rw [← htot]
    exact h.1
  · rw [← htot] at h
    exact h

/-! ## What the encoders patch -/

section

variable {evp : Evp} {P : CryptoParams} {ctx : PacketCryptoCtx} {counter len : ℕ} {p : Packet}

theorem cryptoLayer3Encrypt_patched (h : len < (cryptoLayer3Encrypt evp P ctx counter p len).1) :
    Patched (cryptoLayer3Encrypt evp P ctx counter p len).2 (ihlAt p ethHeaderSize)
      (p.be16 ipv4TotlenOff + (P.tunnelHdrSize + P.tagSize)) := by
  unfold cryptoLayer3Encrypt at h ⊢
  cases hh : layer3EncryptHeader P ctx p len with
  | error r =>
    rw [hh] at h
    exact absurd h (not_lt.mpr (layer3EncryptHeader_error_le hh))
  | ok ihl =>
    rw [hh] at h
    obtain ⟨-, -, hihl, -⟩ := layer3EncryptHeader_eq_ok_iff.mp hh
    obtain ⟨rfl, h₂₀, -⟩ := ipv4HdrLenAt_eq_some_iff.mp hihl
    have heth : ethHeaderSize = 14 := rfl
    simp only at h ⊢
    split_ifs at h ⊢ with hs
    · refine ⟨_, ?_, congrArg (patchIpv4 _ _ _) ?_⟩
      · exact ihlAt_congr (layer3_header_of_lt (by omega) (by decide))
      · congr 1
        exact Buffer.be16_congr
          (layer3_header_of_lt (by unfold ipv4TotlenOff; omega) (by decide))
          (layer3_header_of_lt (by unfold ipv4TotlenOff; omega) (by decide))
    · simp only at h; omega

theorem cryptoLayer4Encrypt_patched (hp : TcpUdpFrame p len)
    (h : len < (cryptoLayer4Encrypt evp P ctx counter p len).1) :
    Patched (cryptoLayer4Encrypt evp P ctx counter p len).2 (ihlAt p ethHeaderSize)
      (len - ethHeaderSize + (P.tunnelHdrSize + P.tagSize)) := by
  unfold cryptoLayer4Encrypt at h ⊢
  cases hh : layer4EncryptHeader ctx p len with
  | error r =>
    rw [hh] at h
    exact absurd h (not_lt.mpr (layer4EncryptHeader_error_le hh))
  | ok hdr =>
    obtain ⟨off, ihl⟩ := hdr
    rw [hh] at h
    obtain ⟨-, hoff, -, -, rfl, h₂₀, htr, -⟩ := layer4EncryptHeader_eq_ok_iff.mp hh
    obtain rfl := Option.some.inj (hp.ethIpv4Offset.symm.trans hoff)
    have hport : l4WirePortLen = 4 := rfl
    have hin := hp.ihl_le
    have h₈ := getTransportHdrSize_ne_none htr
    rw [usub_of_le hin] at h₈
    simp only at h ⊢
    rw [usub_of_le (by omega)] at h ⊢
    split_ifs at h ⊢ with hs
    · refine ⟨_, ?_, congrArg (patchIpv4 _ _ _) ?_⟩
      · exact ihlAt_congr ((tunnelHeader_of_lt (by omega)).trans (encapsulate_of_lt (by omega)))
      · omega
    · simp only at h; omega

section Fragments

variable {wirePorts plain outBuf : Packet} {n pktId outMax : ℕ} {fragIndex : UInt8}
  {f : Packet × ℕ}

theorem copyHeaders_ihl {ihl : ℕ} (h₂₀ : 20 ≤ ihl) :
    ((outBuf.copy 0 p 0 ethHeaderSize).copy ethHeaderSize (p.shift ethHeaderSize) 0 ihl)
      ethHeaderSize = p ethHeaderSize := by
  rw [Buffer.copy_of_mem le_rfl (by omega), Buffer.shift_apply]
  congr 1

theorem cryptoLayer3EncryptFragmentSingle_patched (h₂₀ : 20 ≤ ihlAt p ethHeaderSize)
    (h : cryptoLayer3EncryptFragmentSingle evp P ctx counter p (p.shift ethHeaderSize)
      (ihlAt p ethHeaderSize) plain n pktId fragIndex outBuf outMax = some f) :
    Patched f.1 (ihlAt p ethHeaderSize) (f.2 - ethHeaderSize) ∧ ethHeaderSize ≤ f.2 := by
  have heth : ethHeaderSize = 14 := rfl
  unfold cryptoLayer3EncryptFragmentSingle at h
  simp only at h
  split_ifs at h with hargs hs
  obtain rfl := Option.some.inj h
  refine ⟨⟨_, ?_, congrArg (patchIpv4 _ _ _) ?_⟩, ?_⟩
  · refine ihlAt_congr ((sealInPlace_of_lt (by omega)).trans ?_)
    exact layer3FragmentPlain_header (by omega) (by decide)
  · simp only
    omega
  · simp only
    omega

theorem cryptoLayer4EncryptFragmentSingle_patched (h₂₀ : 20 ≤ ihlAt p ethHeaderSize)
    (h : cryptoLayer4EncryptFragmentSingle evp P ctx counter p (p.shift ethHeaderSize)
      (ihlAt p ethHeaderSize) wirePorts plain n pktId fragIndex outBuf outMax = some f) :
    Patched f.1 (ihlAt p ethHeaderSize) (f.2 - ethHeaderSize) ∧ ethHeaderSize ≤ f.2 := by
  have heth : ethHeaderSize = 14 := rfl
  have hth : P.tunnelHdrSize = P.nonceSize + 2 := rfl
  unfold cryptoLayer4EncryptFragmentSingle at h
  simp only at h
  split_ifs at h with hargs hs
  obtain rfl := Option.some.inj h
  refine ⟨⟨_, ?_, congrArg (patchIpv4 _ _ _) ?_⟩, ?_⟩
  · refine ihlAt_congr ((sealInPlace_of_lt (by omega)).trans ?_)
    rw [writeFragTag_of_lt (by omega), tunnelHeader_of_lt (by omega), Buffer.copy_of_lt (by omega),
      Buffer.copy_of_lt (by omega)]
    exact copyHeaders_ihl h₂₀
  · simp only
    omega
  · simp only
    omega

end Fragments

/-! ## When encrypted frames are self-consistent -/

/-- **Which encrypted frames are self-consistent.** A frame that `crypto_layer3_encrypt` grew is a
self-consistent IP packet exactly when the new length fits 16 bits and the original total length
was that of the whole frame, so that there was no padding; for `crypto_layer4_encrypt` and the two
fragment encoders only the first condition is there. -/
theorem selfConsistent_iff (hp : TcpUdpFrame p len) (hns : P.NonceSizeOk) :
    (len < (cryptoLayer3Encrypt evp P ctx counter p len).1 →
      (SelfConsistent (cryptoLayer3Encrypt evp P ctx counter p len).2
          (cryptoLayer3Encrypt evp P ctx counter p len).1.toNat ↔
        len - ethHeaderSize + (P.tunnelHdrSize + P.tagSize) < 65536 ∧
          p.be16 ipv4TotlenOff = len - ethHeaderSize)) ∧
    (len < (cryptoLayer4Encrypt evp P ctx counter p len).1 →
      (SelfConsistent (cryptoLayer4Encrypt evp P ctx counter p len).2
          (cryptoLayer4Encrypt evp P ctx counter p len).1.toNat ↔
        len - ethHeaderSize + (P.tunnelHdrSize + P.tagSize) < 65536)) ∧
    (∀ (plain outBuf : Packet) (n pktId outMax : ℕ) (fragIndex : UInt8) (f : Packet × ℕ),
      cryptoLayer3EncryptFragmentSingle evp P ctx counter p (p.shift ethHeaderSize)
        (ihlAt p ethHeaderSize) plain n pktId fragIndex outBuf outMax = some f →
      (SelfConsistent f.1 f.2 ↔ f.2 - ethHeaderSize < 65536)) ∧
    ∀ (wirePorts plain outBuf : Packet) (n pktId outMax : ℕ) (fragIndex : UInt8) (f : Packet × ℕ),
      cryptoLayer4EncryptFragmentSingle evp P ctx counter p (p.shift ethHeaderSize)
        (ihlAt p ethHeaderSize) wirePorts plain n pktId fragIndex outBuf outMax = some f →
      (SelfConsistent f.1 f.2 ↔ f.2 - ethHeaderSize < 65536) := by
  have heth : ethHeaderSize = 14 := rfl
  have h₂₀ := hp.ihl_ge
  have hle := hp.ihl_le
  refine ⟨fun hgrew => ?_, fun hgrew => ?_, ?_, ?_⟩
  · have hfield := p.be16_lt ipv4TotlenOff
    rw [(cryptoLayer3Encrypt_patched hgrew).consistent_iff h₂₀,
      (cryptoLayer3Encrypt_frame hns hgrew).1, Int.toNat_natCast]
    omega
  · rw [(cryptoLayer4Encrypt_patched hp hgrew).consistent_iff h₂₀,
      (cryptoLayer4Encrypt_frame hns hp.ethIpv4Offset hle hgrew).1, Int.toNat_natCast]
    omega
  · intro plain outBuf n pktId outMax fragIndex f hf
    obtain ⟨hpatched, hlen⟩ := cryptoLayer3EncryptFragmentSingle_patched h₂₀ hf
    rw [hpatched.consistent_iff h₂₀]
    omega
  · intro wirePorts plain outBuf n pktId outMax fragIndex f hf
    obtain ⟨hpatched, hlen⟩ := cryptoLayer4EncryptFragmentSingle_patched h₂₀ hf
    rw [hpatched.consistent_iff h₂₀]
    omega

theorem selfConsistent_iff_ackFrame :
    54 < (cryptoLayer3Encrypt (sampleEvp sampleKeystream) (sampleParams .ctr)
        (sampleCtx Key.zero) 0 ackFrame 54).1 ∧
      SelfConsistent (cryptoLayer3Encrypt (sampleEvp sampleKeystream) (sampleParams .ctr)
          (sampleCtx Key.zero) 0 ackFrame 54).2
        (cryptoLayer3Encrypt (sampleEvp sampleKeystream) (sampleParams .ctr)
          (sampleCtx Key.zero) 0 ackFrame 54).1.toNat := by
  have hgrew : 54 < (cryptoLayer3Encrypt (sampleEvp sampleKeystream) (sampleParams .ctr)
      (sampleCtx Key.zero) 0 ackFrame 54).1 := by decide
  refine ⟨hgrew, ?_⟩
  exact ((selfConsistent_iff (tcpUdpFrame_ackFrame le_rfl) (by decide)).1 hgrew).mpr
    ⟨by decide, by decide⟩

/-- The acknowledgement padded to 60 bytes, encrypted at layer 3, is six bytes longer than its
total length says, so a hop that trims it cuts off the last six bytes of the ciphertext. -/
theorem not_selfConsistent_padded :
    (TcpUdpFrame ackFrame 60 ∧ Ipv4HeaderOk ackFrame ethHeaderSize ∧
      ackFrame.be16 ipv4TotlenOff ≤ 60 - ethHeaderSize ∧
      60 < (cryptoLayer3Encrypt (sampleEvp sampleKeystream) (sampleParams .ctr)
        (sampleCtx Key.zero) 0 ackFrame 60).1) ∧
      ¬ SelfConsistent (cryptoLayer3Encrypt (sampleEvp sampleKeystream) (sampleParams .ctr)
          (sampleCtx Key.zero) 0 ackFrame 60).2
        (cryptoLayer3Encrypt (sampleEvp sampleKeystream) (sampleParams .ctr)
          (sampleCtx Key.zero) 0 ackFrame 60).1.toNat := by
  have hgrew : 60 < (cryptoLayer3Encrypt (sampleEvp sampleKeystream) (sampleParams .ctr)
      (sampleCtx Key.zero) 0 ackFrame 60).1 := by decide
  obtain ⟨hret, hf⟩ := cryptoLayer3Encrypt_frame (by decide) hgrew
  refine ⟨⟨tcpUdpFrame_ackFrame (by omega), ipv4HeaderOk_ackFrame, by decide, hgrew⟩, fun h => ?_⟩
  have hlen := h.1
  rw [hf.totlen, hret, Int.toNat_natCast] at hlen
  exact absurd hlen (by decide)

end

end NetEncryptor

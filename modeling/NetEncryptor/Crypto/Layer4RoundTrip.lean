import NetEncryptor.Crypto.Layer4

/-!
# The layer-4 tunnel round trip

`Layer4Frame` says what an encrypted frame looks like; `cryptoLayer4Encrypt_frame` proves it of
the encoder and `Layer4Frame.decrypt` runs the decoder on such a frame.  Both directions compute
the IP total length from the length of the frame, so the original frame comes back exactly when
it has no padding and its checksum field is not all ones.
-/

namespace NetEncryptor

theorem cryptoGenerateNonce_head {P : CryptoParams} (h : P.NonceSizeOk) (counter : ℕ) :
    ∃ x : UInt8, x.toNat < 128 ∧ (cryptoGenerateNonce P counter protoFlagIpv4)[0]? = some x := by
  refine ⟨UInt8.ofNat (128 * protoFlagIpv4 + counter / 2 ^ 24 % 128), ?_, ?_⟩
  · rw [UInt8.toNat_ofNat']
    unfold protoFlagIpv4
    omega
  · unfold cryptoGenerateNonce
    rw [List.getElem?_take_of_lt (by rcases h with h | h | h | h <;> omega)]
    rfl

theorem getTransportHdrSize_ne_none {hdr : Packet} {proto : UInt8} {n : ℕ}
    (h : getTransportHdrSize hdr proto n ≠ none) : 8 ≤ n := by
  unfold getTransportHdrSize at h
  by_contra hn
  split_ifs at h <;> first | exact h rfl | omega

section

variable {evp : Evp} {P : CryptoParams} {ctx : PacketCryptoCtx}

/-! ## Encoding -/

theorem layer4EncryptHeader_eq_ok_iff {p : Packet} {len l3Off ihl : ℕ} :
    layer4EncryptHeader ctx p len = .ok (l3Off, ihl) ↔
      ctx.initialized = true ∧ cryptoEthIpv4Offset p len = some l3Off ∧ l3Off + 20 ≤ len ∧
        (p (l3Off + 9) = 6 ∨ p (l3Off + 9) = 17) ∧ ihl = ihlAt p l3Off ∧ 20 ≤ ihl ∧
        getTransportHdrSize (p.shift (l3Off + ihl)) (p (l3Off + 9)) (usub len (l3Off + ihl)) ≠ none ∧
        usub len (l3Off + ihl + l4WirePortLen) ≠ 0 := by
  unfold layer4EncryptHeader
  by_cases h₁ : ctx.initialized = false
  · rw [if_pos h₁]
    refine iff_of_false (by simp) fun h => ?_
    rw [h.1] at h₁; cases h₁
  rw [if_neg h₁]
  rw [Bool.not_eq_false] at h₁
  cases hoff : cryptoEthIpv4Offset p len with
  | none => simp
  | some off =>
    simp only [Option.some.injEq]
    split_ifs with h₂ h₃ h₄ h₅ h₆
    · refine iff_of_false (by simp) ?_
      rintro ⟨-, rfl, h, -⟩
      omega
    · refine iff_of_false (by simp) ?_
      rintro ⟨-, rfl, -, h, -⟩
      exact h.elim h₃.1 h₃.2
    · refine iff_of_false (by simp) ?_
      rintro ⟨-, rfl, -, -, rfl, h, -⟩
      omega
    · refine iff_of_false (by simp) ?_
      rintro ⟨-, rfl, -, -, rfl, -, h, -⟩
      exact h h₅
    · refine iff_of_false (by simp) ?_
      rintro ⟨-, rfl, -, -, rfl, -, -, h⟩
      exact h h₆
    · simp only [Except.ok.injEq, Prod.mk.injEq]
      constructor
      · rintro ⟨rfl, rfl⟩
        exact ⟨h₁, rfl, by omega, by tauto, rfl, by omega, h₅, h₆⟩
      · rintro ⟨-, rfl, -, -, rfl, -⟩
        exact ⟨rfl, rfl⟩

theorem layer4EncryptHeader_error_le {p : Packet} {len : ℕ} {r : ℤ}
    (h : layer4EncryptHeader ctx p len = .error r) : r ≤ len := by
  unfold layer4EncryptHeader at h
  by_cases h₁ : ctx.initialized = false
  · rw [if_pos h₁] at h; cases h; omega
  rw [if_neg h₁] at h
  cases hoff : cryptoEthIpv4Offset p len with
  | none => rw [hoff] at h; cases h; omega
  | some off =>
    rw [hoff] at h
    simp only at h
    split_ifs at h <;> cases h <;> omega

variable (evp P ctx) in
/-- The frame `q` is the encryption of the `len` bytes of `p`, whose IP header is at `l3Off`. -/
structure Layer4Frame (counter : ℕ) (p : Packet) (len l3Off : ℕ) (q : Packet) : Prop where
  initialized : ctx.initialized = true
  offset : cryptoEthIpv4Offset p len = some l3Off
  proto : p (l3Off + 9) = 6 ∨ p (l3Off + 9) = 17
  ihl_ge : 20 ≤ ihlAt p l3Off
  inside : l3Off + ihlAt p l3Off + 8 ≤ len
  header : ∀ j < l3Off + ihlAt p l3Off + l4WirePortLen,
    j ≠ l3Off + 2 → j ≠ l3Off + 3 → j ≠ l3Off + 10 → j ≠ l3Off + 11 → q j = p j
  tunnel : TunnelAt evp P (packetCryptoGetKey ctx .current)
    (cryptoGenerateNonce P counter protoFlagIpv4)
    (p.slice (l3Off + ihlAt p l3Off + l4WirePortLen)
      (len - (l3Off + ihlAt p l3Off + l4WirePortLen)))
    cryptoL4TunnelMagic q (l3Off + ihlAt p l3Off + l4WirePortLen)

/-- **The encoder's output.** A frame that grew is a layer-4 frame. -/
theorem cryptoLayer4Encrypt_frame (hns : P.NonceSizeOk) {counter len l3Off : ℕ} {p : Packet}
    (hoff : cryptoEthIpv4Offset p len = some l3Off) (hin : l3Off + ihlAt p l3Off ≤ len)
    (h : len < (cryptoLayer4Encrypt evp P ctx counter p len).1) :
    (cryptoLayer4Encrypt evp P ctx counter p len).1 = ↑(len + (P.tunnelHdrSize + P.tagSize)) ∧
      Layer4Frame evp P ctx counter p len l3Off (cryptoLayer4Encrypt evp P ctx counter p len).2 := by
  unfold cryptoLayer4Encrypt at h ⊢
  cases hh : layer4EncryptHeader ctx p len with
  | error r =>
    rw [hh] at h
    exact absurd h (not_lt.mpr (layer4EncryptHeader_error_le hh))
  | ok hdr =>
    obtain ⟨off, ihl⟩ := hdr
    rw [hh] at h
    obtain ⟨hinit, hoff', -, hproto, rfl, h₂₀, htr, -⟩ := layer4EncryptHeader_eq_ok_iff.mp hh
    obtain rfl := Option.some.inj (hoff.symm.trans hoff')
    have hport : l4WirePortLen = 4 := rfl
    have h₈ := getTransportHdrSize_ne_none htr
    rw [usub_of_le hin] at h₈
    simp only at h ⊢
    rw [usub_of_le (by omega)] at h ⊢
    split_ifs at h ⊢ with hs
    · refine ⟨rfl, ⟨hinit, hoff, hproto, h₂₀, by omega, ?_, ?_⟩⟩ <;> dsimp only
      · intro j hj h₂ h₃ h₁₀ h₁₁
        unfold l4FixIpv4TotlenAndCksum
        rw [patchIpv4_of_ne h₂ h₃ h₁₀ h₁₁, tunnelHeader_of_lt hj, encapsulate_of_lt hj]
      · refine (tunnelAt_encapsulate (length_cryptoGenerateNonce hns _ _) hs).congr fun j hj => ?_
        unfold l4FixIpv4TotlenAndCksum
        rw [patchIpv4_of_ne (by omega) (by omega) (by omega) (by omega)]
    · simp only at h; omega

/-! ## Decoding -/

namespace Layer4Frame

variable {counter len l3Off : ℕ} {p q : Packet} (h : Layer4Frame evp P ctx counter p len l3Off q)
include h

theorem decryptHeader (hns : P.NonceSizeOk) :
    layer4DecryptHeader P ctx q (len + (P.tunnelHdrSize + P.tagSize)) =
      .ok (l3Off, ihlAt p l3Off) := by
  have hport : l4WirePortLen = 4 := rfl
  have h₂₀ := h.ihl_ge
  have hin := h.inside
  have hoff : cryptoEthIpv4Offset q (len + (P.tunnelHdrSize + P.tagSize)) = some l3Off :=
    cryptoEthIpv4Offset_eq_some h.offset (by omega) fun i hi =>
      h.header i (by omega) (by omega) (by omega) (by omega) (by omega)
  have hihl : ihlAt q l3Off = ihlAt p l3Off :=
    ihlAt_congr (h.header _ (by omega) (by omega) (by omega) (by omega) (by omega))
  have hproto : q (l3Off + 9) = p (l3Off + 9) :=
    h.header _ (by omega) (by omega) (by omega) (by omega) (by omega)
  have htun : l4IsTunnelHeader q (l3Off + ihlAt p l3Off + l4WirePortLen) P.nonceSize := by
    refine ⟨h.tunnel.last_eq, ?_⟩
    obtain ⟨x, hx, hhead⟩ := cryptoGenerateNonce_head hns counter
    have hns₀ := hns.pos
    rw [← h.tunnel.nonce_eq, Buffer.getElem?_slice _ hns₀, Option.some.injEq] at hhead
    rw [Nat.add_zero] at hhead
    rwa [hhead]
  unfold layer4DecryptHeader
  rw [if_neg (by simp [h.initialized]), hoff]
  simp only [hihl, hproto]
  have hp := h.proto
  rw [if_neg (by omega), if_neg (by tauto), if_neg (by omega), if_neg]
  rintro (h' | h')
  · omega
  · exact h' htun

/-- **The decoder on an encrypted frame.** All the original bytes come back, except for the total
length and the header checksum, which the decoder patches with the length of the frame. -/
theorem decrypt (hevp : evp.Lawful) (hns : P.NonceSizeOk) :
    ∃ w, (∀ j < len, j ≠ l3Off + 2 → j ≠ l3Off + 3 → j ≠ l3Off + 10 → j ≠ l3Off + 11 →
        w j = p j) ∧
      cryptoLayer4Decrypt evp P ctx q (len + (P.tunnelHdrSize + P.tagSize)) =
        (↑len, patchIpv4 w l3Off (ihlAt p l3Off) (len - l3Off)) := by
  have hheader := h.header
  have hin := h.inside
  have hport : l4WirePortLen = 4 := rfl
  have hhdr := h.decryptHeader hns
  have htun := h.tunnel
  unfold cryptoLayer4Decrypt
  rw [hhdr]
  generalize hoff : l3Off + ihlAt p l3Off + l4WirePortLen = off at *
  have hopen : openTunnel evp P ctx keyOrder (fun _ => true) q
      (len + (P.tunnelHdrSize + P.tagSize)) off (off + P.tunnelHdrSize) =
      (true, q.write (off + P.tunnelHdrSize) (p.slice off (len - off))) :=
    htun.openTunnel hevp (by rw [Buffer.length_slice]; omega) rfl
  simp only [hoff, hopen, if_true]
  have henc : cipherLen P (len + (P.tunnelHdrSize + P.tagSize)) (off + P.tunnelHdrSize) =
      len - off := by unfold cipherLen; omega
  have hfix : ∀ w, l4FixIpv4TotlenAndCksum w l3Off (ihlAt p l3Off) (l4WirePortLen + (len - off)) =
      patchIpv4 w l3Off (ihlAt p l3Off) (len - l3Off) := fun w => by
    unfold l4FixIpv4TotlenAndCksum
    congr 1
    omega
  rw [henc, show off + (len - off) = len by omega]
  refine ⟨_, ?_, congrArg (Prod.mk _) (hfix _)⟩
  intro j hj h₂ h₃ h₁₀ h₁₁
  by_cases hjo : j < off
  · rw [Buffer.copy_of_lt hjo, Buffer.write_of_lt (by omega)]
    exact hheader j hjo h₂ h₃ h₁₀ h₁₁
  · obtain ⟨k, rfl⟩ := Nat.exists_eq_add_of_le (not_lt.mp hjo)
    rw [Buffer.copy_add (by omega)]
    exact Buffer.slice_eq_slice_iff.mp
      (Buffer.slice_write_self q _ (Buffer.length_slice p off (len - off))) k (by omega)

theorem frame_iff (hevp : evp.Lawful) (hns : P.NonceSizeOk) (hip : Ipv4HeaderOk p l3Off) :
    (cryptoLayer4Decrypt evp P ctx q (len + (P.tunnelHdrSize + P.tagSize))).1 = len ∧
      ((∀ j < len,
        (cryptoLayer4Decrypt evp P ctx q (len + (P.tunnelHdrSize + P.tagSize))).2 j = p j) ↔
        (len - l3Off) % 65536 = p.be16 (l3Off + 2) ∧ p.be16 (l3Off + 10) ≠ 65535) := by
  obtain ⟨w, hw, hdec⟩ := h.decrypt hevp hns
  have h₂₀ := h.ihl_ge
  have hin := h.inside
  rw [hdec]
  refine ⟨rfl, ?_⟩
  rw [← patchIpv4_eq_iff hip (q := w) fun i hi h₂ h₃ h₁₀ h₁₁ =>
    hw _ (by omega) (by omega) (by omega) (by omega) (by omega)]
  refine ⟨fun hall i hi => hall _ (by omega), fun hhdr j hj => ?_⟩
  by_cases hj' : l3Off ≤ j ∧ j < l3Off + ihlAt p l3Off
  · obtain ⟨i, rfl⟩ := Nat.exists_eq_add_of_le hj'.1
    exact hhdr i (by omega)
  · simp only
    rw [patchIpv4_of_ne (by omega) (by omega) (by omega) (by omega)]
    exact hw j hj (by omega) (by omega) (by omega) (by omega)

end Layer4Frame

end

/-! ## The round trip -/

/-- Decrypting the encrypted frame gives back its length and its bytes. -/
def Layer4RoundTrips (evp : Evp) (P : CryptoParams) (ctx : PacketCryptoCtx) (counter : ℕ)
    (p : Packet) (len : ℕ) : Prop :=
  let e := cryptoLayer4Encrypt evp P ctx counter p len
  let d := cryptoLayer4Decrypt evp P ctx e.2 e.1.toNat
  d.1 = len ∧ ∀ j < len, d.2 j = p j

/-- **The layer-4 round trip.** A frame that `crypto_layer4_encrypt` lengthened comes back exactly
when its IP total length is the length of the frame and its checksum field is not all ones. -/
theorem layer4_roundTrips_iff {evp : Evp} {P : CryptoParams} {ctx : PacketCryptoCtx} {counter : ℕ}
    {p : Packet} {len l3Off : ℕ} (hevp : evp.Lawful) (hns : P.NonceSizeOk)
    (hoff : cryptoEthIpv4Offset p len = some l3Off) (hip : Ipv4HeaderOk p l3Off)
    (hin : l3Off + ihlAt p l3Off ≤ len)
    (henc : len < (cryptoLayer4Encrypt evp P ctx counter p len).1) :
    Layer4RoundTrips evp P ctx counter p len ↔
      (len - l3Off) % 65536 = p.be16 (l3Off + 2) ∧ p.be16 (l3Off + 10) ≠ 65535 := by
  obtain ⟨hret, hf⟩ := cryptoLayer4Encrypt_frame hns hoff hin henc
  obtain ⟨hlen, hframe⟩ := hf.frame_iff hevp hns hip
  unfold Layer4RoundTrips
  simp only [hret, Int.toNat_natCast, hlen, true_and]
  exact hframe

theorem layer4_roundTrips_ackFrame :
    Layer4RoundTrips (sampleEvp sampleKeystream) (sampleParams .ctr) (sampleCtx Key.zero) 0
      ackFrame 54 :=
  (layer4_roundTrips_iff (Evp.lawful_ofStream _ _ _) (by decide) (by decide) ipv4HeaderOk_ackFrame
    (by decide) (by decide)).mpr (by decide)

/-- The same acknowledgement padded to 60 bytes does not: the padding becomes part of the
datagram. -/
theorem layer4_not_roundTrips_padded :
    (cryptoEthIpv4Offset ackFrame 60 = some ethHeaderSize ∧ Ipv4HeaderOk ackFrame ethHeaderSize ∧
      ackFrame.be16 (ethHeaderSize + 2) ≤ 60 - ethHeaderSize ∧
      60 < (cryptoLayer4Encrypt (sampleEvp sampleKeystream) (sampleParams .ctr)
        (sampleCtx Key.zero) 0 ackFrame 60).1) ∧
      ¬ Layer4RoundTrips (sampleEvp sampleKeystream) (sampleParams .ctr) (sampleCtx Key.zero) 0
        ackFrame 60 := by
  have hoff : cryptoEthIpv4Offset ackFrame 60 = some ethHeaderSize := by decide
  have henc : 60 < (cryptoLayer4Encrypt (sampleEvp sampleKeystream) (sampleParams .ctr)
      (sampleCtx Key.zero) 0 ackFrame 60).1 := by decide
  refine ⟨⟨hoff, ipv4HeaderOk_ackFrame, by decide, henc⟩, ?_⟩
  obtain ⟨hret, hf⟩ := cryptoLayer4Encrypt_frame (by decide) hoff (by decide) henc
  unfold Layer4RoundTrips
  simp only [hret, Int.toNat_natCast]
  rintro ⟨-, h⟩
  have hkept := (hf.frame_iff (Evp.lawful_ofStream _ _ _) (by decide)
    ipv4HeaderOk_ackFrame).2.mp h
  exact absurd hkept (by decide)

end NetEncryptor

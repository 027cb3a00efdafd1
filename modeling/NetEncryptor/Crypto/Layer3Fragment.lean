import NetEncryptor.Crypto.Layer3RoundTrip

/-!
# Layer-3 fragments

`Layer3FragFrame` says what an encrypted fragment looks like;
`cryptoLayer3EncryptFragmentSingle_frame` proves it of the encoder and `Layer3FragFrame.decrypt`
runs the decoder on such a frame.  The decoder gives back the Ethernet and IP headers, except for
the protocol number, and the plaintext.
-/

namespace NetEncryptor

/-! ## Fragment tags -/

section Tag

variable {packet : Packet} {off pktId j : ℕ} {fragIndex : UInt8}

theorem writeFragTag_of_lt (h : j < off) : writeFragTag packet off pktId fragIndex j = packet j :=
  Buffer.write_of_lt h

theorem writeFragTag_of_ge (h : off + fragTagSize ≤ j) :
    writeFragTag packet off pktId fragIndex j = packet j := Buffer.write_of_ge h

/-- The packet id stands in the first two bytes of the tag. -/
theorem writeFragTag_of_ne (pktId' : ℕ) (h₀ : j ≠ off) (h₁ : j ≠ off + 1) :
    writeFragTag packet off pktId fragIndex j = writeFragTag packet off pktId' fragIndex j := by
  unfold writeFragTag Buffer.write
  by_cases hj : off ≤ j
  · obtain ⟨k, rfl⟩ := Nat.exists_eq_add_of_le hj
    rw [if_pos hj, if_pos hj, Nat.add_sub_cancel_left]
    match k with
    | 0 => exact absurd rfl h₀
    | 1 => exact absurd rfl h₁
    | _ + 2 => rfl
  · rw [if_neg hj, if_neg hj]

@[simp] theorem readFragPktId_writeFragTag :
    readFragPktId (writeFragTag packet off pktId fragIndex) off = pktId % 65536 := by
  have h₀ : writeFragTag packet off pktId fragIndex off = UInt8.ofNat (pktId / 256) :=
    Buffer.write_add (k := 0) (by simp)
  have h₁ : writeFragTag packet off pktId fragIndex (off + 1) = UInt8.ofNat pktId :=
    Buffer.write_add (k := 1) (by simp)
  unfold readFragPktId Buffer.be16
  rw [h₀, h₁, UInt8.toNat_ofNat', UInt8.toNat_ofNat']
  omega

@[simp] theorem readFragIndex_writeFragTag :
    readFragIndex (writeFragTag packet off pktId fragIndex) off = fragIndex :=
  Buffer.write_add (k := 2) (by simp)

theorem readFragPktId_congr {q : Packet} (h : ∀ i, off ≤ i → i < off + fragTagSize → q i = packet i) :
    readFragPktId q off = readFragPktId packet off := by
  have : fragTagSize = 4 := rfl
  exact Buffer.be16_congr (h _ le_rfl (by omega)) (h _ (by omega) (by omega))

end Tag

section

variable {evp : Evp} {P : CryptoParams} {ctx : PacketCryptoCtx}

/-! ## Encoding -/

section Plain

variable {nonce : List UInt8} {p plain outBuf : Packet} {ihl n pktId j : ℕ} {fragIndex : UInt8}

theorem layer3FragmentPlain_header (hj : j < ethHeaderSize + ihl) (hp : j ≠ ipv4ProtoOff) :
    layer3FragmentPlain P nonce p (p.shift ethHeaderSize) ihl plain n pktId fragIndex outBuf j =
      p j := by
  unfold layer3FragmentPlain
  rw [Buffer.copy_of_lt (by omega), writeFragTag_of_lt (by omega), tunnelHeader_of_lt hj,
    Buffer.set_of_ne hp]
  by_cases h : j < ethHeaderSize
  · rw [Buffer.copy_of_lt h, Buffer.copy_of_mem (Nat.zero_le j) (by omega)]
    congr 1
    omega
  · rw [Buffer.copy_of_mem (not_lt.mp h) hj, Buffer.shift_apply]
    congr 1
    omega

theorem layer3FragmentPlain_proto (hihl : 20 ≤ ihl) :
    layer3FragmentPlain P nonce p (p.shift ethHeaderSize) ihl plain n pktId fragIndex outBuf
      ipv4ProtoOff = P.fakeProtocol := by
  have heth : ethHeaderSize = 14 := rfl
  have hpo : ipv4ProtoOff = 23 := rfl
  unfold layer3FragmentPlain
  rw [Buffer.copy_of_lt (by omega), writeFragTag_of_lt (by omega), tunnelHeader_of_lt (by omega),
    Buffer.set_self]

theorem layer3FragmentPlain_eq :
    ∃ A : Packet, layer3FragmentPlain P nonce p (p.shift ethHeaderSize) ihl plain n pktId fragIndex
        outBuf =
      (writeFragTag (cryptoWriteL3TunnelHeader A (ethHeaderSize + ihl) nonce P.nonceSize P.policyId
        cryptoL3FragMagic) (ethHeaderSize + ihl + P.tunnelHdrSize) pktId fragIndex).copy
        (ethHeaderSize + ihl + P.tunnelHdrSize + fragTagSize) plain 0 n := ⟨_, rfl⟩

end Plain

variable (evp P ctx) in
/-- The frame `q` is the encryption of the `n` bytes of `plain` as a fragment with the headers of
`p`. -/
structure Layer3FragFrame (counter : ℕ) (p plain : Packet) (ihl n pktId : ℕ) (fragIndex : UInt8)
    (q : Packet) : Prop where
  initialized : ctx.initialized = true
  ihl_ge : 20 ≤ ihl
  header : ∀ j < ethHeaderSize + ihl, j ≠ 16 → j ≠ 17 → j ≠ 23 → j ≠ 24 → j ≠ 25 → q j = p j
  proto : q ipv4ProtoOff = P.fakeProtocol
  nonce : q.slice (ethHeaderSize + ihl) P.nonceSize = cryptoGenerateNonce P counter protoFlagIpv4
  magic : q (ethHeaderSize + ihl + P.nonceSize + 1) = cryptoL3FragMagic
  pktId_eq : readFragPktId q (ethHeaderSize + ihl + P.tunnelHdrSize) = pktId % 65536
  fragIndex_eq : readFragIndex q (ethHeaderSize + ihl + P.tunnelHdrSize) = fragIndex
  sealed : (encryptPayload evp P (packetCryptoGetKey ctx .current)
    (cryptoGenerateNonce P counter protoFlagIpv4) (plain.slice 0 n)).1 = true
  cipher : q.slice (ethHeaderSize + ihl + P.tunnelHdrSize + fragTagSize) n =
    (encryptPayload evp P (packetCryptoGetKey ctx .current)
      (cryptoGenerateNonce P counter protoFlagIpv4) (plain.slice 0 n)).2.1
  tag : q.slice (ethHeaderSize + ihl + P.tunnelHdrSize + fragTagSize + n) P.tagSize =
    (encryptPayload evp P (packetCryptoGetKey ctx .current)
      (cryptoGenerateNonce P counter protoFlagIpv4) (plain.slice 0 n)).2.2

/-- **The encoder's output.** A fragment that was made is a fragment frame. -/
theorem cryptoLayer3EncryptFragmentSingle_frame (hns : P.NonceSizeOk)
    {counter ihl n pktId outMax : ℕ} {p plain outBuf : Packet} {fragIndex : UInt8} {f : Packet × ℕ}
    (h : cryptoLayer3EncryptFragmentSingle evp P ctx counter p (p.shift ethHeaderSize) ihl plain n
      pktId fragIndex outBuf outMax = some f) :
    f.2 = ethHeaderSize + ihl + P.tunnelHdrSize + fragTagSize + n + P.tagSize ∧
      Layer3FragFrame evp P ctx counter p plain ihl n pktId fragIndex f.1 := by
  have hnl := length_cryptoGenerateNonce hns counter protoFlagIpv4
  have heth : ethHeaderSize = 14 := rfl
  have hpo : ipv4ProtoOff = 23 := rfl
  have hth : P.tunnelHdrSize = P.nonceSize + 2 := rfl
  have hft : fragTagSize = 4 := rfl
  unfold cryptoLayer3EncryptFragmentSingle at h
  simp only at h
  generalize hD : layer3FragmentPlain P (cryptoGenerateNonce P counter protoFlagIpv4) p
    (p.shift ethHeaderSize) ihl plain n pktId fragIndex outBuf = D at h
  have hheader : ∀ j < ethHeaderSize + ihl, j ≠ ipv4ProtoOff → D j = p j := fun j hj hp => by
    rw [← hD]; exact layer3FragmentPlain_header hj hp
  have hproto : 20 ≤ ihl → D ipv4ProtoOff = P.fakeProtocol := fun hihl => by
    rw [← hD]; exact layer3FragmentPlain_proto hihl
  obtain ⟨A, hA⟩ : ∃ A : Packet, D =
      (writeFragTag (cryptoWriteL3TunnelHeader A (ethHeaderSize + ihl)
        (cryptoGenerateNonce P counter protoFlagIpv4) P.nonceSize P.policyId cryptoL3FragMagic)
        (ethHeaderSize + ihl + P.tunnelHdrSize) pktId fragIndex).copy
        (ethHeaderSize + ihl + P.tunnelHdrSize + fragTagSize) plain 0 n :=
    hD ▸ layer3FragmentPlain_eq
  split_ifs at h with hargs hs
  rw [not_or, not_or, not_or, Bool.not_eq_false] at hargs
  obtain ⟨hinit, -, hihl, -⟩ := hargs
  obtain rfl := (Option.some.inj h).symm
  generalize hoff : ethHeaderSize + ihl = off at *
  have hplain : D.slice (off + P.tunnelHdrSize + fragTagSize) n = plain.slice 0 n := by
    rw [hA, Buffer.slice_copy_self]
  have htunnel : ∀ j < off + P.tunnelHdrSize, D j = cryptoWriteL3TunnelHeader A off
      (cryptoGenerateNonce P counter protoFlagIpv4) P.nonceSize P.policyId cryptoL3FragMagic j :=
    fun j hj => by rw [hA, Buffer.copy_of_lt (by omega), writeFragTag_of_lt hj]
  -- what stands before the ciphertext is what the layout put there
  have hlt : ∀ j < off + P.tunnelHdrSize + fragTagSize, j ≠ 16 → j ≠ 17 → j ≠ 24 → j ≠ 25 →
      l3PatchIpv4 (sealInPlace evp P (packetCryptoGetKey ctx .current)
        (cryptoGenerateNonce P counter protoFlagIpv4) D (off + P.tunnelHdrSize + fragTagSize)
        n).2 ihl (ihl + (P.tunnelHdrSize + fragTagSize + n + P.tagSize)) j = D j :=
    fun j hj h₁₆ h₁₇ h₂₄ h₂₅ =>
      (l3PatchIpv4_of_ne h₁₆ h₁₇ h₂₄ h₂₅).trans (sealInPlace_of_lt hj)
  have hge : ∀ j ≥ off, l3PatchIpv4 (sealInPlace evp P (packetCryptoGetKey ctx .current)
        (cryptoGenerateNonce P counter protoFlagIpv4) D (off + P.tunnelHdrSize + fragTagSize)
        n).2 ihl (ihl + (P.tunnelHdrSize + fragTagSize + n + P.tagSize)) j =
      (sealInPlace evp P (packetCryptoGetKey ctx .current)
        (cryptoGenerateNonce P counter protoFlagIpv4) D (off + P.tunnelHdrSize + fragTagSize)
        n).2 j :=
    fun j hj => l3PatchIpv4_of_ne (by omega) (by omega) (by omega) (by omega)
  refine ⟨rfl, ⟨hinit, by omega, ?_, ?_, ?_, ?_, ?_, ?_, ?_, ?_, ?_⟩⟩ <;>
    try simp only [hoff]
  · intro j hj h₁₆ h₁₇ h₂₃ h₂₄ h₂₅
    rw [hlt j (by omega) h₁₆ h₁₇ h₂₄ h₂₅, hheader j hj (by omega)]
  · rw [hlt _ (by omega) (by decide) (by decide) (by decide) (by decide), hproto (by omega)]
  · rw [Buffer.slice_congr fun j hj hj' =>
      (hlt j (by omega) (by omega) (by omega) (by omega) (by omega)).trans (htunnel j (by omega))]
    exact tunnelHeader_nonce hnl
  · rw [hlt _ (by omega) (by omega) (by omega) (by omega) (by omega), htunnel _ (by omega)]
    exact tunnelHeader_last
  · rw [readFragPktId_congr fun j hj hj' =>
      (hlt j hj' (by omega) (by omega) (by omega) (by omega)).trans (hA ▸ Buffer.copy_of_lt hj')]
    exact readFragPktId_writeFragTag
  · unfold readFragIndex
    rw [hlt _ (by omega) (by omega) (by omega) (by omega) (by omega), hA,
      Buffer.copy_of_lt (by omega)]
    exact readFragIndex_writeFragTag
  · rw [← hplain, ← sealInPlace_fst]; exact hs
  · rw [Buffer.slice_congr fun j hj _ => hge j (by omega), sealInPlace_cipher hs, hplain]
  · rw [Buffer.slice_congr fun j hj _ => hge j (by omega), sealInPlace_tag hs, hplain]

theorem cryptoLayer3EncryptFragmentSingle_ne_none_iff {counter ihl n pktId outMax : ℕ}
    {p plain outBuf : Packet} {fragIndex : UInt8} :
    cryptoLayer3EncryptFragmentSingle evp P ctx counter p (p.shift ethHeaderSize) ihl plain n pktId
        fragIndex outBuf outMax ≠ none ↔
      (ctx.initialized = true ∧ n ≠ 0 ∧ 20 ≤ ihl ∧
        ethHeaderSize + ihl + P.tunnelHdrSize + fragTagSize + n + P.tagSize ≤ outMax) ∧
      (encryptPayload evp P (packetCryptoGetKey ctx .current)
        (cryptoGenerateNonce P counter protoFlagIpv4) (plain.slice 0 n)).1 = true := by
  have hplain : (layer3FragmentPlain P (cryptoGenerateNonce P counter protoFlagIpv4) p
      (p.shift ethHeaderSize) ihl plain n pktId fragIndex outBuf).slice
        (ethHeaderSize + ihl + P.tunnelHdrSize + fragTagSize) n = plain.slice 0 n :=
    Buffer.slice_copy_self _ _ _ _ _
  rw [← hplain, ← sealInPlace_fst]
  show (if _ then none else if _ then some _ else none) ≠ none ↔ _
  split_ifs with hargs hs
  · refine iff_of_false (fun h => h rfl) fun h => ?_
    rcases hargs with hinit | hn | hihl | hmax
    · exact absurd h.1.1 (by simp [hinit])
    · exact h.1.2.1 hn
    · exact absurd h.1.2.2.1 (not_le.mpr hihl)
    · exact absurd h.1.2.2.2 (not_le.mpr hmax)
  · rw [not_or, not_or, not_or, Bool.not_eq_false, not_lt, not_lt] at hargs
    exact iff_of_true (Option.some_ne_none _) ⟨hargs, hs⟩
  · exact iff_of_false (fun h => h rfl) fun h => hs h.2

/-! ## Decoding -/

namespace Layer3FragFrame

variable {counter ihl n pktId : ℕ} {p plain q : Packet} {fragIndex : UInt8}
  (h : Layer3FragFrame evp P ctx counter p plain ihl n pktId fragIndex q)
  (hip : pktIsIpv4Eth p) (hihl : ihl = ihlAt p ethHeaderSize)
include h hip hihl

theorem decryptHeader : layer3DecryptFragmentHeader P ctx q
    (ethHeaderSize + ihl + P.tunnelHdrSize + fragTagSize + n + P.tagSize) = some ihl := by
  have heth : ethHeaderSize = 14 := rfl
  have h₂₀ := h.ihl_ge
  have eth : ∀ j ≤ ethHeaderSize, q j = p j := fun j hj =>
    h.header j (by omega) (by omega) (by omega) (by omega) (by omega) (by omega)
  have hip' : pktIsIpv4 q
      (ethHeaderSize + ihl + P.tunnelHdrSize + fragTagSize + n + P.tagSize) :=
    ⟨by omega, (Buffer.be16_congr (eth 12 (by decide)) (eth 13 (by decide))).trans hip⟩
  have hlen : ipv4HdrLenAt q (ethHeaderSize + ihl + P.tunnelHdrSize + fragTagSize + n + P.tagSize)
      ethHeaderSize = some ihl :=
    ipv4HdrLenAt_eq_some_iff.mpr
      ⟨hihl.trans (ihlAt_congr (eth _ le_rfl)).symm, h₂₀, by omega⟩
  unfold layer3DecryptFragmentHeader
  rw [if_neg (by simp [h.initialized, hip']), hlen]
  simp only
  rw [if_neg (not_not.mpr h.proto), if_neg (by omega), if_neg (not_not.mpr h.magic)]

/-- **The decoder on a fragment.** It gives back packet id and index, the headers except for the
protocol number, the total length and the checksum, and the plaintext behind them. -/
theorem decrypt (hevp : evp.Lawful) :
    ∃ w, cryptoLayer3DecryptFragment evp P ctx q
        (ethHeaderSize + ihl + P.tunnelHdrSize + fragTagSize + n + P.tagSize) =
          some ⟨ethHeaderSize + ihl + n, w, pktId % 65536, fragIndex⟩ ∧
      (∀ j < ethHeaderSize + ihl, j ≠ 16 → j ≠ 17 → j ≠ 23 → j ≠ 24 → j ≠ 25 → w j = p j) ∧
      ∀ k < n, w (ethHeaderSize + ihl + k) = plain k := by
  have heth : ethHeaderSize = 14 := rfl
  have h₂₀ := h.ihl_ge
  have hheader := h.header
  have hid := h.pktId_eq
  have hidx := h.fragIndex_eq
  have hhdr := h.decryptHeader hip hihl
  have hopen : openTunnel evp P ctx keyOrder (fun _ => true) q
      (ethHeaderSize + ihl + P.tunnelHdrSize + fragTagSize + n + P.tagSize) (ethHeaderSize + ihl)
      (ethHeaderSize + ihl + P.tunnelHdrSize + fragTagSize) =
      (true, q.write (ethHeaderSize + ihl + P.tunnelHdrSize + fragTagSize) (plain.slice 0 n)) := by
    refine openTunnel_seal hevp ?_ ?_ ?_ ?_ rfl
    · rw [Buffer.length_slice]
    · rw [h.nonce]; exact h.sealed
    · rw [h.nonce, Buffer.length_slice]; exact h.cipher
    · rw [h.nonce, Buffer.length_slice]; exact h.tag
  unfold cryptoLayer3DecryptFragment
  rw [hhdr]
  simp only [hopen, if_true, hid, hidx]
  generalize hoff : ethHeaderSize + ihl = off at *
  have henc : cipherLen P (off + P.tunnelHdrSize + fragTagSize + n + P.tagSize)
      (off + P.tunnelHdrSize + fragTagSize) = n := by unfold cipherLen; omega
  rw [henc]
  refine ⟨_, rfl, fun j hj h₁₆ h₁₇ h₂₃ h₂₄ h₂₅ => ?_, fun k hk => ?_⟩
  · rw [l3PatchIpv4_of_ne h₁₆ h₁₇ h₂₄ h₂₅, Buffer.copy_of_lt hj, Buffer.write_of_lt (by omega)]
    exact hheader j hj h₁₆ h₁₇ h₂₃ h₂₄ h₂₅
  · rw [l3PatchIpv4_of_ne (by omega) (by omega) (by omega) (by omega), Buffer.copy_add hk]
    have := Buffer.slice_eq_slice_iff.mp (Buffer.slice_write_self q
      (off + P.tunnelHdrSize + fragTagSize) (Buffer.length_slice plain 0 n)) k hk
    rwa [Nat.zero_add] at this

end Layer3FragFrame

end

end NetEncryptor

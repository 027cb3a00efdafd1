import NetEncryptor.Crypto.Layer3

/-!
# The layer-3 tunnel round trip

`Layer3Frame` says what an encrypted frame looks like; `cryptoLayer3Encrypt_frame` proves it of
the encoder and `Layer3Frame.decrypt` runs the decoder on such a frame.  The decoder rewrites the
IP checksum, and the TCP or UDP checksum from everything that follows the IP header in the frame,
so the datagram comes back exactly when these are the checksums it had.
-/

namespace NetEncryptor

section

variable {evp : Evp} {P : CryptoParams} {ctx : PacketCryptoCtx}

/-! ## Encoding -/

theorem layer3EncryptHeader_eq_ok_iff {p : Packet} {len ihl : ℕ} :
    layer3EncryptHeader P ctx p len = .ok ihl ↔
      (ctx.initialized = true ∧ minEthPkt ≤ len) ∧ pktIsIpv4 p len ∧
        ipv4HdrLenAt p len ethHeaderSize = some ihl ∧
        ¬ (ethHeaderSize + ihl + P.nonceSize + 2 ≤ len ∧
          p (ethHeaderSize + ihl + P.nonceSize + 1) = cryptoL3FragMagic) := by
  unfold layer3EncryptHeader
  by_cases h₁ : ctx.initialized = false ∨ len < minEthPkt
  · rw [if_pos h₁]
    refine iff_of_false (by simp) ?_
    rintro ⟨⟨hi, hl⟩, -⟩
    rw [hi] at h₁
    rcases h₁ with h | h
    · cases h
    · omega
  rw [if_neg h₁]
  rw [not_or, Bool.not_eq_false, not_lt] at h₁
  by_cases h₂ : pktIsIpv4 p len
  · rw [if_neg (not_not.mpr h₂)]
    cases hh : ipv4HdrLenAt p len ethHeaderSize with
    | none => simp
    | some ihl' =>
      simp only [Option.some.injEq]
      split_ifs with h₃
      · refine iff_of_false (by simp) ?_
        rintro ⟨-, -, rfl, h⟩
        exact h h₃
      · rw [Except.ok.injEq]
        exact ⟨fun h => ⟨h₁, h₂, h, h ▸ h₃⟩, fun h => h.2.2.1⟩
  · rw [if_pos h₂]
    exact iff_of_false (by simp) fun h => h₂ h.2.1

theorem layer3EncryptHeader_error_le {p : Packet} {len : ℕ} {r : ℤ}
    (h : layer3EncryptHeader P ctx p len = .error r) : r ≤ len := by
  unfold layer3EncryptHeader at h
  by_cases h₁ : ctx.initialized = false ∨ len < minEthPkt
  · rw [if_pos h₁] at h; cases h; omega
  rw [if_neg h₁] at h
  by_cases h₂ : pktIsIpv4 p len
  · rw [if_neg (not_not.mpr h₂)] at h
    cases hh : ipv4HdrLenAt p len ethHeaderSize with
    | none => rw [hh] at h; cases h; omega
    | some ihl =>
      rw [hh] at h
      simp only at h
      split_ifs at h
      cases h; omega
  · rw [if_pos h₂] at h; cases h; omega

variable (evp P ctx) in
/-- The frame `q` is the encryption of the `len` bytes of `p`. -/
structure Layer3Frame (counter : ℕ) (p : Packet) (len : ℕ) (q : Packet) : Prop where
  initialized : ctx.initialized = true
  ipv4 : pktIsIpv4 p len
  ihl_ge : 20 ≤ ihlAt p ethHeaderSize
  ihl_le : ethHeaderSize + ihlAt p ethHeaderSize ≤ len
  header : ∀ j < ethHeaderSize + ihlAt p ethHeaderSize,
    j ≠ 16 → j ≠ 17 → j ≠ 23 → j ≠ 24 → j ≠ 25 → q j = p j
  totlen : q.be16 ipv4TotlenOff = (p.be16 ipv4TotlenOff + (P.tunnelHdrSize + P.tagSize)) % 65536
  proto : q ipv4ProtoOff = P.fakeProtocol
  tunnel : TunnelAt evp P (packetCryptoGetKey ctx .current)
    (cryptoGenerateNonce P counter protoFlagIpv4)
    (p.slice (ethHeaderSize + ihlAt p ethHeaderSize) (len - (ethHeaderSize + ihlAt p ethHeaderSize)))
    (p ipv4ProtoOff) q (ethHeaderSize + ihlAt p ethHeaderSize)

theorem layer3_header_of_lt {p : Packet} {key : Key} {nonce : List UInt8} {off len j : ℕ}
    {policyId last fakeProto : UInt8} (hj : j < off) (hp : j ≠ ipv4ProtoOff) :
    (cryptoWriteL3TunnelHeader (encapsulate evp P key nonce p off len).2 off nonce P.nonceSize
      policyId last).set ipv4ProtoOff fakeProto j = p j :=
  (Buffer.set_of_ne hp).trans ((tunnelHeader_of_lt hj).trans (encapsulate_of_lt hj))

/-- **The encoder's output.** A frame that grew is a layer-3 frame. -/
theorem cryptoLayer3Encrypt_frame (hns : P.NonceSizeOk) {counter len : ℕ} {p : Packet}
    (h : len < (cryptoLayer3Encrypt evp P ctx counter p len).1) :
    (cryptoLayer3Encrypt evp P ctx counter p len).1 = ↑(len + (P.tunnelHdrSize + P.tagSize)) ∧
      Layer3Frame evp P ctx counter p len (cryptoLayer3Encrypt evp P ctx counter p len).2 := by
  unfold cryptoLayer3Encrypt at h ⊢
  cases hh : layer3EncryptHeader P ctx p len with
  | error r =>
    rw [hh] at h
    exact absurd h (not_lt.mpr (layer3EncryptHeader_error_le hh))
  | ok ihl =>
    rw [hh] at h
    obtain ⟨⟨hinit, -⟩, hip, hihl, -⟩ := layer3EncryptHeader_eq_ok_iff.mp hh
    obtain ⟨rfl, h₂₀, hle⟩ := ipv4HdrLenAt_eq_some_iff.mp hihl
    have heth : ethHeaderSize = 14 := rfl
    have hproto : ipv4ProtoOff = 23 := rfl
    simp only at h ⊢
    split_ifs at h ⊢ with hs
    · refine ⟨rfl, ⟨hinit, hip, h₂₀, hle, ?_, ?_, ?_, ?_⟩⟩ <;> dsimp only
      · intro j hj h₁₆ h₁₇ h₂₃ h₂₄ h₂₅
        rw [l3PatchIpv4_of_ne h₁₆ h₁₇ h₂₄ h₂₅]
        exact layer3_header_of_lt hj (by omega)
      · rw [be16_l3PatchIpv4_totlen]
        congr 2
        exact Buffer.be16_congr
          (layer3_header_of_lt (by unfold ipv4TotlenOff; omega) (by decide))
          (layer3_header_of_lt (by unfold ipv4TotlenOff; omega) (by decide))
      · rw [l3PatchIpv4_of_ne (by decide) (by decide) (by decide) (by decide), Buffer.set_self]
      · refine (tunnelAt_encapsulate (length_cryptoGenerateNonce hns _ _) hs).congr fun j hj => ?_
        rw [l3PatchIpv4_of_ne (by omega) (by omega) (by omega) (by omega),
          Buffer.set_of_ne (by omega)]
    · simp only at h; omega

/-! ## Decoding -/

theorem layer3DecryptHeader_eq_ok {q : Packet} {len ihl : ℕ} (hinit : ctx.initialized = true)
    (hip : pktIsIpv4 q len) (hihl : ipv4HdrLenAt q len ethHeaderSize = some ihl)
    (hlen : ethHeaderSize + ihl + P.tunnelHdrSize ≤ len)
    (hlast : q (ethHeaderSize + ihl + P.nonceSize + 1) ≠ cryptoL3FragMagic)
    (hproto : q ipv4ProtoOff = P.fakeProtocol) : layer3DecryptHeader P ctx q len = .ok ihl := by
  have heth : ethHeaderSize = 14 := rfl
  have hmin : minEthPkt = 22 := rfl
  have := hip.1
  unfold layer3DecryptHeader
  rw [if_neg (by simp [hinit]; omega), if_neg (not_not.mpr hip), hihl]
  simp only
  rw [if_neg (by omega), if_neg hlast, if_neg (not_not.mpr hproto)]

theorem layer3Verify_slice {p : Packet} {off n : ℕ} {proto : UInt8} (hn : 4 ≤ n)
    (hports : p.be16 off ≠ 0 ∨ p.be16 (off + 2) ≠ 0) :
    layer3Verify P proto (p.slice off n) = true := by
  have word : ∀ i, i + 1 < n → wordAt (p.slice off n) i = p.be16 (off + i) := by
    intro i hi
    unfold wordAt Buffer.be16
    rw [List.getD_eq_getElem?_getD, List.getD_eq_getElem?_getD, Buffer.getElem?_slice _ (by omega),
      Buffer.getElem?_slice _ hi]
    rfl
  unfold layer3Verify
  cases P.mode with
  | gcm => rfl
  | ctr =>
    show verifyDecryptedPayload _ _ = true
    unfold verifyDecryptedPayload
    rw [Buffer.length_slice, if_neg (by omega : ¬ n < 4), word 0 (by omega), word 2 (by omega)]
    split_ifs
    · simp only [Nat.add_zero, Bool.not_eq_true', Bool.and_eq_false_iff, beq_eq_false_iff_ne]
      exact hports
    · rfl

namespace Layer3Frame

variable {counter len : ℕ} {p q : Packet} (h : Layer3Frame evp P ctx counter p len q)
include h

theorem decryptHeader_of_ne (hlast : p ipv4ProtoOff ≠ cryptoL3FragMagic) :
    layer3DecryptHeader P ctx q (len + (P.tunnelHdrSize + P.tagSize)) =
      .ok (ihlAt p ethHeaderSize) := by
  have heth : ethHeaderSize = 14 := rfl
  have h₂₀ := h.ihl_ge
  have hle := h.ihl_le
  have eth : ∀ j ≤ ethHeaderSize, q j = p j := fun j hj =>
    h.header j (by omega) (by omega) (by omega) (by omega) (by omega) (by omega)
  have hip : pktIsIpv4 q (len + (P.tunnelHdrSize + P.tagSize)) := by
    refine ⟨by have := h.ipv4.1; omega, ?_⟩
    exact (Buffer.be16_congr (eth 12 (by decide)) (eth 13 (by decide))).trans h.ipv4.2
  refine layer3DecryptHeader_eq_ok h.initialized hip ?_ (by omega) ?_ h.proto
  · exact ipv4HdrLenAt_eq_some_iff.mpr ⟨(ihlAt_congr (eth _ le_rfl)).symm, h₂₀, by omega⟩
  · rwa [h.tunnel.last_eq]

theorem decryptHeader (hp : TcpUdpFrame p len) :
    layer3DecryptHeader P ctx q (len + (P.tunnelHdrSize + P.tagSize)) =
      .ok (ihlAt p ethHeaderSize) := by
  refine h.decryptHeader_of_ne ?_
  rcases hp.proto with e | e <;> rw [e] <;> decide

theorem openTunnel (hevp : evp.Lawful) (hlen : ethHeaderSize + ihlAt p ethHeaderSize + 4 ≤ len)
    (hports : p.be16 (ethHeaderSize + ihlAt p ethHeaderSize) ≠ 0 ∨
      p.be16 (ethHeaderSize + ihlAt p ethHeaderSize + 2) ≠ 0) :
    openTunnel evp P ctx keyOrder (layer3Verify P (p ipv4ProtoOff))
        (q.set ipv4ProtoOff (p ipv4ProtoOff)) (len + (P.tunnelHdrSize + P.tagSize))
        (ethHeaderSize + ihlAt p ethHeaderSize)
        (ethHeaderSize + ihlAt p ethHeaderSize + P.tunnelHdrSize) =
      (true, (q.set ipv4ProtoOff (p ipv4ProtoOff)).write
        (ethHeaderSize + ihlAt p ethHeaderSize + P.tunnelHdrSize)
        (p.slice (ethHeaderSize + ihlAt p ethHeaderSize)
          (len - (ethHeaderSize + ihlAt p ethHeaderSize)))) := by
  have heth : ethHeaderSize = 14 := rfl
  have hpo : ipv4ProtoOff = 23 := rfl
  have h₂₀ := h.ihl_ge
  refine TunnelAt.openTunnel hevp (h.tunnel.congr fun j hj => Buffer.set_of_ne (by omega)) ?_ ?_
  · rw [Buffer.length_slice]; omega
  · exact layer3Verify_slice (by omega) hports

/-- **The decoder on an encrypted frame.** The decoder finds the original length and all the
original bytes, except for the total length and the header checksum, which it then patches, and
the transport checksum, which it then recomputes. -/
theorem decrypt (hevp : evp.Lawful) (hp : TcpUdpFrame p len)
    (hlen : ethHeaderSize + ihlAt p ethHeaderSize + 4 ≤ len)
    (hports : p.be16 (ethHeaderSize + ihlAt p ethHeaderSize) ≠ 0 ∨
      p.be16 (ethHeaderSize + ihlAt p ethHeaderSize + 2) ≠ 0) :
    ∃ w tot, tot % 65536 = p.be16 ipv4TotlenOff ∧
      (∀ j < len, j ≠ 16 → j ≠ 17 → j ≠ 24 → j ≠ 25 → w j = p j) ∧
      cryptoLayer3Decrypt evp P ctx q (len + (P.tunnelHdrSize + P.tagSize)) =
        (↑len, layer3FixTransportCksum (l3PatchIpv4 w (ihlAt p ethHeaderSize) tot)
          (ihlAt p ethHeaderSize) (p ipv4ProtoOff)
          (len - (ethHeaderSize + ihlAt p ethHeaderSize))) := by
  have hopen := h.openTunnel hevp hlen hports
  have hlast := h.tunnel.last_eq
  have htot := h.totlen
  have hheader := h.header
  have hhdr := h.decryptHeader hp
  have heth : ethHeaderSize = 14 := rfl
  have hpo : ipv4ProtoOff = 23 := rfl
  have hto : ipv4TotlenOff = 16 := rfl
  have h₂₀ := h.ihl_ge
  unfold cryptoLayer3Decrypt
  rw [hhdr]
  simp only [hlast, hopen, if_true]
  generalize hoff : ethHeaderSize + ihlAt p ethHeaderSize = off at *
  have henc : cipherLen P (len + (P.tunnelHdrSize + P.tagSize)) (off + P.tunnelHdrSize) =
      len - off := by unfold cipherLen; omega
  rw [henc, Nat.add_sub_cancel]
  generalize hB : (q.set ipv4ProtoOff (p ipv4ProtoOff)).write (off + P.tunnelHdrSize)
    (p.slice off (len - off)) = B
  have hBlt : ∀ j < off, j ≠ 16 → j ≠ 17 → j ≠ 24 → j ≠ 25 → B j = p j := by
    intro j hj h₁₆ h₁₇ h₂₄ h₂₅
    rw [← hB, Buffer.write_of_lt (by omega)]
    by_cases h₂₃ : j = ipv4ProtoOff
    · rw [h₂₃, Buffer.set_self]
    · rw [Buffer.set_of_ne h₂₃]
      exact hheader j hj h₁₆ h₁₇ (by omega) h₂₄ h₂₅
  have hBplain : B.slice (off + P.tunnelHdrSize) (len - off) = p.slice off (len - off) := by
    rw [← hB]; exact Buffer.slice_write_self _ _ (Buffer.length_slice _ _ _)
  have hBtot : B.be16 ipv4TotlenOff = q.be16 ipv4TotlenOff := by
    rw [← hB]
    exact Buffer.be16_congr
      ((Buffer.write_of_lt (by omega)).trans (Buffer.set_of_ne (by decide)))
      ((Buffer.write_of_lt (by omega)).trans (Buffer.set_of_ne (by decide)))
  refine ⟨_, _, ?_, ?_, rfl⟩
  · rw [Buffer.be16_congr (c := B)
      ((Buffer.set_of_ne (by decide)).trans (Buffer.copy_of_lt (by omega)))
      ((Buffer.set_of_ne (by decide)).trans (Buffer.copy_of_lt (by omega))), hBtot, htot]
    have := p.be16_lt ipv4TotlenOff
    omega
  · intro j hj h₁₆ h₁₇ h₂₄ h₂₅
    by_cases h₂₃ : j = ipv4ProtoOff
    · rw [h₂₃, Buffer.set_self]
    rw [Buffer.set_of_ne h₂₃]
    by_cases hjo : j < off
    · rw [Buffer.copy_of_lt hjo, hBlt j hjo h₁₆ h₁₇ h₂₄ h₂₅]
    · obtain ⟨k, rfl⟩ := Nat.exists_eq_add_of_le (not_lt.mp hjo)
      rw [Buffer.copy_add (by omega)]
      exact Buffer.slice_eq_slice_iff.mp hBplain k (by omega)

end Layer3Frame

end

/-! ## The transport checksum -/

/-- `TCP_CKSUM_OFF` or `UDP_CKSUM_OFF`. -/
def transportCksumOff (proto : UInt8) : ℕ := if proto = 6 then 16 else 6

/-- The length from which on the decoder recomputes the checksum. -/
def transportCksumMin (proto : UInt8) : ℕ := if proto = 6 then 20 else 8

/-- The TCP or UDP checksum over all `len` bytes of the frame behind its IP header. -/
def transportCksum (p : Packet) (len : ℕ) : ℕ :=
  let ihl := ihlAt p ethHeaderSize
  let off := ethHeaderSize + ihl
  if p ipv4ProtoOff = 6 then
    cryptoCalcTcpChecksum (p.shift ethHeaderSize) ihl (p.shift off) (len - off)
  else cryptoCalcUdpChecksum (p.shift ethHeaderSize) ihl ((p.shift off).put16 6 0) (len - off)

theorem transportCksum_lt (p : Packet) (len : ℕ) : transportCksum p len < 65536 := by
  unfold transportCksum cryptoCalcTcpChecksum cryptoCalcUdpChecksum cksumOf
  simp only
  split_ifs <;> omega

theorem pseudoSum_congr {ip ip' : Packet} {proto n : ℕ}
    (h : ∀ i, 12 ≤ i → i < 20 → ip i = ip' i) : pseudoSum ip proto n = pseudoSum ip' proto n := by
  have word : ∀ i, 12 ≤ i → i + 1 < 20 → ip.be16 i = ip'.be16 i := fun i hi hi' =>
    Buffer.be16_congr (h i hi (by omega)) (h (i + 1) (by omega) hi')
  unfold pseudoSum
  rw [word 12 (by omega) (by omega), word 14 (by omega) (by omega), word 16 (by omega) (by omega),
    word 18 (by omega) (by omega)]

theorem cryptoCalcTcpChecksum_congr {ip ip' seg seg' : Packet} {ihl n : ℕ}
    (hip : ∀ i, 12 ≤ i → i < 20 → ip i = ip' i)
    (hseg : ∀ i < n, i ≠ 16 → i ≠ 17 → seg i = seg' i) :
    cryptoCalcTcpChecksum ip ihl seg n = cryptoCalcTcpChecksum ip' ihl seg' n := by
  unfold cryptoCalcTcpChecksum
  split_ifs with hn
  · rfl
  simp only
  rw [pseudoSum_congr hip]
  congr 2
  refine OnesComplement.sumWords_congr fun k hk => ?_
  by_cases h₁₆ : 2 * k = 16
  · rw [if_pos ⟨h₁₆, by omega⟩, if_pos ⟨h₁₆, by omega⟩]
  · rw [if_neg (by omega), if_neg (by omega)]
    unfold Buffer.onesWord
    rw [hseg _ hk h₁₆ (by omega)]
    split_ifs with h
    · rw [hseg _ h (by omega) (by omega)]
    · rfl

theorem udpCksumLen_le (seg : Packet) (n : ℕ) : udpCksumLen seg n ≤ n := by
  unfold udpCksumLen
  simp only
  split_ifs <;> omega

theorem cryptoCalcUdpChecksum_congr {ip ip' seg seg' : Packet} {ihl n : ℕ}
    (hip : ∀ i, 12 ≤ i → i < 20 → ip i = ip' i) (hseg : ∀ i < n, seg i = seg' i) :
    cryptoCalcUdpChecksum ip ihl seg n = cryptoCalcUdpChecksum ip' ihl seg' n := by
  unfold cryptoCalcUdpChecksum
  split_ifs with hn
  · rfl
  simp only
  have hlen : udpCksumLen seg n = udpCksumLen seg' n := by
    unfold udpCksumLen
    rw [Buffer.be16_congr (hseg 4 (by omega)) (hseg 5 (by omega))]
  have := udpCksumLen_le seg' n
  rw [hlen, pseudoSum_congr hip, Buffer.internetSum_congr fun i hi => hseg i (by omega)]

/-- The decoder stores the checksum of the original frame, if what it has before agrees with that
frame outside the fields it has just patched. -/
theorem layer3FixTransportCksum_eq {p v : Packet} {len : ℕ} (hp : TcpUdpFrame p len)
    (hv : ∀ j < len, j ≠ 16 → j ≠ 17 → j ≠ 24 → j ≠ 25 → v j = p j) :
    layer3FixTransportCksum v (ihlAt p ethHeaderSize) (p ipv4ProtoOff)
        (len - (ethHeaderSize + ihlAt p ethHeaderSize)) =
      if transportCksumMin (p ipv4ProtoOff) ≤ len - (ethHeaderSize + ihlAt p ethHeaderSize) then
        v.put16 (ethHeaderSize + ihlAt p ethHeaderSize + transportCksumOff (p ipv4ProtoOff))
          (transportCksum p len)
      else v := by
  have heth : ethHeaderSize = 14 := rfl
  have h₂₀ := hp.ihl_ge
  unfold layer3FixTransportCksum transportCksumMin transportCksumOff transportCksum
  simp only
  generalize hoff : ethHeaderSize + ihlAt p ethHeaderSize = off
  have addr : ∀ n, off ≤ n → ∀ i, 12 ≤ i → i < 20 → off < len →
      (v.put16 n 0).shift ethHeaderSize i = p.shift ethHeaderSize i := by
    intro n hn i hi hi' hl
    rw [Buffer.shift_apply, Buffer.put16_of_ne (by omega) (by omega)]
    exact hv _ (by omega) (by omega) (by omega) (by omega) (by omega)
  have seg : ∀ i, i < len - off → v (off + i) = p (off + i) := fun i hi =>
    hv _ (by omega) (by omega) (by omega) (by omega) (by omega)
  rcases hp.proto with e | e
  · simp only [e, if_true]
    split_ifs with hlen
    · rw [Buffer.put16_put16, cryptoCalcTcpChecksum_congr
        (fun i hi hi' => addr _ (by omega) i hi hi' (by omega)) fun i hi h₁₆ h₁₇ => ?_]
      rw [Buffer.shift_apply, Buffer.put16_of_ne (by omega) (by omega)]
      exact seg i hi
    · rfl
  · simp only [e, show (17 : UInt8) ≠ 6 by decide, if_false, if_true]
    split_ifs with hlen
    · rw [Buffer.put16_put16, cryptoCalcUdpChecksum_congr
        (fun i hi hi' => addr _ (by omega) i hi hi' (by omega)) fun i hi => ?_]
      rw [Buffer.shift_apply]
      by_cases h₆ : i = 6
      · subst h₆; rw [Buffer.put16_fst, Buffer.put16_fst]
      by_cases h₇ : i = 7
      · subst h₇; exact (Buffer.put16_snd _ (off + 6) 0).trans (Buffer.put16_snd _ 6 0).symm
      rw [Buffer.put16_of_ne (by omega) (by omega), Buffer.put16_of_ne h₆ h₇]
      exact seg i hi
    · rfl

/-! ## The round trip -/

section

variable (evp : Evp) (P : CryptoParams) (ctx : PacketCryptoCtx)

/-- Decrypting the encrypted frame gives back its length and its IP datagram. -/
def Layer3RoundTrips (counter : ℕ) (p : Packet) (len : ℕ) : Prop :=
  let e := cryptoLayer3Encrypt evp P ctx counter p len
  let d := cryptoLayer3Decrypt evp P ctx e.2 e.1.toNat
  d.1 = len ∧ ∀ i < p.be16 ipv4TotlenOff, d.2 (ethHeaderSize + i) = p (ethHeaderSize + i)

/-- The bytes of the transport checksum that the datagram has are those of the checksum over
everything behind the IP header in the frame. -/
structure TransportCksumKept (p : Packet) (len : ℕ) : Prop where
  high : ihlAt p ethHeaderSize + transportCksumOff (p ipv4ProtoOff) < p.be16 ipv4TotlenOff →
    p (ethHeaderSize + ihlAt p ethHeaderSize + transportCksumOff (p ipv4ProtoOff)) =
      UInt8.ofNat (transportCksum p len / 256)
  low : ihlAt p ethHeaderSize + transportCksumOff (p ipv4ProtoOff) + 1 < p.be16 ipv4TotlenOff →
    p (ethHeaderSize + ihlAt p ethHeaderSize + transportCksumOff (p ipv4ProtoOff) + 1) =
      UInt8.ofNat (transportCksum p len)

theorem transportCksumKept_iff {p : Packet} {len : ℕ}
    (h : ihlAt p ethHeaderSize + transportCksumOff (p ipv4ProtoOff) + 2 ≤ p.be16 ipv4TotlenOff) :
    TransportCksumKept p len ↔
      p.be16 (ethHeaderSize + ihlAt p ethHeaderSize + transportCksumOff (p ipv4ProtoOff)) =
        transportCksum p len := by
  have hput := Buffer.be16_put16 p
    (ethHeaderSize + ihlAt p ethHeaderSize + transportCksumOff (p ipv4ProtoOff))
    (transportCksum p len)
  rw [Nat.mod_eq_of_lt (transportCksum_lt p len)] at hput
  rw [← hput, Buffer.be16_eq_iff, Buffer.put16_fst, Buffer.put16_snd]
  exact ⟨fun hk => ⟨hk.high (by omega), hk.low (by omega)⟩,
    fun hk => ⟨fun _ => hk.1, fun _ => hk.2⟩⟩

/-- The checksums that the decoder computes anew are those of the datagram. -/
def Layer3CksumsKept (p : Packet) (len : ℕ) : Prop :=
  (p.be16 ipv4TotlenOff ≤ 10 ∨ p.be16 (ethHeaderSize + 10) ≠ 65535) ∧
    (transportCksumMin (p ipv4ProtoOff) ≤ len - (ethHeaderSize + ihlAt p ethHeaderSize) →
      TransportCksumKept p len)

end

section Patched

variable {p v : Packet} {len : ℕ} (hp : TcpUdpFrame p len)
  (hT : p.be16 ipv4TotlenOff ≤ len - ethHeaderSize)
  (hv : ∀ j < len, j ≠ 16 → j ≠ 17 → j ≠ 24 → j ≠ 25 → v j = p j)
include hp hT hv

theorem patched_eq_iff :
    (∀ i < p.be16 ipv4TotlenOff, v (ethHeaderSize + i) = p (ethHeaderSize + i)) ↔
      ∀ i < ihlAt p ethHeaderSize, i < p.be16 ipv4TotlenOff →
        v (ethHeaderSize + i) = p (ethHeaderSize + i) := by
  have heth : ethHeaderSize = 14 := rfl
  have h₂₀ := hp.ihl_ge
  refine ⟨fun h i _ hi => h i hi, fun h i hi => ?_⟩
  by_cases hih : i < ihlAt p ethHeaderSize
  · exact h i hih hi
  · exact hv _ (by omega) (by omega) (by omega) (by omega) (by omega)

theorem patched_put16_eq_iff :
    (∀ i < p.be16 ipv4TotlenOff,
        v.put16 (ethHeaderSize + ihlAt p ethHeaderSize + transportCksumOff (p ipv4ProtoOff))
          (transportCksum p len) (ethHeaderSize + i) = p (ethHeaderSize + i)) ↔
      (∀ i < ihlAt p ethHeaderSize, i < p.be16 ipv4TotlenOff →
        v (ethHeaderSize + i) = p (ethHeaderSize + i)) ∧ TransportCksumKept p len := by
  have heth : ethHeaderSize = 14 := rfl
  have h₂₀ := hp.ihl_ge
  generalize hn : ihlAt p ethHeaderSize + transportCksumOff (p ipv4ProtoOff) = n
  have hoff : ethHeaderSize + ihlAt p ethHeaderSize + transportCksumOff (p ipv4ProtoOff) =
      ethHeaderSize + n := by omega
  constructor
  · intro h
    refine ⟨fun i hih hi => ?_, ⟨fun hi => ?_, fun hi => ?_⟩⟩
    · have := h i hi
      rwa [Buffer.put16_of_ne (by omega) (by omega)] at this
    · have := h n (hn ▸ hi)
      rw [hoff, Buffer.put16_fst] at this
      rw [hoff, this]
    · have := h (n + 1) (hn ▸ hi)
      rw [hoff, ← Nat.add_assoc, Buffer.put16_snd] at this
      rw [hoff, this]
  · rintro ⟨h, hk⟩ i hi
    by_cases h₀ : i = n
    · subst h₀
      rw [hoff, Buffer.put16_fst, ← hoff]
      exact (hk.high (by omega)).symm
    by_cases h₁ : i = n + 1
    · subst h₁
      rw [hoff, ← Nat.add_assoc, Buffer.put16_snd, ← hoff]
      exact (hk.low (by omega)).symm
    rw [Buffer.put16_of_ne (by omega) (by omega)]
    exact (patched_eq_iff hp hT hv).mpr h i hi

end Patched

/-- Decrypting an encrypted frame gives its length, and the datagram exactly when the checksums
that the decoder computes anew are those of the datagram. -/
theorem Layer3Frame.datagram_iff {evp : Evp} {P : CryptoParams} {ctx : PacketCryptoCtx}
    {counter len : ℕ} {p q : Packet} (h : Layer3Frame evp P ctx counter p len q)
    (hevp : evp.Lawful) (hp : TcpUdpFrame p len) (hip : Ipv4HeaderOk p ethHeaderSize)
    (hT : p.be16 ipv4TotlenOff ≤ len - ethHeaderSize)
    (hlen : ethHeaderSize + ihlAt p ethHeaderSize + 4 ≤ len)
    (hports : p.be16 (ethHeaderSize + ihlAt p ethHeaderSize) ≠ 0 ∨
      p.be16 (ethHeaderSize + ihlAt p ethHeaderSize + 2) ≠ 0) :
    (cryptoLayer3Decrypt evp P ctx q (len + (P.tunnelHdrSize + P.tagSize))).1 = len ∧
      ((∀ i < p.be16 ipv4TotlenOff,
        (cryptoLayer3Decrypt evp P ctx q (len + (P.tunnelHdrSize + P.tagSize))).2
          (ethHeaderSize + i) = p (ethHeaderSize + i)) ↔ Layer3CksumsKept p len) := by
  obtain ⟨w, tot, htot, hw, hdec⟩ := h.decrypt hevp hp hlen hports
  have heth : ethHeaderSize = 14 := rfl
  have hv : ∀ j < len, j ≠ 16 → j ≠ 17 → j ≠ 24 → j ≠ 25 →
      l3PatchIpv4 w (ihlAt p ethHeaderSize) tot j = p j := fun j hj h₁₆ h₁₇ h₂₄ h₂₅ =>
    (l3PatchIpv4_of_ne h₁₆ h₁₇ h₂₄ h₂₅).trans (hw j hj h₁₆ h₁₇ h₂₄ h₂₅)
  have hhdr : (∀ i < ihlAt p ethHeaderSize, i < p.be16 ipv4TotlenOff →
      l3PatchIpv4 w (ihlAt p ethHeaderSize) tot (ethHeaderSize + i) = p (ethHeaderSize + i)) ↔
      p.be16 ipv4TotlenOff ≤ 10 ∨ p.be16 (ethHeaderSize + 10) ≠ 65535 :=
    patchIpv4_prefix_iff hip (fun i hi h₂ h₃ h₁₀ h₁₁ =>
      hw _ (by have := hp.ihl_le; omega) (by omega) (by omega) (by omega) (by omega)) htot _
  rw [hdec]
  refine ⟨rfl, ?_⟩
  unfold Layer3CksumsKept
  rw [← hhdr]
  simp only
  rw [layer3FixTransportCksum_eq hp hv]
  split_ifs with hmin
  · simpa only [hmin, true_implies] using patched_put16_eq_iff hp hT hv
  · simpa only [hmin, false_implies, and_true] using patched_eq_iff hp hT hv

/-- **The layer-3 round trip.** A frame that `crypto_layer3_encrypt` lengthened comes back exactly
when the checksums that the decoder computes anew are those of the datagram. -/
theorem layer3_roundTrips_iff {evp : Evp} {P : CryptoParams} {ctx : PacketCryptoCtx} {counter : ℕ}
    {p : Packet} {len : ℕ} (hevp : evp.Lawful) (hns : P.NonceSizeOk) (hp : TcpUdpFrame p len)
    (hip : Ipv4HeaderOk p ethHeaderSize) (hT : p.be16 ipv4TotlenOff ≤ len - ethHeaderSize)
    (hlen : ethHeaderSize + ihlAt p ethHeaderSize + 4 ≤ len)
    (hports : p.be16 (ethHeaderSize + ihlAt p ethHeaderSize) ≠ 0 ∨
      p.be16 (ethHeaderSize + ihlAt p ethHeaderSize + 2) ≠ 0)
    (henc : len < (cryptoLayer3Encrypt evp P ctx counter p len).1) :
    Layer3RoundTrips evp P ctx counter p len ↔ Layer3CksumsKept p len := by
  obtain ⟨hret, hf⟩ := cryptoLayer3Encrypt_frame hns henc
  obtain ⟨hlen', hdatagram⟩ := hf.datagram_iff hevp hp hip hT hlen hports
  unfold Layer3RoundTrips
  simp only [hret, Int.toNat_natCast, hlen', true_and]
  exact hdatagram

theorem layer3_roundTrips_ackFrame :
    Layer3RoundTrips (sampleEvp sampleKeystream) (sampleParams .ctr) (sampleCtx Key.zero) 0
      ackFrame 54 := by
  refine (layer3_roundTrips_iff (Evp.lawful_ofStream _ _ _) (by decide)
    (tcpUdpFrame_ackFrame le_rfl) ipv4HeaderOk_ackFrame (by decide) (by decide) (by decide)
    (by decide)).mpr ⟨.inr (by decide), fun _ => (transportCksumKept_iff (by decide)).mpr ?_⟩
  decide +kernel

/-- The same acknowledgement padded to 60 bytes does not: the padding changes the length that the
decoder puts into the TCP checksum. -/
theorem layer3_not_roundTrips_padded :
    (TcpUdpFrame ackFrame 60 ∧ Ipv4HeaderOk ackFrame ethHeaderSize ∧
      ackFrame.be16 ipv4TotlenOff ≤ 60 - ethHeaderSize ∧
      ackFrame.be16 50 = transportCksum ackFrame (ethHeaderSize + ackFrame.be16 ipv4TotlenOff) ∧
      60 < (cryptoLayer3Encrypt (sampleEvp sampleKeystream) (sampleParams .ctr)
        (sampleCtx Key.zero) 0 ackFrame 60).1) ∧
      ¬ Layer3RoundTrips (sampleEvp sampleKeystream) (sampleParams .ctr) (sampleCtx Key.zero) 0
        ackFrame 60 := by
  have hp : TcpUdpFrame ackFrame 60 := tcpUdpFrame_ackFrame (by omega)
  have henc : 60 < (cryptoLayer3Encrypt (sampleEvp sampleKeystream) (sampleParams .ctr)
      (sampleCtx Key.zero) 0 ackFrame 60).1 := by decide
  refine ⟨⟨hp, ipv4HeaderOk_ackFrame, by decide, by decide +kernel, henc⟩, ?_⟩
  obtain ⟨hret, hf⟩ := cryptoLayer3Encrypt_frame (by decide) henc
  unfold Layer3RoundTrips
  simp only [hret, Int.toNat_natCast]
  rintro ⟨-, h⟩
  have hkept := ((hf.datagram_iff (Evp.lawful_ofStream _ _ _) hp ipv4HeaderOk_ackFrame (by decide)
    (by decide) (by decide)).2.mp h).2 (by decide)
  exact absurd ((transportCksumKept_iff (by decide)).mp hkept) (by decide +kernel)

end NetEncryptor

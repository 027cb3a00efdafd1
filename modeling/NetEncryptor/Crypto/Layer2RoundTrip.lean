import NetEncryptor.Core.Fragment

/-!
# The layer-2 tunnel round trip

`Layer2Frame` says what an encrypted frame looks like; `cryptoLayer2Encrypt_frame` proves it of
the encoder and `Layer2Frame.decrypt` runs the decoder on such a frame.  Decoder and fragment test
take the frame for a fragment when the byte behind the nonce is `0x5B`, and in a whole packet this
is the first byte of the ciphertext.
-/

namespace NetEncryptor

theorem cryptoWriteCounter_of_lt {packet : Packet} {nonce : List UInt8} {marker policyId : UInt8}
    {j : ℕ} (hj : j < 12) : cryptoWriteCounter packet nonce marker policyId j = packet j := by
  unfold cryptoWriteCounter
  rw [Buffer.write_of_lt (by omega), Buffer.set_of_ne (by omega), Buffer.set_of_ne (by omega)]

theorem cryptoWriteCounter_of_ge {packet : Packet} {nonce : List UInt8} {marker policyId : UInt8}
    {j : ℕ} (hj : ethHeaderSize + nonce.length ≤ j) :
    cryptoWriteCounter packet nonce marker policyId j = packet j := by
  have heth : ethHeaderSize = 14 := rfl
  unfold cryptoWriteCounter
  rw [Buffer.write_of_ge (by omega), Buffer.set_of_ne (by omega), Buffer.set_of_ne (by omega)]

theorem cryptoWriteCounter_marker {packet : Packet} {nonce : List UInt8} {marker policyId : UInt8} :
    cryptoWriteCounter packet nonce marker policyId 12 = marker := by
  unfold cryptoWriteCounter
  rw [Buffer.write_of_lt (by omega), Buffer.set_of_ne (by omega), Buffer.set_self]

theorem cryptoWriteCounter_nonce {packet : Packet} {nonce : List UInt8} {marker policyId : UInt8}
    {n : ℕ} (hn : nonce.length = n) :
    (cryptoWriteCounter packet nonce marker policyId).slice ethHeaderSize n = nonce :=
  Buffer.slice_write_self _ _ hn

theorem cryptoWriteCounter_plain {P : CryptoParams} {p : Packet} {nonce : List UInt8}
    {marker policyId : UInt8} {n : ℕ} (hn : nonce.length = P.nonceSize) :
    (cryptoWriteCounter (p.copy (l2EncStartOffset P) p ethHeaderSize n) nonce marker
      policyId).slice (l2EncStartOffset P) n = p.slice ethHeaderSize n := by
  rw [← Buffer.slice_copy_self p p (l2EncStartOffset P)]
  exact Buffer.slice_congr fun j hj _ => cryptoWriteCounter_of_ge (by rw [hn]; exact hj)

section

variable {evp : Evp} {P : CryptoParams} {ctx : PacketCryptoCtx}

/-! ## Encoding -/

theorem layer2EncryptHeader_eq_ok_iff {p : Packet} {len : ℕ} :
    layer2EncryptHeader P ctx p len = .ok () ↔
      ctx.initialized = true ∧ minEthPkt ≤ len ∧ pktIsIpv4Eth p ∧ P.fakeEthertypeIpv4 ≠ 0 := by
  unfold layer2EncryptHeader
  split_ifs with h₁ h₂
  · refine iff_of_false (by simp) fun h => ?_
    rw [h.1] at h₁
    rcases h₁ with h' | h'
    · cases h'
    · omega
  · exact iff_of_false (by simp) fun h => h₂.elim (fun h' => h' h.2.2.1) h.2.2.2
  · rw [not_or, Bool.not_eq_false, not_lt] at h₁
    rw [not_or, not_not] at h₂
    exact iff_of_true rfl ⟨h₁.1, h₁.2, h₂.1, h₂.2⟩

theorem layer2EncryptHeader_error_le {p : Packet} {len : ℕ} {r : ℤ}
    (h : layer2EncryptHeader P ctx p len = .error r) : r ≤ len := by
  unfold layer2EncryptHeader at h
  split_ifs at h <;> cases h <;> omega

variable (evp P ctx) in
/-- The frame `q` is the encryption of the `len` bytes of `p`. -/
structure Layer2Frame (counter : ℕ) (p : Packet) (len : ℕ) (q : Packet) : Prop where
  initialized : ctx.initialized = true
  ipv4 : pktIsIpv4Eth p
  fake : P.fakeEthertypeIpv4 ≠ 0
  min_le : minEthPkt ≤ len
  addresses : ∀ j < 12, q j = p j
  marker : q 12 = fakeMarker P
  nonce : q.slice ethHeaderSize P.nonceSize = cryptoGenerateNonce P counter protoFlagIpv4
  sealed : (encryptPayload evp P (packetCryptoGetKey ctx .current)
    (cryptoGenerateNonce P counter protoFlagIpv4) (p.slice ethHeaderSize (len - ethHeaderSize))).1 =
      true
  cipher : q.slice (l2EncStartOffset P) (len - ethHeaderSize) =
    (encryptPayload evp P (packetCryptoGetKey ctx .current)
      (cryptoGenerateNonce P counter protoFlagIpv4)
      (p.slice ethHeaderSize (len - ethHeaderSize))).2.1
  tag : q.slice (l2EncStartOffset P + (len - ethHeaderSize)) P.tagSize =
    (encryptPayload evp P (packetCryptoGetKey ctx .current)
      (cryptoGenerateNonce P counter protoFlagIpv4)
      (p.slice ethHeaderSize (len - ethHeaderSize))).2.2

/-- **The encoder's output.** A frame that grew is a layer-2 frame. -/
theorem cryptoLayer2Encrypt_frame (hns : P.NonceSizeOk) {counter len : ℕ} {p : Packet}
    (h : len < (cryptoLayer2Encrypt evp P ctx counter p len).1) :
    (cryptoLayer2Encrypt evp P ctx counter p len).1 = ↑(len + P.nonceSize + P.tagSize) ∧
      Layer2Frame evp P ctx counter p len (cryptoLayer2Encrypt evp P ctx counter p len).2 := by
  have hnl := length_cryptoGenerateNonce hns counter protoFlagIpv4
  have heth : ethHeaderSize = 14 := rfl
  unfold cryptoLayer2Encrypt at h ⊢
  cases hh : layer2EncryptHeader P ctx p len with
  | error r =>
    rw [hh] at h
    exact absurd h (not_lt.mpr (layer2EncryptHeader_error_le hh))
  | ok u =>
    rw [hh] at h
    obtain ⟨hinit, hmin, hip, hfake⟩ := layer2EncryptHeader_eq_ok_iff.mp hh
    simp only at h ⊢
    generalize hw : cryptoWriteCounter (p.copy (l2EncStartOffset P) p ethHeaderSize
      (len - ethHeaderSize)) (cryptoGenerateNonce P counter protoFlagIpv4) (fakeMarker P)
      P.policyId = w at h ⊢
    have hplain : w.slice (l2EncStartOffset P) (len - ethHeaderSize) =
        p.slice ethHeaderSize (len - ethHeaderSize) := by
      rw [← hw]; exact cryptoWriteCounter_plain hnl
    split_ifs at h ⊢ with hs
    · have hlt : ∀ j < l2EncStartOffset P, (sealInPlace evp P (packetCryptoGetKey ctx .current)
          (cryptoGenerateNonce P counter protoFlagIpv4) w (l2EncStartOffset P)
          (len - ethHeaderSize)).2 j = w j := fun j hj => sealInPlace_of_lt hj
      have hstart : l2EncStartOffset P = 14 + P.nonceSize := rfl
      refine ⟨rfl, ⟨hinit, hip, hfake, hmin, ?_, ?_, ?_, ?_, ?_, ?_⟩⟩
      · intro j hj
        rw [hlt j (by omega), ← hw, cryptoWriteCounter_of_lt hj, Buffer.copy_of_lt (by omega)]
      · rw [hlt 12 (by omega), ← hw, cryptoWriteCounter_marker]
      · rw [Buffer.slice_congr (c := w) fun j _ hj => hlt j (by omega), ← hw]
        exact cryptoWriteCounter_nonce hnl
      · rw [← hplain, ← sealInPlace_fst]; exact hs
      · rw [sealInPlace_cipher hs, hplain]
      · rw [sealInPlace_tag hs, hplain]
    · simp only at h; omega

theorem cryptoLayer2Encrypt_fst {counter len : ℕ} {p : Packet} (hns : P.NonceSizeOk)
    (hinit : ctx.initialized = true) (hmin : minEthPkt ≤ len) (hip : pktIsIpv4Eth p)
    (hfake : P.fakeEthertypeIpv4 ≠ 0)
    (hok : (encryptPayload evp P (packetCryptoGetKey ctx .current)
      (cryptoGenerateNonce P counter protoFlagIpv4)
      (p.slice ethHeaderSize (len - ethHeaderSize))).1 = true) :
    (cryptoLayer2Encrypt evp P ctx counter p len).1 = ↑(len + P.nonceSize + P.tagSize) := by
  unfold cryptoLayer2Encrypt
  rw [layer2EncryptHeader_eq_ok_iff.mpr ⟨hinit, hmin, hip, hfake⟩]
  simp only
  rw [if_pos]
  rw [sealInPlace_fst, cryptoWriteCounter_plain (length_cryptoGenerateNonce hns _ _)]
  exact hok

/-! ## Decoding -/

theorem layer2Verify_slice {p : Packet} {n : ℕ} (hn : 20 ≤ n)
    (httl : p (ethHeaderSize + 8) ≠ 0) (hproto : p ipv4ProtoOff = 6 ∨ p ipv4ProtoOff = 17) :
    layer2Verify P (p.slice ethHeaderSize n) = true := by
  have byte : ∀ i < n, (p.slice ethHeaderSize n).getD i 0 = p (ethHeaderSize + i) := by
    intro i hi
    rw [List.getD_eq_getElem?_getD, Buffer.getElem?_slice _ hi]
    rfl
  unfold layer2Verify
  cases P.mode with
  | gcm => rfl
  | ctr =>
    show verifyIpv4AfterDecrypt _ = true
    unfold verifyIpv4AfterDecrypt
    rw [Buffer.length_slice, if_neg (by omega : ¬ n < 20), byte 8 (by omega), byte 9 (by omega),
      if_neg httl, decide_eq_true_eq, show p (ethHeaderSize + 9) = p ipv4ProtoOff from rfl]
    rcases hproto with e | e <;> rw [e] <;> decide

theorem fragIsFragmentL2_eq_none {q : Packet} {cfg : AppConfig} (n : ℕ)
    (hcfg : ∀ cp ∈ cfg.policies, cp.action = actionEncryptL2 → cp.nonceSize = P.nonceSize)
    (hmagic : q (ethHeaderSize + P.nonceSize) ≠ l2FragMagic) :
    fragIsFragmentL2 P cfg q n = none := by
  have hfind : (cfg.policies.take maxCryptoPolicies).find? (fun cp => isFragmentL2Under cp q n) =
      none := by
    rw [List.find?_eq_none]
    intro cp hcp
    unfold isFragmentL2Under
    simp only [Bool.and_eq_true, beq_iff_eq, not_and]
    intro ⟨⟨hact, _⟩, _⟩
    rw [hcfg cp (List.mem_of_mem_take hcp) hact]
    exact hmagic
  unfold fragIsFragmentL2
  rw [hfind]
  split_ifs <;> rfl

namespace Layer2Frame

variable {counter len : ℕ} {p q : Packet} (h : Layer2Frame evp P ctx counter p len q)
include h

/-- The byte that the decoder takes for the fragment magic is the first one of the ciphertext. -/
theorem magic_eq : some (q (ethHeaderSize + P.nonceSize)) =
    (encryptPayload evp P (packetCryptoGetKey ctx .current)
      (cryptoGenerateNonce P counter protoFlagIpv4)
      (p.slice ethHeaderSize (len - ethHeaderSize))).2.1[0]? := by
  have hmin := h.min_le
  have heth : ethHeaderSize = 14 := rfl
  have : minEthPkt = 22 := rfl
  rw [← h.cipher, Buffer.getElem?_slice _ (by omega)]
  rfl

theorem hasFakeMarker : l2HasFakeMarker P q := ⟨h.fake, h.marker⟩

theorem decrypt_of_magic (hmagic : q (ethHeaderSize + P.nonceSize) = l2FragMagic) :
    (cryptoLayer2Decrypt evp P ctx q (len + P.nonceSize + P.tagSize)).1 =
      ↑(len + P.nonceSize + P.tagSize) := by
  have hmin := h.min_le
  have heth : ethHeaderSize = 14 := rfl
  have : minEthPkt = 22 := rfl
  have hhdr : layer2DecryptHeader P ctx q (len + P.nonceSize + P.tagSize) =
      .error ↑(len + P.nonceSize + P.tagSize) := by
    unfold layer2DecryptHeader l2EncStartOffset
    rw [if_neg (by simp [h.initialized]; omega), if_neg (not_not.mpr h.hasFakeMarker),
      if_pos ⟨by omega, hmagic⟩]
  unfold cryptoLayer2Decrypt
  rw [hhdr]

/-- **The decoder on an encrypted frame.** Any other ciphertext of an IPv4 packet is decrypted to
the original frame. -/
theorem decrypt (hevp : evp.Lawful) (hlen : ethHeaderSize + 20 ≤ len)
    (hver : (p ethHeaderSize).toNat / 16 = 4) (httl : p (ethHeaderSize + 8) ≠ 0)
    (hproto : p ipv4ProtoOff = 6 ∨ p ipv4ProtoOff = 17)
    (hmagic : q (ethHeaderSize + P.nonceSize) ≠ l2FragMagic) :
    (cryptoLayer2Decrypt evp P ctx q (len + P.nonceSize + P.tagSize)).1 = len ∧
      ∀ j < len, (cryptoLayer2Decrypt evp P ctx q (len + P.nonceSize + P.tagSize)).2 j = p j := by
  have heth : ethHeaderSize = 14 := rfl
  have hstart : l2EncStartOffset P = 14 + P.nonceSize := rfl
  have hhdr : layer2DecryptHeader P ctx q (len + P.nonceSize + P.tagSize) = .ok () := by
    unfold layer2DecryptHeader
    rw [if_neg (by simp [h.initialized]; omega), if_neg (not_not.mpr h.hasFakeMarker),
      if_neg fun h' => hmagic h'.2]
  have hopen : openTunnel evp P ctx [.current] (layer2Verify P) q (len + P.nonceSize + P.tagSize)
      ethHeaderSize (l2EncStartOffset P) =
      (true, q.write (l2EncStartOffset P) (p.slice ethHeaderSize (len - ethHeaderSize))) := by
    refine openTunnel_seal hevp ?_ ?_ ?_ ?_ (layer2Verify_slice (by omega) httl hproto)
    · rw [Buffer.length_slice]; omega
    · rw [h.nonce]; exact h.sealed
    · rw [h.nonce, Buffer.length_slice]; exact h.cipher
    · rw [h.nonce, Buffer.length_slice]; exact h.tag
  have henc : cipherLen P (len + P.nonceSize + P.tagSize) (l2EncStartOffset P) =
      len - ethHeaderSize := by unfold cipherLen; omega
  unfold cryptoLayer2Decrypt
  rw [hhdr]
  simp only [hopen, if_true, henc]
  generalize hB : q.write (l2EncStartOffset P) (p.slice ethHeaderSize (len - ethHeaderSize)) = B
  have hplain : ∀ k < len - ethHeaderSize, B (l2EncStartOffset P + k) = p (ethHeaderSize + k) := by
    rw [← hB]
    exact Buffer.slice_eq_slice_iff.mp (Buffer.slice_write_self q _ (Buffer.length_slice _ _ _))
  -- an IPv4 packet does not begin like an ethertype
  have hfst : ¬ (B (l2EncStartOffset P) = 0x08 ∧ B (l2EncStartOffset P + 1) = 0x00) := by
    rintro ⟨e, -⟩
    have := hplain 0 (by omega)
    rw [Nat.add_zero, Nat.add_zero, e] at this
    rw [← this] at hver
    exact absurd hver (by decide)
  rw [if_neg hfst]
  refine ⟨by simp only; omega, fun j hj => ?_⟩
  simp only
  by_cases hj' : j < ethHeaderSize
  · rw [Buffer.copy_of_lt hj']
    have hip : p.be16 12 = (((B.set 12 0x08).set 13 0x00).be16 12) := h.ipv4
    have hbytes := Buffer.be16_eq_iff.mp hip
    by_cases h₁₂ : j = 12
    · subst h₁₂; exact hbytes.1.symm
    by_cases h₁₃ : j = 13
    · subst h₁₃; exact hbytes.2.symm
    rw [Buffer.set_of_ne h₁₃, Buffer.set_of_ne h₁₂, ← hB, Buffer.write_of_lt (by omega)]
    exact h.addresses j (by omega)
  · obtain ⟨k, rfl⟩ := Nat.exists_eq_add_of_le (not_lt.mp hj')
    rw [Buffer.copy_add (by omega), Buffer.set_of_ne (by omega), Buffer.set_of_ne (by omega)]
    exact hplain k (by omega)

end Layer2Frame

end

/-! ## The round trip -/

/-- The encrypted frame is not taken for a fragment, and decrypting it gives back its length and
its bytes. -/
def Layer2RoundTrips (evp : Evp) (P : CryptoParams) (ctx : PacketCryptoCtx) (cfg : AppConfig)
    (counter : ℕ) (p : Packet) (len : ℕ) : Prop :=
  let e := cryptoLayer2Encrypt evp P ctx counter p len
  let d := cryptoLayer2Decrypt evp P ctx e.2 e.1.toNat
  fragIsFragmentL2 P cfg e.2 e.1.toNat = none ∧ d.1 = len ∧ ∀ j < len, d.2 j = p j

/-- The cipher's output on the IP packet of the frame, under the current key and the nonce that
the counter gives. -/
def layer2Cipher (evp : Evp) (P : CryptoParams) (ctx : PacketCryptoCtx) (counter : ℕ) (p : Packet)
    (len : ℕ) : Bool × List UInt8 × List UInt8 :=
  encryptPayload evp P (packetCryptoGetKey ctx .current)
    (cryptoGenerateNonce P counter protoFlagIpv4) (p.slice ethHeaderSize (len - ethHeaderSize))

theorem not_layer2RoundTrips_of_magic {evp : Evp} {P : CryptoParams} {ctx : PacketCryptoCtx}
    {cfg : AppConfig} {counter : ℕ} {p : Packet} {len : ℕ} (hns : P.NonceSizeOk)
    (henc : len < (cryptoLayer2Encrypt evp P ctx counter p len).1)
    (hmagic : (layer2Cipher evp P ctx counter p len).2.1[0]? = some l2FragMagic) :
    ¬ Layer2RoundTrips evp P ctx cfg counter p len := by
  obtain ⟨hret, hf⟩ := cryptoLayer2Encrypt_frame hns henc
  have hns₀ := hns.pos
  unfold Layer2RoundTrips
  simp only [hret, Int.toNat_natCast]
  rintro ⟨-, hd, -⟩
  rw [hf.decrypt_of_magic (Option.some.inj (hf.magic_eq.trans hmagic))] at hd
  omega

/-- **The layer-2 round trip.** An encrypted frame is told apart from fragments and comes back
exactly when the first byte of the cipher's output on its IP packet is not `0x5B`. -/
theorem layer2_roundTrips_iff {evp : Evp} {P : CryptoParams} {ctx : PacketCryptoCtx}
    {cfg : AppConfig} {cp : CryptoPolicy} {counter : ℕ} {p : Packet} {len : ℕ} (hevp : evp.Lawful)
    (hns : P.NonceSizeOk) (hinit : ctx.initialized = true) (hfake : P.fakeEthertypeIpv4 ≠ 0)
    (hcp : P.nonceSize = cp.nonceSize)
    (hcfg : ∀ cp' ∈ cfg.policies, cp'.action = actionEncryptL2 → cp' = cp)
    (hip : pktIsIpv4Eth p) (hlen : ethHeaderSize + 20 ≤ len)
    (hver : (p ethHeaderSize).toNat / 16 = 4) (httl : p (ethHeaderSize + 8) ≠ 0)
    (hproto : p ipv4ProtoOff = 6 ∨ p ipv4ProtoOff = 17)
    (hok : (layer2Cipher evp P ctx counter p len).1 = true) :
    Layer2RoundTrips evp P ctx cfg counter p len ↔
      (layer2Cipher evp P ctx counter p len).2.1[0]? ≠ some l2FragMagic := by
  have heth : ethHeaderSize = 14 := rfl
  have hmin : minEthPkt = 22 := rfl
  have hns₀ := hns.pos
  have henc := cryptoLayer2Encrypt_fst hns hinit (by omega) hip hfake hok
  have hgrew : len < (cryptoLayer2Encrypt evp P ctx counter p len).1 := by rw [henc]; omega
  constructor
  · exact fun h hmagic => not_layer2RoundTrips_of_magic hns hgrew hmagic h
  · intro hmagic
    obtain ⟨hret, hf⟩ := cryptoLayer2Encrypt_frame hns hgrew
    have hbyte : (cryptoLayer2Encrypt evp P ctx counter p len).2 (ethHeaderSize + P.nonceSize) ≠
        l2FragMagic := fun h => hmagic (hf.magic_eq.symm.trans (congrArg some h))
    unfold Layer2RoundTrips
    simp only [hret, Int.toNat_natCast]
    refine ⟨fragIsFragmentL2_eq_none _ (fun cp' hcp' ha => ?_) hbyte,
      hf.decrypt hevp hlen hver httl hproto hbyte⟩
    rw [hcfg cp' hcp' ha, hcp]

/-- A configuration whose only policy is a layer-2 one. -/
def sampleLayer2Config : AppConfig :=
  { AppConfig.empty with policies := [samplePolicy actionEncryptL2] }

theorem layer2_roundTrips_ackFrame :
    Layer2RoundTrips (sampleEvp sampleKeystream) (sampleParams .ctr) (sampleCtx Key.zero)
      sampleLayer2Config 0 ackFrame 54 :=
  (layer2_roundTrips_iff (Evp.lawful_ofStream _ _ _)
    (by decide) rfl (by decide) rfl (fun _ h _ => List.mem_singleton.mp h) (by decide) (by decide)
    (by decide) (by decide) (by decide) (by decide)).mpr (by decide)

/-- AES-128-CTR under the zero key, from the IV of the sample salt and counter `356` on. -/
def magicKeystream : List UInt8 :=
  [30, 28, 50, 238, 243, 3, 68, 144, 185, 60, 62, 10, 225, 191, 42, 37, 187, 0, 177, 190, 40, 30,
    138, 17, 219, 8, 198, 250, 207, 47, 247, 97, 31, 108, 47, 224, 6, 138, 93, 160, 59, 245, 140,
    185, 102, 99, 21, 22, 247, 83, 204, 38, 39, 42, 172, 209, 180, 42, 101, 18, 59, 219, 219, 91]

/-- Under counter `356` it is `0x5B`, and the frame is lost. -/
theorem layer2_not_roundTrips_magic :
    ((cryptoLayer2Encrypt (sampleEvp magicKeystream) (sampleParams .ctr) (sampleCtx Key.zero) 356
        ackFrame 54).1 = 66 ∧
      pktIsIpv4Eth ackFrame ∧ (ackFrame ethHeaderSize).toNat / 16 = 4 ∧
      ackFrame (ethHeaderSize + 8) ≠ 0 ∧ ackFrame ipv4ProtoOff = 6) ∧
      ¬ Layer2RoundTrips (sampleEvp magicKeystream) (sampleParams .ctr) (sampleCtx Key.zero)
        sampleLayer2Config 356 ackFrame 54 := by
  refine ⟨by decide, not_layer2RoundTrips_of_magic (by decide) ?_ (by decide)⟩
  decide

end NetEncryptor

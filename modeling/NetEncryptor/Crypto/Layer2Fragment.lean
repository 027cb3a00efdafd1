import NetEncryptor.Crypto.Layer2RoundTrip
import NetEncryptor.Crypto.Layer3Fragment

/-!
# Layer-2 fragments

`Layer2FragFrame` says what an encrypted fragment looks like;
`cryptoLayer2EncryptFragmentSingle_frame` proves it of the encoder and `Layer2FragFrame.decrypt`
runs the decoder on such a frame.  The decoder gives back the addresses and the plaintext behind
the ethertype, which stays the one of the tunnel.
-/

namespace NetEncryptor

/-! ## Encoding -/

section Layout

variable {P : CryptoParams} {nonce : List UInt8} {p plain outBuf : Packet} {n pktId j : ℕ}
  {fragIndex : UInt8}

/-- The fragment before its plaintext, which stands behind nonce, magic and fragment tag, is
encrypted. -/
def layer2FragmentPlain (P : CryptoParams) (nonce : List UInt8) (ethHdr encPlain : Packet)
    (encPlainLen pktId : ℕ) (fragIndex : UInt8) (outBuf : Packet) : Packet :=
  let outBuf := outBuf.copy 0 ethHdr 0 ethHeaderSize
  let outBuf := cryptoWriteCounter outBuf nonce (fakeMarker P) P.policyId
  let outBuf := outBuf.set (ethHeaderSize + P.nonceSize) l2FragMagic
  let outBuf := writeFragTag outBuf (ethHeaderSize + P.nonceSize + 1) pktId fragIndex
  outBuf.copy (l2FragEncStartOffset P) encPlain 0 encPlainLen

theorem layer2FragmentPlain_of_lt (hj : j < l2FragEncStartOffset P) :
    layer2FragmentPlain P nonce p plain n pktId fragIndex outBuf j =
      writeFragTag ((cryptoWriteCounter (outBuf.copy 0 p 0 ethHeaderSize) nonce (fakeMarker P)
        P.policyId).set (ethHeaderSize + P.nonceSize) l2FragMagic) (ethHeaderSize + P.nonceSize + 1)
        pktId fragIndex j :=
  Buffer.copy_of_lt hj

theorem layer2FragmentPlain_header (hj : j < ethHeaderSize + P.nonceSize) :
    layer2FragmentPlain P nonce p plain n pktId fragIndex outBuf j =
      cryptoWriteCounter (outBuf.copy 0 p 0 ethHeaderSize) nonce (fakeMarker P) P.policyId j := by
  rw [layer2FragmentPlain_of_lt (by unfold l2FragEncStartOffset; omega),
    writeFragTag_of_lt (by omega), Buffer.set_of_ne (by omega)]

theorem layer2FragmentPlain_magic :
    layer2FragmentPlain P nonce p plain n pktId fragIndex outBuf (ethHeaderSize + P.nonceSize) =
      l2FragMagic := by
  rw [layer2FragmentPlain_of_lt (by unfold l2FragEncStartOffset; omega),
    writeFragTag_of_lt (by omega), Buffer.set_self]

theorem layer2FragmentPlain_plain :
    (layer2FragmentPlain P nonce p plain n pktId fragIndex outBuf).slice (l2FragEncStartOffset P) n =
      plain.slice 0 n :=
  Buffer.slice_copy_self _ _ _ _ _

end Layout

section

variable {evp : Evp} {P : CryptoParams} {ctx : PacketCryptoCtx}

variable (evp P ctx) in
/-- The frame `q` is the encryption of the `n` bytes of `plain` as a fragment with the addresses of
`p`. -/
structure Layer2FragFrame (counter : ℕ) (p plain : Packet) (n pktId : ℕ) (fragIndex : UInt8)
    (q : Packet) : Prop where
  initialized : ctx.initialized = true
  fake : P.fakeEthertypeIpv4 ≠ 0
  addresses : ∀ j < 12, q j = p j
  marker : q 12 = fakeMarker P
  nonce : q.slice ethHeaderSize P.nonceSize = cryptoGenerateNonce P counter protoFlagIpv4
  magic : q (ethHeaderSize + P.nonceSize) = l2FragMagic
  pktId_eq : readFragPktId q (ethHeaderSize + P.nonceSize + 1) = pktId % 65536
  fragIndex_eq : readFragIndex q (ethHeaderSize + P.nonceSize + 1) = fragIndex
  sealed : (encryptPayload evp P (packetCryptoGetKey ctx .current)
    (cryptoGenerateNonce P counter protoFlagIpv4) (plain.slice 0 n)).1 = true
  cipher : q.slice (l2FragEncStartOffset P) n =
    (encryptPayload evp P (packetCryptoGetKey ctx .current)
      (cryptoGenerateNonce P counter protoFlagIpv4) (plain.slice 0 n)).2.1
  tag : q.slice (l2FragEncStartOffset P + n) P.tagSize =
    (encryptPayload evp P (packetCryptoGetKey ctx .current)
      (cryptoGenerateNonce P counter protoFlagIpv4) (plain.slice 0 n)).2.2

/-- **The encoder's output.** A fragment that was made is a fragment frame. -/
theorem cryptoLayer2EncryptFragmentSingle_frame (hns : P.NonceSizeOk)
    {counter n pktId outMax : ℕ} {p plain outBuf : Packet} {fragIndex : UInt8} {f : Packet × ℕ}
    (h : cryptoLayer2EncryptFragmentSingle evp P ctx counter p plain n pktId fragIndex outBuf
      outMax = some f) :
    f.2 = l2FragEncStartOffset P + n + P.tagSize ∧
      Layer2FragFrame evp P ctx counter p plain n pktId fragIndex f.1 := by
  have hnl := length_cryptoGenerateNonce hns counter protoFlagIpv4
  have heth : ethHeaderSize = 14 := rfl
  have hft : fragTagSize = 4 := rfl
  have hstart : l2FragEncStartOffset P = ethHeaderSize + P.nonceSize + 1 + fragTagSize := rfl
  have h' : (if ctx.initialized = false ∨ n = 0 ∨ ¬ pktIsIpv4Eth p ∨
        outMax < l2FragEncStartOffset P + n + P.tagSize ∨ P.fakeEthertypeIpv4 = 0 then none
      else
        let r := sealInPlace evp P (packetCryptoGetKey ctx .current)
          (cryptoGenerateNonce P counter protoFlagIpv4)
          (layer2FragmentPlain P (cryptoGenerateNonce P counter protoFlagIpv4) p plain n pktId
            fragIndex outBuf) (l2FragEncStartOffset P) n
        if r.1 then some (r.2, l2FragEncStartOffset P + n + P.tagSize) else none) = some f := h
  clear h
  simp only at h'
  split_ifs at h' with hargs hs
  rw [not_or, not_or, not_or, not_or, Bool.not_eq_false] at hargs
  obtain ⟨hinit, -, -, -, hfake⟩ := hargs
  obtain rfl := (Option.some.inj h').symm
  have hlt : ∀ j < l2FragEncStartOffset P, (sealInPlace evp P (packetCryptoGetKey ctx .current)
      (cryptoGenerateNonce P counter protoFlagIpv4)
      (layer2FragmentPlain P (cryptoGenerateNonce P counter protoFlagIpv4) p plain n pktId fragIndex
        outBuf) (l2FragEncStartOffset P) n).2 j = layer2FragmentPlain P
          (cryptoGenerateNonce P counter protoFlagIpv4) p plain n pktId fragIndex outBuf j :=
    fun j hj => sealInPlace_of_lt hj
  refine ⟨rfl, ?_⟩
  dsimp only
  refine ⟨hinit, hfake, ?_, ?_, ?_, ?_, ?_, ?_, ?_, ?_, ?_⟩
  · intro j hj
    rw [hlt j (by omega), layer2FragmentPlain_header (by omega), cryptoWriteCounter_of_lt hj,
      Buffer.copy_of_mem (Nat.zero_le j) (by omega), Nat.zero_add, Nat.sub_zero]
  · rw [hlt 12 (by omega), layer2FragmentPlain_header (by omega), cryptoWriteCounter_marker]
  · rw [Buffer.slice_congr fun j _ hj =>
      (hlt j (by omega)).trans (layer2FragmentPlain_header (by omega))]
    exact cryptoWriteCounter_nonce hnl
  · rw [hlt _ (by omega), layer2FragmentPlain_magic]
  · rw [readFragPktId_congr fun j hj hj' =>
      (hlt j (by omega)).trans (layer2FragmentPlain_of_lt (by omega))]
    exact readFragPktId_writeFragTag
  · unfold readFragIndex
    rw [hlt _ (by omega), layer2FragmentPlain_of_lt (by omega)]
    exact readFragIndex_writeFragTag
  · rw [← layer2FragmentPlain_plain, ← sealInPlace_fst]; exact hs
  · rw [sealInPlace_cipher hs, layer2FragmentPlain_plain]
  · rw [sealInPlace_tag hs, layer2FragmentPlain_plain]

theorem cryptoLayer2EncryptFragmentSingle_ne_none_iff {counter n pktId outMax : ℕ}
    {p plain outBuf : Packet} {fragIndex : UInt8} :
    cryptoLayer2EncryptFragmentSingle evp P ctx counter p plain n pktId fragIndex outBuf outMax ≠
        none ↔
      (ctx.initialized = true ∧ n ≠ 0 ∧ pktIsIpv4Eth p ∧
        l2FragEncStartOffset P + n + P.tagSize ≤ outMax ∧ P.fakeEthertypeIpv4 ≠ 0) ∧
      (encryptPayload evp P (packetCryptoGetKey ctx .current)
        (cryptoGenerateNonce P counter protoFlagIpv4) (plain.slice 0 n)).1 = true := by
  rw [← layer2FragmentPlain_plain (P := P), ← sealInPlace_fst]
  show (if _ then none else if _ then some _ else none) ≠ none ↔ _
  split_ifs with hargs hs
  · refine iff_of_false (fun h => h rfl) fun h => ?_
    rcases hargs with hinit | hn | hip | hmax | hfake
    · exact absurd h.1.1 (by simp [hinit])
    · exact h.1.2.1 hn
    · exact hip h.1.2.2.1
    · exact absurd h.1.2.2.2.1 (not_le.mpr hmax)
    · exact h.1.2.2.2.2 hfake
  · rw [not_or, not_or, not_or, not_or, Bool.not_eq_false, not_not, not_lt] at hargs
    exact iff_of_true (Option.some_ne_none _) ⟨hargs, hs⟩
  · exact iff_of_false (fun h => h rfl) fun h => hs h.2

/-! ## Decoding -/

/-- **The decoder on a fragment.** It gives back packet id and index, the addresses, and the
plaintext behind the Ethernet header. -/
theorem Layer2FragFrame.decrypt {counter n pktId : ℕ} {p plain q : Packet} {fragIndex : UInt8}
    (h : Layer2FragFrame evp P ctx counter p plain n pktId fragIndex q) (hevp : evp.Lawful) :
    ∃ w, cryptoLayer2DecryptFragment evp P ctx q (l2FragEncStartOffset P + n + P.tagSize) =
        some ⟨ethHeaderSize + n, w, pktId % 65536, fragIndex⟩ ∧
      (∀ j < 12, w j = p j) ∧ ∀ k < n, w (ethHeaderSize + k) = plain k := by
  have heth : ethHeaderSize = 14 := rfl
  have hstart : l2FragEncStartOffset P = ethHeaderSize + P.nonceSize + 1 + fragTagSize := rfl
  have hhdr : layer2DecryptFragmentHeader P ctx q (l2FragEncStartOffset P + n + P.tagSize) =
      some () := by
    unfold layer2DecryptFragmentHeader
    rw [if_neg]
    rw [not_or, not_or, not_or, not_not, not_not, Bool.not_eq_false]
    exact ⟨h.initialized, by omega, ⟨h.fake, h.marker⟩, h.magic⟩
  have hopen : openTunnel evp P ctx keyOrder (fun _ => true) q
      (l2FragEncStartOffset P + n + P.tagSize) ethHeaderSize (l2FragEncStartOffset P) =
      (true, q.write (l2FragEncStartOffset P) (plain.slice 0 n)) := by
    refine openTunnel_seal hevp ?_ ?_ ?_ ?_ rfl
    · rw [Buffer.length_slice]
    · rw [h.nonce]; exact h.sealed
    · rw [h.nonce, Buffer.length_slice]; exact h.cipher
    · rw [h.nonce, Buffer.length_slice]; exact h.tag
  have henc : cipherLen P (l2FragEncStartOffset P + n + P.tagSize) (l2FragEncStartOffset P) = n := by
    unfold cipherLen; omega
  unfold cryptoLayer2DecryptFragment
  rw [hhdr]
  simp only [hopen, if_true, henc, h.pktId_eq, h.fragIndex_eq]
  refine ⟨_, rfl, fun j hj => ?_, fun k hk => ?_⟩
  · rw [Buffer.copy_of_lt (by omega), Buffer.write_of_lt (by omega)]
    exact h.addresses j hj
  · rw [Buffer.copy_add hk]
    have := Buffer.slice_eq_slice_iff.mp (Buffer.slice_write_self q (l2FragEncStartOffset P)
      (Buffer.length_slice plain 0 n)) k hk
    rwa [Nat.zero_add] at this

end

end NetEncryptor

import NetEncryptor.Crypto.Layer3Fragment
import NetEncryptor.Crypto.Layer4

/-!
# Layer-4 fragments

`Layer4FragFrame` says what an encrypted fragment looks like;
`cryptoLayer4EncryptFragmentSingle_frame` proves it of the encoder and `Layer4FragFrame.decrypt`
runs the decoder on such a frame.  The decoder gives back the Ethernet and IP headers, the ports in
clear and the plaintext behind them.
-/

namespace NetEncryptor

/-! ## Encoding -/

section Layout

variable {P : CryptoParams} {nonce : List UInt8} {p plain outBuf : Packet} {ihl n pktId j : ℕ}
  {fragIndex : UInt8}

/-- The fragment before its plaintext, which stands behind tunnel header and fragment tag, is
encrypted. -/
def layer4FragmentPlain (P : CryptoParams) (nonce : List UInt8) (ethHdr ipHdr : Packet)
    (ipHdrLen : ℕ) (wirePorts encPlain : Packet) (encPlainLen pktId : ℕ) (fragIndex : UInt8)
    (outBuf : Packet) : Packet :=
  let tunnelOff := ethHeaderSize + ipHdrLen + l4WirePortLen
  let outBuf := (outBuf.copy 0 ethHdr 0 ethHeaderSize).copy ethHeaderSize ipHdr 0 ipHdrLen
  let outBuf := outBuf.copy (ethHeaderSize + ipHdrLen) wirePorts 0 l4WirePortLen
  let outBuf := outBuf.copy (tunnelOff + P.tunnelHdrSize + fragTagSize) encPlain 0 encPlainLen
  let outBuf :=
    cryptoWriteL3TunnelHeader outBuf tunnelOff nonce P.nonceSize P.policyId cryptoL4FragMagic
  writeFragTag outBuf (tunnelOff + P.tunnelHdrSize) pktId fragIndex

theorem layer4FragmentPlain_header (hj : j < ethHeaderSize + ihl + l4WirePortLen) :
    layer4FragmentPlain P nonce p (p.shift ethHeaderSize) ihl (p.shift (ethHeaderSize + ihl)) plain n
      pktId fragIndex outBuf j = p j := by
  have hport : l4WirePortLen = 4 := rfl
  unfold layer4FragmentPlain
  rw [writeFragTag_of_lt (by omega), tunnelHeader_of_lt hj, Buffer.copy_of_lt (by omega)]
  by_cases h₁ : j < ethHeaderSize + ihl
  · rw [Buffer.copy_of_lt h₁]
    by_cases h₂ : j < ethHeaderSize
    · rw [Buffer.copy_of_lt h₂, Buffer.copy_of_mem (Nat.zero_le j) (by omega)]
      congr 1
      omega
    · rw [Buffer.copy_of_mem (not_lt.mp h₂) h₁, Buffer.shift_apply]
      congr 1
      omega
  · rw [Buffer.copy_of_mem (not_lt.mp h₁) hj, Buffer.shift_apply]
    congr 1
    omega

theorem layer4FragmentPlain_plain (hnonce : nonce.length = P.nonceSize) :
    (layer4FragmentPlain P nonce p (p.shift ethHeaderSize) ihl (p.shift (ethHeaderSize + ihl)) plain
      n pktId fragIndex outBuf).slice
        (ethHeaderSize + ihl + l4WirePortLen + P.tunnelHdrSize + fragTagSize) n =
      plain.slice 0 n := by
  have hth : P.tunnelHdrSize = P.nonceSize + 2 := rfl
  refine Buffer.slice_eq_slice_iff.mpr fun k hk => ?_
  unfold layer4FragmentPlain
  rw [writeFragTag_of_ge (by omega), tunnelHeader_of_ge hnonce.le (by omega), Buffer.copy_add hk]

theorem layer4FragmentPlain_eq :
    ∃ A : Packet, layer4FragmentPlain P nonce p (p.shift ethHeaderSize) ihl
        (p.shift (ethHeaderSize + ihl)) plain n pktId fragIndex outBuf =
      writeFragTag (cryptoWriteL3TunnelHeader A (ethHeaderSize + ihl + l4WirePortLen) nonce
        P.nonceSize P.policyId cryptoL4FragMagic)
        (ethHeaderSize + ihl + l4WirePortLen + P.tunnelHdrSize) pktId fragIndex := ⟨_, rfl⟩

end Layout

section

variable {evp : Evp} {P : CryptoParams} {ctx : PacketCryptoCtx}

variable (evp P ctx) in
/-- The frame `q` is the encryption of the `n` bytes of `plain` as a fragment with the headers and
the ports of `p`. -/
structure Layer4FragFrame (counter : ℕ) (p plain : Packet) (ihl n pktId : ℕ) (fragIndex : UInt8)
    (q : Packet) : Prop where
  initialized : ctx.initialized = true
  header : ∀ j < ethHeaderSize + ihl + l4WirePortLen, j ≠ 16 → j ≠ 17 → j ≠ 24 → j ≠ 25 → q j = p j
  nonce : q.slice (ethHeaderSize + ihl + l4WirePortLen) P.nonceSize =
    cryptoGenerateNonce P counter protoFlagIpv4
  policy : q (ethHeaderSize + ihl + l4WirePortLen + P.nonceSize) = P.policyId
  magic : q (ethHeaderSize + ihl + l4WirePortLen + P.nonceSize + 1) = cryptoL4FragMagic
  pktId_eq : readFragPktId q (ethHeaderSize + ihl + l4WirePortLen + P.tunnelHdrSize) =
    pktId % 65536
  fragIndex_eq :
    readFragIndex q (ethHeaderSize + ihl + l4WirePortLen + P.tunnelHdrSize) = fragIndex
  sealed : (encryptPayload evp P (packetCryptoGetKey ctx .current)
    (cryptoGenerateNonce P counter protoFlagIpv4) (plain.slice 0 n)).1 = true
  cipher : q.slice (ethHeaderSize + ihl + l4WirePortLen + P.tunnelHdrSize + fragTagSize) n =
    (encryptPayload evp P (packetCryptoGetKey ctx .current)
      (cryptoGenerateNonce P counter protoFlagIpv4) (plain.slice 0 n)).2.1
  tag : q.slice (ethHeaderSize + ihl + l4WirePortLen + P.tunnelHdrSize + fragTagSize + n) P.tagSize =
    (encryptPayload evp P (packetCryptoGetKey ctx .current)
      (cryptoGenerateNonce P counter protoFlagIpv4) (plain.slice 0 n)).2.2

/-- **The encoder's output.** A fragment that was made is a fragment frame. -/
theorem cryptoLayer4EncryptFragmentSingle_frame (hns : P.NonceSizeOk)
    {counter ihl n pktId outMax : ℕ} {p plain outBuf : Packet} {fragIndex : UInt8} {f : Packet × ℕ}
    (hihl : 20 ≤ ihl)
    (h : cryptoLayer4EncryptFragmentSingle evp P ctx counter p (p.shift ethHeaderSize) ihl
      (p.shift (ethHeaderSize + ihl)) plain n pktId fragIndex outBuf outMax = some f) :
    f.2 = ethHeaderSize + ihl + l4WirePortLen + P.tunnelHdrSize + fragTagSize + n + P.tagSize ∧
      Layer4FragFrame evp P ctx counter p plain ihl n pktId fragIndex f.1 := by
  have hnl := length_cryptoGenerateNonce hns counter protoFlagIpv4
  have heth : ethHeaderSize = 14 := rfl
  have hth : P.tunnelHdrSize = P.nonceSize + 2 := rfl
  have hft : fragTagSize = 4 := rfl
  have hport : l4WirePortLen = 4 := rfl
  have h' : (if ctx.initialized = false ∨ n = 0 ∨ outMax < ethHeaderSize + ihl + l4WirePortLen +
        (P.tunnelHdrSize + fragTagSize + P.tagSize) + n then none
      else
        let r := sealInPlace evp P (packetCryptoGetKey ctx .current)
          (cryptoGenerateNonce P counter protoFlagIpv4)
          (layer4FragmentPlain P (cryptoGenerateNonce P counter protoFlagIpv4) p
            (p.shift ethHeaderSize) ihl (p.shift (ethHeaderSize + ihl)) plain n pktId fragIndex
            outBuf) (ethHeaderSize + ihl + l4WirePortLen + P.tunnelHdrSize + fragTagSize) n
        if r.1 then
          some (l4FixIpv4TotlenAndCksum r.2 ethHeaderSize ihl
              (l4WirePortLen + (P.tunnelHdrSize + fragTagSize + P.tagSize) + n),
            ethHeaderSize + ihl + l4WirePortLen + P.tunnelHdrSize + fragTagSize + n + P.tagSize)
        else none) = some f := h
  clear h
  generalize hD : layer4FragmentPlain P (cryptoGenerateNonce P counter protoFlagIpv4) p
    (p.shift ethHeaderSize) ihl (p.shift (ethHeaderSize + ihl)) plain n pktId fragIndex outBuf = D
    at h'
  have hheader : ∀ j < ethHeaderSize + ihl + l4WirePortLen, D j = p j := fun j hj => by
    rw [← hD]; exact layer4FragmentPlain_header hj
  have hplain : D.slice (ethHeaderSize + ihl + l4WirePortLen + P.tunnelHdrSize + fragTagSize) n =
      plain.slice 0 n := by rw [← hD]; exact layer4FragmentPlain_plain hnl
  obtain ⟨A, hA⟩ : ∃ A : Packet, D =
      writeFragTag (cryptoWriteL3TunnelHeader A (ethHeaderSize + ihl + l4WirePortLen)
        (cryptoGenerateNonce P counter protoFlagIpv4) P.nonceSize P.policyId cryptoL4FragMagic)
        (ethHeaderSize + ihl + l4WirePortLen + P.tunnelHdrSize) pktId fragIndex :=
    hD ▸ layer4FragmentPlain_eq
  simp only at h'
  split_ifs at h' with hargs hs
  rw [not_or, not_or, Bool.not_eq_false] at hargs
  obtain ⟨hinit, -, -⟩ := hargs
  obtain rfl := (Option.some.inj h').symm
  generalize hoff : ethHeaderSize + ihl + l4WirePortLen = off at *
  generalize hw : l4FixIpv4TotlenAndCksum _ _ _ _ = w at *
  have htunnel : ∀ j < off + P.tunnelHdrSize, D j = cryptoWriteL3TunnelHeader A off
      (cryptoGenerateNonce P counter protoFlagIpv4) P.nonceSize P.policyId cryptoL4FragMagic j :=
    fun j hj => by rw [hA, writeFragTag_of_lt hj]
  -- the patch of the IP header is the last write, and the ciphertext the one before
  have hlt : ∀ j < off + P.tunnelHdrSize + fragTagSize, j ≠ 16 → j ≠ 17 → j ≠ 24 → j ≠ 25 →
      w j = D j := fun j hj h₁₆ h₁₇ h₂₄ h₂₅ => by
    rw [← hw]
    exact (patchIpv4_of_ne h₁₆ h₁₇ h₂₄ h₂₅).trans (sealInPlace_of_lt hj)
  have hge : ∀ j ≥ off, w j = (sealInPlace evp P (packetCryptoGetKey ctx .current)
      (cryptoGenerateNonce P counter protoFlagIpv4) D (off + P.tunnelHdrSize + fragTagSize) n).2 j :=
    fun j hj => by
      rw [← hw]
      exact patchIpv4_of_ne (by omega) (by omega) (by omega) (by omega)
  refine ⟨rfl, ⟨hinit, ?_, ?_, ?_, ?_, ?_, ?_, ?_, ?_, ?_⟩⟩ <;> try simp only [hoff]
  · intro j hj h₁₆ h₁₇ h₂₄ h₂₅
    rw [hlt j (by omega) h₁₆ h₁₇ h₂₄ h₂₅, hheader j hj]
  · rw [Buffer.slice_congr fun j hj hj' =>
      (hlt j (by omega) (by omega) (by omega) (by omega) (by omega)).trans (htunnel j (by omega))]
    exact tunnelHeader_nonce hnl
  · rw [hlt _ (by omega) (by omega) (by omega) (by omega) (by omega), htunnel _ (by omega)]
    exact tunnelHeader_policy
  · rw [hlt _ (by omega) (by omega) (by omega) (by omega) (by omega), htunnel _ (by omega)]
    exact tunnelHeader_last
  · rw [readFragPktId_congr fun j hj hj' =>
      (hlt j hj' (by omega) (by omega) (by omega) (by omega)).trans (congrFun hA j)]
    exact readFragPktId_writeFragTag
  · unfold readFragIndex
    rw [hlt _ (by omega) (by omega) (by omega) (by omega) (by omega), hA]
    exact readFragIndex_writeFragTag
  · rw [← hplain, ← sealInPlace_fst]; exact hs
  · rw [Buffer.slice_congr fun j hj _ => hge j (by omega), sealInPlace_cipher hs, hplain]
  · rw [Buffer.slice_congr fun j hj _ => hge j (by omega), sealInPlace_tag hs, hplain]

theorem cryptoLayer4EncryptFragmentSingle_ne_none_iff (hns : P.NonceSizeOk)
    {counter ihl n pktId outMax : ℕ} {p plain outBuf : Packet} {fragIndex : UInt8} :
    cryptoLayer4EncryptFragmentSingle evp P ctx counter p (p.shift ethHeaderSize) ihl
        (p.shift (ethHeaderSize + ihl)) plain n pktId fragIndex outBuf outMax ≠ none ↔
      (ctx.initialized = true ∧ n ≠ 0 ∧
        ethHeaderSize + ihl + l4WirePortLen + (P.tunnelHdrSize + fragTagSize + P.tagSize) + n ≤
          outMax) ∧
      (encryptPayload evp P (packetCryptoGetKey ctx .current)
        (cryptoGenerateNonce P counter protoFlagIpv4) (plain.slice 0 n)).1 = true := by
  rw [← layer4FragmentPlain_plain (length_cryptoGenerateNonce hns counter protoFlagIpv4),
    ← sealInPlace_fst]
  show (if _ then none else if _ then some _ else none) ≠ none ↔ _
  split_ifs with hargs hs
  · refine iff_of_false (fun h => h rfl) fun h => ?_
    rcases hargs with hinit | hn | hmax
    · exact absurd h.1.1 (by simp [hinit])
    · exact h.1.2.1 hn
    · exact absurd h.1.2.2 (not_le.mpr hmax)
  · rw [not_or, not_or, Bool.not_eq_false, not_lt] at hargs
    exact iff_of_true (Option.some_ne_none _) ⟨hargs, hs⟩
  · exact iff_of_false (fun h => h rfl) fun h => hs h.2

/-- Under another packet id the encoder makes the same fragment but for the id in its tag. -/
theorem cryptoLayer4EncryptFragmentSingle_pktId (hns : P.NonceSizeOk)
    {counter ihl n pktId outMax : ℕ} {p plain outBuf : Packet} {fragIndex : UInt8} {f : Packet × ℕ}
    (hihl : 20 ≤ ihl)
    (h : cryptoLayer4EncryptFragmentSingle evp P ctx counter p (p.shift ethHeaderSize) ihl
      (p.shift (ethHeaderSize + ihl)) plain n pktId fragIndex outBuf outMax = some f) (pktId' : ℕ) :
    ∃ f', cryptoLayer4EncryptFragmentSingle evp P ctx counter p (p.shift ethHeaderSize) ihl
        (p.shift (ethHeaderSize + ihl)) plain n pktId' fragIndex outBuf outMax = some f' ∧
      ∀ j ≥ ethHeaderSize + ihl + l4WirePortLen,
        j ≠ ethHeaderSize + ihl + l4WirePortLen + P.tunnelHdrSize →
        j ≠ ethHeaderSize + ihl + l4WirePortLen + P.tunnelHdrSize + 1 → f'.1 j = f.1 j := by
  have heth : ethHeaderSize = 14 := rfl
  have hport : l4WirePortLen = 4 := rfl
  have hne : cryptoLayer4EncryptFragmentSingle evp P ctx counter p (p.shift ethHeaderSize) ihl
      (p.shift (ethHeaderSize + ihl)) plain n pktId' fragIndex outBuf outMax ≠ none :=
    (cryptoLayer4EncryptFragmentSingle_ne_none_iff hns).mpr
      ((cryptoLayer4EncryptFragmentSingle_ne_none_iff hns).mp
        (by rw [h]; exact Option.some_ne_none f))
  obtain ⟨f', hf'⟩ := Option.ne_none_iff_exists'.mp hne
  refine ⟨f', hf', fun j hj h₀ h₁ => ?_⟩
  have hplain : ∀ id, (layer4FragmentPlain P (cryptoGenerateNonce P counter protoFlagIpv4) p
      (p.shift ethHeaderSize) ihl (p.shift (ethHeaderSize + ihl)) plain n id fragIndex outBuf).slice
        (ethHeaderSize + ihl + l4WirePortLen + P.tunnelHdrSize + fragTagSize) n =
      plain.slice 0 n :=
    fun _ => layer4FragmentPlain_plain (length_cryptoGenerateNonce hns counter protoFlagIpv4)
  have hfrag : ∀ id (g : Packet × ℕ), cryptoLayer4EncryptFragmentSingle evp P ctx counter p
      (p.shift ethHeaderSize) ihl (p.shift (ethHeaderSize + ihl)) plain n id fragIndex outBuf
        outMax = some g →
      g.1 j = (sealInPlace evp P (packetCryptoGetKey ctx .current)
        (cryptoGenerateNonce P counter protoFlagIpv4)
        (layer4FragmentPlain P (cryptoGenerateNonce P counter protoFlagIpv4) p
          (p.shift ethHeaderSize) ihl (p.shift (ethHeaderSize + ihl)) plain n id fragIndex outBuf)
        (ethHeaderSize + ihl + l4WirePortLen + P.tunnelHdrSize + fragTagSize) n).2 j := by
    intro id g hg
    replace hg : (if _ then none else if _ then some _ else none) = some g := hg
    split_ifs at hg
    obtain rfl := Option.some.inj hg
    exact patchIpv4_of_ne (by omega) (by omega) (by omega) (by omega)
  rw [hfrag _ _ hf', hfrag _ _ h]
  exact sealInPlace_congr ((hplain pktId').trans (hplain pktId).symm)
    (writeFragTag_of_ne pktId h₀ h₁)

/-! ## Decoding -/

namespace Layer4FragFrame

variable {counter ihl n pktId : ℕ} {p plain q : Packet} {fragIndex : UInt8}
  (h : Layer4FragFrame evp P ctx counter p plain ihl n pktId fragIndex q)
include h

theorem isIpv4Eth (hip : pktIsIpv4Eth p) : q.be16 12 = 0x0800 := by
  have heth : ethHeaderSize = 14 := rfl
  have eth : ∀ j < ethHeaderSize, q j = p j := fun j hj =>
    h.header j (by omega) (by omega) (by omega) (by omega) (by omega)
  exact (Buffer.be16_congr (eth 12 (by decide)) (eth 13 (by decide))).trans hip

theorem ihlAt_eq (hihl : ihl = ihlAt p ethHeaderSize) : ihlAt q ethHeaderSize = ihl := by
  have heth : ethHeaderSize = 14 := rfl
  have hport : l4WirePortLen = 4 := rfl
  rw [hihl]
  exact ihlAt_congr (h.header _ (by omega) (by omega) (by omega) (by omega) (by omega))

theorem proto_eq (h₂₀ : 20 ≤ ihl) : q ipv4ProtoOff = p ipv4ProtoOff := by
  have heth : ethHeaderSize = 14 := rfl
  have hpo : ipv4ProtoOff = 23 := rfl
  exact h.header _ (by omega) (by omega) (by omega) (by omega) (by omega)

variable (hip : pktIsIpv4Eth p) (hihl : ihl = ihlAt p ethHeaderSize) (h₂₀ : 20 ≤ ihl)
  (hproto : p ipv4ProtoOff = 6 ∨ p ipv4ProtoOff = 17)
include hip hihl h₂₀ hproto

theorem decryptHeader : layer4DecryptFragmentHeader P ctx q
    (ethHeaderSize + ihl + l4WirePortLen + P.tunnelHdrSize + fragTagSize + n + P.tagSize) =
      some (ethHeaderSize, ihl) := by
  have heth : ethHeaderSize = 14 := rfl
  have hoff : cryptoEthIpv4Offset q
      (ethHeaderSize + ihl + l4WirePortLen + P.tunnelHdrSize + fragTagSize + n + P.tagSize) =
        some ethHeaderSize := by
    unfold cryptoEthIpv4Offset
    rw [if_neg (by omega), if_pos (h.isIpv4Eth hip)]
    rfl
  have hpr : q (ethHeaderSize + 9) = p ipv4ProtoOff := h.proto_eq h₂₀
  unfold layer4DecryptFragmentHeader
  rw [if_neg (by simp [h.initialized]), hoff]
  simp only [h.ihlAt_eq hihl, hpr]
  rw [if_neg (by rintro (h' | h' | h') <;> [omega; tauto; omega]), if_neg (by omega),
    if_neg (not_not.mpr h.magic)]

/-- **The decoder on a fragment.** It gives back packet id and index, the headers except for the
total length and the checksum, the ports, and the plaintext behind them. -/
theorem decrypt (hevp : evp.Lawful) :
    ∃ w, cryptoLayer4DecryptFragment evp P ctx q
        (ethHeaderSize + ihl + l4WirePortLen + P.tunnelHdrSize + fragTagSize + n + P.tagSize) =
          some ⟨ethHeaderSize + ihl + l4WirePortLen + n, w, pktId % 65536, fragIndex⟩ ∧
      (∀ j < ethHeaderSize + ihl, j ≠ 16 → j ≠ 17 → j ≠ 24 → j ≠ 25 → w j = p j) ∧
      ∀ k < n, w (ethHeaderSize + ihl + l4WirePortLen + k) = plain k := by
  have heth : ethHeaderSize = 14 := rfl
  have hheader := h.header
  have hid := h.pktId_eq
  have hidx := h.fragIndex_eq
  have hhdr := h.decryptHeader hip hihl h₂₀ hproto
  have hopen : openTunnel evp P ctx keyOrder (fun _ => true) q
      (ethHeaderSize + ihl + l4WirePortLen + P.tunnelHdrSize + fragTagSize + n + P.tagSize)
      (ethHeaderSize + ihl + l4WirePortLen)
      (ethHeaderSize + ihl + l4WirePortLen + P.tunnelHdrSize + fragTagSize) =
      (true, q.write (ethHeaderSize + ihl + l4WirePortLen + P.tunnelHdrSize + fragTagSize)
        (plain.slice 0 n)) := by
    refine openTunnel_seal hevp ?_ ?_ ?_ ?_ rfl
    · rw [Buffer.length_slice]
    · rw [h.nonce]; exact h.sealed
    · rw [h.nonce, Buffer.length_slice]; exact h.cipher
    · rw [h.nonce, Buffer.length_slice]; exact h.tag
  unfold cryptoLayer4DecryptFragment
  rw [hhdr]
  simp only [hopen, if_true, hid, hidx]
  generalize hoff : ethHeaderSize + ihl + l4WirePortLen = off at *
  have henc : cipherLen P (off + P.tunnelHdrSize + fragTagSize + n + P.tagSize)
      (off + P.tunnelHdrSize + fragTagSize) = n := by unfold cipherLen; omega
  rw [henc]
  refine ⟨_, rfl, fun j hj h₁₆ h₁₇ h₂₄ h₂₅ => ?_, fun k hk => ?_⟩
  · refine (patchIpv4_of_ne h₁₆ h₁₇ h₂₄ h₂₅).trans ?_
    rw [Buffer.copy_of_lt (by omega), Buffer.write_of_lt (by omega)]
    exact hheader j (by omega) h₁₆ h₁₇ h₂₄ h₂₅
  · refine (patchIpv4_of_ne (by omega) (by omega) (by omega) (by omega)).trans ?_
    rw [Buffer.copy_add hk]
    have := Buffer.slice_eq_slice_iff.mp (Buffer.slice_write_self q
      (off + P.tunnelHdrSize + fragTagSize) (Buffer.length_slice plain 0 n)) k hk
    rwa [Nat.zero_add] at this

end Layer4FragFrame

end

end NetEncryptor

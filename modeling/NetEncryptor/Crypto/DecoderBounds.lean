import NetEncryptor.Base.Access
import NetEncryptor.Crypto.DecoderResults
import NetEncryptor.Crypto.Layer2

/-!
# Lengths and bytes of the decoders

For each of the six decoders the unsigned subtractions and the ranges of the received packet that it
reads or writes, in their order.  `decoderSafe_iff` says that no subtraction wraps and no range leaves
the packet, but for one decoder: `crypto_layer2_decrypt` in GCM mode looks for an ethertype in front of
a plaintext that has fewer than two bytes, and finds the tag there.
-/

namespace NetEncryptor

open Access

section

variable (evp : Evp) (P : CryptoParams) (ctx : PacketCryptoCtx)

/-! ## The shared loop -/

/-- The ranges of the loop over the keys; `verifyAccesses` is what the check of the plaintext reads. -/
def tryKeysAccesses (nonce tag : List UInt8) (encOff encLen : ℕ) (verify : List UInt8 → Bool)
    (verifyAccesses : List Access) (backup : Packet) :
    List KeySlot → ℕ → Packet → List Access
  | [], _, _ => []
  | slot :: slots, k, packet =>
    let packet := restoreBackup encOff encLen backup k packet
    let r := tryKey evp P ctx slot nonce tag encOff encLen packet
    (if 0 < k ∧ encLen ≤ backupSize then [bytes encOff encLen] else []) ++
      bytes encOff encLen :: ((if r.1 then verifyAccesses else []) ++
        if r.1 && verify r.2 then []
        else tryKeysAccesses nonce tag encOff encLen verify verifyAccesses backup slots (k + 1)
          (packet.write encOff r.2))

/-- The lengths of ciphertext and tag, and the tag, which has no bytes in CTR mode. -/
def cipherLenAccesses (pktLen encOff : ℕ) : List Access :=
  sub pktLen encOff ::
    if pktLen - encOff < P.tagSize then []
    else [sub (pktLen - encOff) P.tagSize, bytes (encOff + cipherLen P pktLen encOff) P.tagSize]

/-- Nonce, ciphertext, tag, backup and the loop. -/
def openTunnelAccesses (verify : List UInt8 → Bool) (verifyAccesses : List Access) (packet : Packet)
    (pktLen nonceOff encOff : ℕ) : List Access :=
  bytes nonceOff P.nonceSize :: (cipherLenAccesses P pktLen encOff ++
    if pktLen - encOff < P.tagSize then []
    else
      let encLen := cipherLen P pktLen encOff
      let nonce := packet.slice nonceOff P.nonceSize
      let tag := packet.slice (encOff + encLen) P.tagSize
      (if encLen ≤ backupSize then [bytes encOff encLen] else []) ++
        tryKeysAccesses evp P ctx nonce tag encOff encLen verify verifyAccesses packet keyOrder 0
          packet)

/-- `memmove` of the plaintext to `off`. -/
def moveAccesses (off encOff encLen : ℕ) : List Access := [bytes encOff encLen, bytes off encLen]

/-- `l3_patch_ipv4` and `l4_fix_ipv4_totlen_and_cksum`. -/
def patchIpv4Accesses (l3Off ipHdrLen : ℕ) : List Access :=
  [bytes (l3Off + 2) 2, bytes (l3Off + 10) 2, bytes l3Off ipHdrLen]

/-! ## Layer 2 -/

def layer2HeaderAccesses (packet : Packet) (pktLen : ℕ) : List Access :=
  if ctx.initialized = false ∨ pktLen < l2EncStartOffset P then []
  else bytes 12 1 ::
    if ¬ l2HasFakeMarker P packet then []
    else if ethHeaderSize + P.nonceSize + 1 ≤ pktLen then [bytes (ethHeaderSize + P.nonceSize) 1]
    else []

/-- The plaintext check of CTR mode reads two bytes of a plaintext that has 20. -/
def layer2VerifyAccesses (encOff encLen : ℕ) : List Access :=
  match P.mode with
  | .gcm => []
  | .ctr => if encLen < 20 then [] else [bytes (encOff + 8) 2]

def cryptoLayer2DecryptAccesses (packet : Packet) (pktLen : ℕ) : List Access :=
  layer2HeaderAccesses P ctx packet pktLen ++
    match layer2DecryptHeader P ctx packet pktLen with
    | .error _ => []
    | .ok () =>
      let workPtr := l2EncStartOffset P
      let encLen := cipherLen P pktLen workPtr
      let r := openTunnel evp P ctx [.current] (layer2Verify P) packet pktLen ethHeaderSize workPtr
      bytes 13 1 :: bytes ethHeaderSize P.nonceSize :: (cipherLenAccesses P pktLen workPtr ++
        if pktLen - workPtr < P.tagSize then []
        else bytes workPtr encLen :: (layer2VerifyAccesses P workPtr encLen ++
          if r.1 then
            bytes workPtr 2 :: bytes 12 2 ::
              if r.2 workPtr = 0x08 ∧ r.2 (workPtr + 1) = 0x00 then
                sub encLen 2 :: moveAccesses ethHeaderSize (workPtr + 2) (usub encLen 2)
              else moveAccesses ethHeaderSize workPtr encLen
          else []))

def layer2FragmentHeaderAccesses (packet : Packet) (pktLen : ℕ) : List Access :=
  if ctx.initialized = false ∨ pktLen < l2FragEncStartOffset P then []
  else bytes 12 1 ::
    if ¬ l2HasFakeMarker P packet then [] else [bytes (ethHeaderSize + P.nonceSize) 1]

def cryptoLayer2DecryptFragmentAccesses (packet : Packet) (pktLen : ℕ) : List Access :=
  layer2FragmentHeaderAccesses P ctx packet pktLen ++
    match layer2DecryptFragmentHeader P ctx packet pktLen with
    | none => []
    | some () =>
      let encOff := l2FragEncStartOffset P
      let r := openTunnel evp P ctx keyOrder (fun _ => true) packet pktLen ethHeaderSize encOff
      bytes (ethHeaderSize + P.nonceSize + 1) 3 :: bytes 13 1 ::
        (openTunnelAccesses evp P ctx (fun _ => true) [] packet pktLen ethHeaderSize encOff ++
          if r.1 then moveAccesses ethHeaderSize encOff (cipherLen P pktLen encOff) else [])

/-! ## Layer 3 -/

/-- `pkt_is_ipv4` and `ipv4_hdr_len_at`. -/
def ipv4HeaderAccesses (packet : Packet) (pktLen : ℕ) : List Access :=
  if pktLen < ethHeaderSize + 20 then []
  else bytes 12 2 :: if ¬ pktIsIpv4Eth packet then [] else [bytes ethHeaderSize 1]

def layer3HeaderAccesses (packet : Packet) (pktLen : ℕ) : List Access :=
  if ctx.initialized = false ∨ pktLen < minEthPkt then []
  else ipv4HeaderAccesses packet pktLen ++
    match ipv4HdrLenAt packet pktLen ethHeaderSize with
    | none => []
    | some ipHdrLen =>
      let tunnelOff := ethHeaderSize + ipHdrLen
      if ¬ pktIsIpv4 packet pktLen ∨ pktLen < tunnelOff + P.tunnelHdrSize then []
      else bytes (tunnelOff + P.nonceSize + 1) 1 ::
        if packet (tunnelOff + P.nonceSize + 1) = cryptoL3FragMagic then []
        else [bytes ipv4ProtoOff 1]

/-- The plaintext check of CTR mode reads the ports. -/
def layer3VerifyAccesses (origProto : UInt8) (encOff encLen : ℕ) : List Access :=
  match P.mode with
  | .gcm => []
  | .ctr => if (origProto = 6 ∨ origProto = 17) ∧ 4 ≤ encLen then [bytes encOff 4] else []

/-- The transport checksum: its field, the addresses and the segment. -/
def layer3FixTransportAccesses (ipHdrLen : ℕ) (origProto : UInt8) (decPktLen : ℕ) : List Access :=
  let off := ethHeaderSize + ipHdrLen
  if decPktLen ≤ off then []
  else if origProto = 6 then
    sub decPktLen off ::
      if 20 ≤ decPktLen - off then
        [bytes (off + 16) 2, bytes (ethHeaderSize + 12) 8, bytes off (decPktLen - off)]
      else []
  else if origProto = 17 then
    sub decPktLen off ::
      if 8 ≤ decPktLen - off then
        [bytes (off + 6) 2, bytes (ethHeaderSize + 12) 8, bytes off (decPktLen - off)]
      else []
  else []

def cryptoLayer3DecryptAccesses (packet : Packet) (pktLen : ℕ) : List Access :=
  layer3HeaderAccesses P ctx packet pktLen ++
    match layer3DecryptHeader P ctx packet pktLen with
    | .error _ => []
    | .ok ipHdrLen =>
      let tunnelOff := ethHeaderSize + ipHdrLen
      let encOff := tunnelOff + P.tunnelHdrSize
      let encLen := cipherLen P pktLen encOff
      let origProto := packet (tunnelOff + P.nonceSize + 1)
      let packet := packet.set ipv4ProtoOff origProto
      let r := openTunnel evp P ctx keyOrder (layer3Verify P origProto) packet pktLen tunnelOff encOff
      let totalOverhead := P.tunnelHdrSize + P.tagSize
      bytes tunnelOff P.tunnelHdrSize :: bytes ipv4ProtoOff 1 ::
        (openTunnelAccesses evp P ctx (layer3Verify P origProto)
            (layer3VerifyAccesses P origProto encOff encLen) packet pktLen tunnelOff encOff ++
          if r.1 then
            moveAccesses tunnelOff encOff encLen ++
              bytes ipv4ProtoOff 1 :: bytes ipv4TotlenOff 2 ::
                (patchIpv4Accesses ethHeaderSize ipHdrLen ++
                  sub pktLen totalOverhead ::
                    layer3FixTransportAccesses ipHdrLen origProto (pktLen - totalOverhead))
          else [])

def layer3FragmentHeaderAccesses (packet : Packet) (pktLen : ℕ) : List Access :=
  if ctx.initialized = false then []
  else ipv4HeaderAccesses packet pktLen ++
    match ipv4HdrLenAt packet pktLen ethHeaderSize with
    | none => []
    | some ipHdrLen =>
      let tunnelOff := ethHeaderSize + ipHdrLen
      if ¬ pktIsIpv4 packet pktLen then []
      else bytes ipv4ProtoOff 1 ::
        if packet ipv4ProtoOff ≠ P.fakeProtocol then []
        else if pktLen < tunnelOff + P.tunnelHdrSize + fragTagSize then []
        else [bytes (tunnelOff + P.nonceSize + 1) 1]

def cryptoLayer3DecryptFragmentAccesses (packet : Packet) (pktLen : ℕ) : List Access :=
  layer3FragmentHeaderAccesses P ctx packet pktLen ++
    match layer3DecryptFragmentHeader P ctx packet pktLen with
    | none => []
    | some ipHdrLen =>
      let tunnelOff := ethHeaderSize + ipHdrLen
      let tagOff := tunnelOff + P.tunnelHdrSize
      let encOff := tagOff + fragTagSize
      let r := openTunnel evp P ctx keyOrder (fun _ => true) packet pktLen tunnelOff encOff
      bytes tagOff 3 ::
        (openTunnelAccesses evp P ctx (fun _ => true) [] packet pktLen tunnelOff encOff ++
          if r.1 then
            moveAccesses tunnelOff encOff (cipherLen P pktLen encOff) ++
              patchIpv4Accesses ethHeaderSize ipHdrLen
          else [])

/-! ## Layer 4 -/

def ethIpv4OffsetAccesses (pkt : Packet) (pktLen : ℕ) : List Access :=
  if pktLen < 14 then []
  else bytes 12 2 ::
    if pkt.be16 12 = 0x8100 ∧ 18 ≤ pktLen then
      bytes 16 2 :: if pkt.be16 16 = 0x8100 ∧ 22 ≤ pktLen then [bytes 20 2] else []
    else []

/-- The tests of the two layer-4 decoders; `hdrSize` is what a tunnel needs behind the ports, and
`tunnelBytes` what is read of it. -/
def layer4HeaderAccesses (hdrSize : ℕ) (tunnelBytes : ℕ → List Access) (packet : Packet)
    (pktLen : ℕ) : List Access :=
  if ctx.initialized = false then []
  else ethIpv4OffsetAccesses packet pktLen ++
    match cryptoEthIpv4Offset packet pktLen with
    | none => []
    | some l3Off =>
      let ipHdrLen := ihlAt packet l3Off
      let tunnelOff := l3Off + ipHdrLen + l4WirePortLen
      if pktLen < l3Off + 20 then []
      else bytes (l3Off + 9) 1 ::
        if packet (l3Off + 9) ≠ 6 ∧ packet (l3Off + 9) ≠ 17 then []
        else bytes l3Off 1 ::
          if ipHdrLen < 20 ∨ pktLen < tunnelOff + hdrSize then [] else tunnelBytes tunnelOff

def cryptoLayer4DecryptAccesses (packet : Packet) (pktLen : ℕ) : List Access :=
  layer4HeaderAccesses ctx P.tunnelHdrSize
      (fun tunnelOff => [bytes (tunnelOff + P.nonceSize + 1) 1, bytes tunnelOff 1]) packet pktLen ++
    match layer4DecryptHeader P ctx packet pktLen with
    | .error _ => []
    | .ok (l3Off, ipHdrLen) =>
      let tunnelOff := l3Off + ipHdrLen + l4WirePortLen
      let encOff := tunnelOff + P.tunnelHdrSize
      let r := openTunnel evp P ctx keyOrder (fun _ => true) packet pktLen tunnelOff encOff
      openTunnelAccesses evp P ctx (fun _ => true) [] packet pktLen tunnelOff encOff ++
        if r.1 then
          moveAccesses tunnelOff encOff (cipherLen P pktLen encOff) ++
            patchIpv4Accesses l3Off ipHdrLen
        else []

def cryptoLayer4DecryptFragmentAccesses (packet : Packet) (pktLen : ℕ) : List Access :=
  layer4HeaderAccesses ctx (P.tunnelHdrSize + fragTagSize)
      (fun tunnelOff => [bytes (tunnelOff + P.nonceSize + 1) 1]) packet pktLen ++
    match layer4DecryptFragmentHeader P ctx packet pktLen with
    | none => []
    | some (l3Off, ipHdrLen) =>
      let tunnelOff := l3Off + ipHdrLen + l4WirePortLen
      let tagOff := tunnelOff + P.tunnelHdrSize
      let encOff := tagOff + fragTagSize
      let r := openTunnel evp P ctx keyOrder (fun _ => true) packet pktLen tunnelOff encOff
      bytes tagOff 3 ::
        (openTunnelAccesses evp P ctx (fun _ => true) [] packet pktLen tunnelOff encOff ++
          if r.1 then
            moveAccesses tunnelOff encOff (cipherLen P pktLen encOff) ++
              patchIpv4Accesses l3Off ipHdrLen
          else [])

end

/-! ## In bounds -/

section

variable {evp : Evp} {P : CryptoParams} {ctx : PacketCryptoCtx} {packet : Packet}
  {pktLen nonceOff encOff encLen : ℕ} {verify : List UInt8 → Bool} {verifyAccesses : List Access}

theorem tryKeysAccesses_inBounds {nonce tag : List UInt8} {backup : Packet}
    (henc : encOff + encLen ≤ pktLen) (hverify : AllInBounds pktLen verifyAccesses) :
    ∀ (slots : List KeySlot) (k : ℕ) (packet : Packet),
      AllInBounds pktLen (tryKeysAccesses evp P ctx nonce tag encOff encLen verify verifyAccesses
        backup slots k packet) := by
  intro slots
  induction slots with
  | nil => exact fun _ _ => allInBounds_nil
  | cons slot slots ih =>
    intro k packet
    simp only [tryKeysAccesses, allInBounds_append, allInBounds_cons, allInBounds_ite,
      allInBounds_nil, inBounds_bytes]
    exact ⟨⟨fun _ => ⟨.inr henc, trivial⟩, fun _ => trivial⟩, .inr henc,
      ⟨fun _ => hverify, fun _ => trivial⟩, fun _ => trivial, fun _ => ih _ _⟩

theorem cipherLenAccesses_inBounds (henc : encOff ≤ pktLen) :
    AllInBounds pktLen (cipherLenAccesses P pktLen encOff) := by
  simp only [cipherLenAccesses, allInBounds_cons, allInBounds_ite, allInBounds_nil, inBounds_sub,
    inBounds_bytes, cipherLen]
  exact ⟨henc, fun _ => trivial, fun _ => ⟨by omega, .inr (by omega), trivial⟩⟩

theorem openTunnelAccesses_inBounds (hnonce : nonceOff + P.nonceSize ≤ pktLen)
    (henc : encOff ≤ pktLen)
    (hverify : encOff + cipherLen P pktLen encOff ≤ pktLen → AllInBounds pktLen verifyAccesses) :
    AllInBounds pktLen (openTunnelAccesses evp P ctx verify verifyAccesses packet pktLen nonceOff
      encOff) := by
  simp only [openTunnelAccesses, allInBounds_append, allInBounds_cons, allInBounds_ite,
    allInBounds_nil, inBounds_bytes]
  refine ⟨.inr hnonce, cipherLenAccesses_inBounds henc, fun _ => trivial, fun htag => ?_⟩
  have hend : encOff + cipherLen P pktLen encOff ≤ pktLen := by
    unfold cipherLen
    omega
  exact ⟨⟨fun _ => ⟨.inr hend, trivial⟩, fun _ => trivial⟩,
    tryKeysAccesses_inBounds hend (hverify hend) _ _ _⟩

theorem openTunnel_fits {slots : List KeySlot} (henc : encOff ≤ pktLen)
    (h : (openTunnel evp P ctx slots verify packet pktLen nonceOff encOff).1 = true) :
    encOff + cipherLen P pktLen encOff + P.tagSize = pktLen := by
  unfold openTunnel at h
  split_ifs at h with htag
  unfold cipherLen
  omega

theorem moveAccesses_inBounds {off : ℕ} (henc : encOff + encLen ≤ pktLen) (hoff : off ≤ encOff) :
    AllInBounds pktLen (moveAccesses off encOff encLen) := by
  simp only [moveAccesses, allInBounds_cons, allInBounds_nil, inBounds_bytes]
  exact ⟨.inr henc, .inr (by omega), trivial⟩

theorem patchIpv4Accesses_inBounds {l3Off ihl : ℕ} (hihl : 20 ≤ ihl) (h : l3Off + ihl ≤ pktLen) :
    AllInBounds pktLen (patchIpv4Accesses l3Off ihl) := by
  simp only [patchIpv4Accesses, allInBounds_cons, allInBounds_nil, inBounds_bytes]
  exact ⟨.inr (by omega), .inr (by omega), .inr (by omega), trivial⟩

/-! ## The tests -/

theorem layer2HeaderAccesses_inBounds :
    AllInBounds pktLen (layer2HeaderAccesses P ctx packet pktLen) := by
  have heth : ethHeaderSize = 14 := rfl
  have hstart : l2EncStartOffset P = ethHeaderSize + P.nonceSize := rfl
  simp only [layer2HeaderAccesses, allInBounds_cons, allInBounds_ite, allInBounds_nil,
    inBounds_bytes, not_or, not_lt]
  refine ⟨fun _ => trivial, fun h => ⟨.inr (by omega), fun _ => trivial, fun _ => ⟨fun hlen => ?_,
    fun _ => trivial⟩⟩⟩
  exact ⟨.inr hlen, trivial⟩

theorem layer2FragmentHeaderAccesses_inBounds :
    AllInBounds pktLen (layer2FragmentHeaderAccesses P ctx packet pktLen) := by
  have heth : ethHeaderSize = 14 := rfl
  have hstart : l2FragEncStartOffset P = ethHeaderSize + P.nonceSize + 1 + fragTagSize := rfl
  simp only [layer2FragmentHeaderAccesses, allInBounds_cons, allInBounds_ite, allInBounds_nil,
    inBounds_bytes, not_or, not_lt]
  exact ⟨fun _ => trivial, fun h => ⟨.inr (by omega), fun _ => trivial,
    fun _ => ⟨.inr (by omega), trivial⟩⟩⟩

theorem ipv4HeaderAccesses_inBounds : AllInBounds pktLen (ipv4HeaderAccesses packet pktLen) := by
  have heth : ethHeaderSize = 14 := rfl
  simp only [ipv4HeaderAccesses, allInBounds_cons, allInBounds_ite, allInBounds_nil, inBounds_bytes,
    not_lt]
  exact ⟨fun _ => trivial, fun h => ⟨.inr (by omega), fun _ => trivial,
    fun _ => ⟨.inr (by omega), trivial⟩⟩⟩

theorem layer3HeaderAccesses_inBounds :
    AllInBounds pktLen (layer3HeaderAccesses P ctx packet pktLen) := by
  have heth : ethHeaderSize = 14 := rfl
  have hproto : ipv4ProtoOff = ethHeaderSize + 9 := rfl
  have hhdr : P.tunnelHdrSize = P.nonceSize + 2 := rfl
  simp only [layer3HeaderAccesses, allInBounds_append, allInBounds_ite, allInBounds_nil]
  refine ⟨fun _ => trivial, fun _ => ⟨ipv4HeaderAccesses_inBounds, ?_⟩⟩
  cases hihl : ipv4HdrLenAt packet pktLen ethHeaderSize with
  | none => exact allInBounds_nil
  | some ihl =>
    obtain ⟨-, hihl', -⟩ := ipv4HdrLenAt_eq_some_iff.mp hihl
    simp only [allInBounds_cons, allInBounds_ite, allInBounds_nil, inBounds_bytes, not_or, not_lt]
    exact ⟨fun _ => trivial, fun h => ⟨.inr (by omega), fun _ => trivial,
      fun _ => ⟨.inr (by omega), trivial⟩⟩⟩

theorem layer3FragmentHeaderAccesses_inBounds :
    AllInBounds pktLen (layer3FragmentHeaderAccesses P ctx packet pktLen) := by
  have heth : ethHeaderSize = 14 := rfl
  have hproto : ipv4ProtoOff = ethHeaderSize + 9 := rfl
  have hhdr : P.tunnelHdrSize = P.nonceSize + 2 := rfl
  simp only [layer3FragmentHeaderAccesses, allInBounds_append, allInBounds_ite, allInBounds_nil]
  refine ⟨fun _ => trivial, fun _ => ⟨ipv4HeaderAccesses_inBounds, ?_⟩⟩
  cases hihl : ipv4HdrLenAt packet pktLen ethHeaderSize with
  | none => exact allInBounds_nil
  | some ihl =>
    obtain ⟨-, hihl', hle⟩ := ipv4HdrLenAt_eq_some_iff.mp hihl
    simp only [allInBounds_cons, allInBounds_ite, allInBounds_nil, inBounds_bytes, not_lt]
    exact ⟨fun _ => trivial, fun _ => ⟨.inr (by omega), fun _ => trivial, fun _ =>
      ⟨fun _ => trivial, fun h => ⟨.inr (by omega), trivial⟩⟩⟩⟩

theorem ethIpv4OffsetAccesses_inBounds :
    AllInBounds pktLen (ethIpv4OffsetAccesses packet pktLen) := by
  simp only [ethIpv4OffsetAccesses, allInBounds_cons, allInBounds_ite, allInBounds_nil,
    inBounds_bytes, not_lt]
  exact ⟨fun _ => trivial, fun h => ⟨.inr (by omega), fun h₁₈ => ⟨.inr (by omega), fun h₂₂ =>
    ⟨.inr (by omega), trivial⟩, fun _ => trivial⟩, fun _ => trivial⟩⟩

theorem layer4HeaderAccesses_inBounds {hdrSize : ℕ} {tunnelBytes : ℕ → List Access}
    (htunnel : ∀ tunnelOff, tunnelOff + hdrSize ≤ pktLen →
      AllInBounds pktLen (tunnelBytes tunnelOff)) :
    AllInBounds pktLen (layer4HeaderAccesses ctx hdrSize tunnelBytes packet pktLen) := by
  simp only [layer4HeaderAccesses, allInBounds_append, allInBounds_ite, allInBounds_nil]
  refine ⟨fun _ => trivial, fun _ => ⟨ethIpv4OffsetAccesses_inBounds, ?_⟩⟩
  cases hoff : cryptoEthIpv4Offset packet pktLen with
  | none => exact allInBounds_nil
  | some l3Off =>
    simp only [allInBounds_cons, allInBounds_ite, allInBounds_nil, inBounds_bytes, not_or, not_lt]
    exact ⟨fun _ => trivial, fun h => ⟨.inr (by omega), fun _ => trivial, fun _ => ⟨.inr (by omega),
      fun _ => trivial, fun h' => htunnel _ h'.2⟩⟩⟩

theorem layer2DecryptHeader_le (h : layer2DecryptHeader P ctx packet pktLen = .ok ()) :
    l2EncStartOffset P ≤ pktLen := by
  unfold layer2DecryptHeader at h
  split_ifs at h with hif
  exact not_lt.mp fun hlt => hif (.inr hlt)

theorem layer2DecryptFragmentHeader_le
    (h : layer2DecryptFragmentHeader P ctx packet pktLen = some ()) :
    l2FragEncStartOffset P ≤ pktLen := by
  unfold layer2DecryptFragmentHeader at h
  split_ifs at h with hif
  rw [not_or, not_or, not_lt] at hif
  exact hif.2.1

theorem layer3DecryptFragmentHeader_le {ihl : ℕ}
    (h : layer3DecryptFragmentHeader P ctx packet pktLen = some ihl) :
    20 ≤ ihl ∧ ethHeaderSize + ihl + P.tunnelHdrSize + fragTagSize ≤ pktLen := by
  unfold layer3DecryptFragmentHeader at h
  cases hihl : ipv4HdrLenAt packet pktLen ethHeaderSize with
  | none =>
    rw [hihl] at h
    split_ifs at h
  | some ihl' =>
    simp only [hihl] at h
    split_ifs at h with htests hproto hlen hmagic
    obtain rfl := Option.some.inj h
    exact ⟨(ipv4HdrLenAt_eq_some_iff.mp hihl).2.1, not_lt.mp hlen⟩

theorem layer4DecryptFragmentHeader_le {l3Off ihl : ℕ}
    (h : layer4DecryptFragmentHeader P ctx packet pktLen = some (l3Off, ihl)) :
    20 ≤ ihl ∧ l3Off + ihl + l4WirePortLen + P.tunnelHdrSize + fragTagSize ≤ pktLen := by
  unfold layer4DecryptFragmentHeader at h
  split_ifs at h
  split at h
  · cases h
  · simp only at h
    split_ifs at h with htests hlen hmagic
    cases h
    rw [not_or, not_or, not_lt, not_lt] at htests
    exact ⟨htests.2.2, not_lt.mp hlen⟩

/-! ## The decoders -/

theorem cryptoLayer2DecryptFragmentAccesses_inBounds :
    AllInBounds pktLen (cryptoLayer2DecryptFragmentAccesses evp P ctx packet pktLen) := by
  have heth : ethHeaderSize = 14 := rfl
  have hft : fragTagSize = 4 := rfl
  have hstart : l2FragEncStartOffset P = ethHeaderSize + P.nonceSize + 1 + fragTagSize := rfl
  rw [cryptoLayer2DecryptFragmentAccesses, allInBounds_append]
  refine ⟨layer2FragmentHeaderAccesses_inBounds, ?_⟩
  cases hhdr : layer2DecryptFragmentHeader P ctx packet pktLen with
  | none => exact allInBounds_nil
  | some u =>
    have hle := layer2DecryptFragmentHeader_le hhdr
    simp only [allInBounds_cons, allInBounds_append, allInBounds_ite, allInBounds_nil, inBounds_bytes]
    refine ⟨.inr (by omega), .inr (by omega), openTunnelAccesses_inBounds (by omega) hle
      (fun _ => allInBounds_nil), fun hopen => ?_, fun _ => trivial⟩
    have hend := openTunnel_fits hle hopen
    exact moveAccesses_inBounds (by omega) (by omega)

theorem layer3FixTransportAccesses_inBounds {ihl decPktLen : ℕ} {origProto : UInt8}
    (h : decPktLen ≤ pktLen) (hihl : 20 ≤ ihl) :
    AllInBounds pktLen (layer3FixTransportAccesses ihl origProto decPktLen) := by
  simp only [layer3FixTransportAccesses, allInBounds_cons, allInBounds_ite, allInBounds_nil,
    inBounds_sub, inBounds_bytes, not_le]
  refine ⟨fun _ => trivial, fun hlt => ⟨fun _ => ⟨hlt.le, fun h₂₀ => ?_, fun _ => trivial⟩,
    fun _ => ⟨fun _ => ⟨hlt.le, fun h₈ => ?_, fun _ => trivial⟩, fun _ => trivial⟩⟩⟩
  · exact ⟨.inr (by omega), .inr (by omega), .inr (by omega), trivial⟩
  · exact ⟨.inr (by omega), .inr (by omega), .inr (by omega), trivial⟩

theorem cryptoLayer3DecryptAccesses_inBounds :
    AllInBounds pktLen (cryptoLayer3DecryptAccesses evp P ctx packet pktLen) := by
  have heth : ethHeaderSize = 14 := rfl
  have hproto : ipv4ProtoOff = ethHeaderSize + 9 := rfl
  have htotlen : ipv4TotlenOff = ethHeaderSize + 2 := rfl
  have htun : P.tunnelHdrSize = P.nonceSize + 2 := rfl
  rw [cryptoLayer3DecryptAccesses, allInBounds_append]
  refine ⟨layer3HeaderAccesses_inBounds, ?_⟩
  cases hhdr : layer3DecryptHeader P ctx packet pktLen with
  | error r => exact allInBounds_nil
  | ok ihl =>
    obtain ⟨-, -, hihl, hle, -⟩ := layer3DecryptHeader_eq_ok_iff.mp hhdr
    obtain ⟨-, hihl', -⟩ := ipv4HdrLenAt_eq_some_iff.mp hihl
    simp only [allInBounds_cons, allInBounds_append, allInBounds_ite, allInBounds_nil, inBounds_bytes,
      inBounds_sub]
    refine ⟨.inr (by omega), .inr (by omega), openTunnelAccesses_inBounds (by omega) hle
      (fun hend => ?_), fun hopen => ?_, fun _ => trivial⟩
    · unfold layer3VerifyAccesses
      cases P.mode with
      | gcm => exact allInBounds_nil
      | ctr =>
        simp only [allInBounds_ite, allInBounds_cons, allInBounds_nil, inBounds_bytes]
        exact ⟨fun h => ⟨.inr (by omega), trivial⟩, fun _ => trivial⟩
    · have hend := openTunnel_fits hle hopen
      exact ⟨moveAccesses_inBounds (by omega) (by omega), .inr (by omega), .inr (by omega),
        patchIpv4Accesses_inBounds hihl' (by omega), by omega,
        layer3FixTransportAccesses_inBounds (by omega) hihl'⟩

theorem cryptoLayer3DecryptFragmentAccesses_inBounds :
    AllInBounds pktLen (cryptoLayer3DecryptFragmentAccesses evp P ctx packet pktLen) := by
  have hft : fragTagSize = 4 := rfl
  have htun : P.tunnelHdrSize = P.nonceSize + 2 := rfl
  rw [cryptoLayer3DecryptFragmentAccesses, allInBounds_append]
  refine ⟨layer3FragmentHeaderAccesses_inBounds, ?_⟩
  cases hhdr : layer3DecryptFragmentHeader P ctx packet pktLen with
  | none => exact allInBounds_nil
  | some ihl =>
    obtain ⟨hihl, hle⟩ := layer3DecryptFragmentHeader_le hhdr
    simp only [allInBounds_cons, allInBounds_append, allInBounds_ite, allInBounds_nil, inBounds_bytes]
    refine ⟨.inr (by omega), openTunnelAccesses_inBounds (by omega) hle
      (fun _ => allInBounds_nil), fun hopen => ?_, fun _ => trivial⟩
    have hend := openTunnel_fits hle hopen
    exact ⟨moveAccesses_inBounds (by omega) (by omega), patchIpv4Accesses_inBounds hihl (by omega)⟩

theorem cryptoLayer4DecryptAccesses_inBounds :
    AllInBounds pktLen (cryptoLayer4DecryptAccesses evp P ctx packet pktLen) := by
  have htun : P.tunnelHdrSize = P.nonceSize + 2 := rfl
  rw [cryptoLayer4DecryptAccesses, allInBounds_append]
  refine ⟨layer4HeaderAccesses_inBounds fun off hoff => ?_, ?_⟩
  · simp only [allInBounds_cons, allInBounds_nil, inBounds_bytes]
    exact ⟨.inr (by omega), .inr (by omega), trivial⟩
  cases hhdr : layer4DecryptHeader P ctx packet pktLen with
  | error r => exact allInBounds_nil
  | ok hdr =>
    obtain ⟨l3Off, ihl⟩ := hdr
    obtain ⟨-, -, -, -, -, hihl, hle, -⟩ := layer4DecryptHeader_eq_ok_iff.mp hhdr
    simp only [allInBounds_append, allInBounds_ite, allInBounds_nil]
    refine ⟨openTunnelAccesses_inBounds (by omega) hle (fun _ => allInBounds_nil), fun hopen => ?_,
      fun _ => trivial⟩
    have hend := openTunnel_fits hle hopen
    exact ⟨moveAccesses_inBounds (by omega) (by omega), patchIpv4Accesses_inBounds hihl (by omega)⟩

theorem cryptoLayer4DecryptFragmentAccesses_inBounds :
    AllInBounds pktLen (cryptoLayer4DecryptFragmentAccesses evp P ctx packet pktLen) := by
  have hft : fragTagSize = 4 := rfl
  have htun : P.tunnelHdrSize = P.nonceSize + 2 := rfl
  rw [cryptoLayer4DecryptFragmentAccesses, allInBounds_append]
  refine ⟨layer4HeaderAccesses_inBounds fun off hoff => ?_, ?_⟩
  · simp only [allInBounds_cons, allInBounds_nil, inBounds_bytes]
    exact ⟨.inr (by omega), trivial⟩
  cases hhdr : layer4DecryptFragmentHeader P ctx packet pktLen with
  | none => exact allInBounds_nil
  | some hdr =>
    obtain ⟨l3Off, ihl⟩ := hdr
    obtain ⟨hihl, hle⟩ := layer4DecryptFragmentHeader_le hhdr
    simp only [allInBounds_cons, allInBounds_append, allInBounds_ite, allInBounds_nil, inBounds_bytes]
    refine ⟨.inr (by omega), openTunnelAccesses_inBounds (by omega) hle
      (fun _ => allInBounds_nil), fun hopen => ?_, fun _ => trivial⟩
    have hend := openTunnel_fits hle hopen
    exact ⟨moveAccesses_inBounds (by omega) (by omega), patchIpv4Accesses_inBounds hihl (by omega)⟩

/-! ## The plaintext of `crypto_layer2_decrypt` -/

/-- The tag is taken for the end of an ethertype: in GCM mode the frame has no ciphertext and its tag
begins with `0x0800`, or it has one byte of ciphertext that opens to `0x08` and the tag begins with
`0x00`. -/
def TagEndsEthertype (evp : Evp) (P : CryptoParams) (ctx : PacketCryptoCtx) (packet : Packet)
    (pktLen : ℕ) : Prop :=
  let workPtr := l2EncStartOffset P
  P.mode = .gcm ∧ layer2DecryptHeader P ctx packet pktLen = .ok () ∧
    ((pktLen = workPtr + 16 ∧ packet workPtr = 0x08 ∧ packet (workPtr + 1) = 0x00) ∨
      (pktLen = workPtr + 17 ∧ packet (workPtr + 1) = 0x00 ∧
        evp.aesGcmOpen P.aesBits ((packetCryptoGetKey ctx .current).val.take P.aesBits.keySize)
          (packet.slice ethHeaderSize P.nonceSize) [packet workPtr] (packet.slice (workPtr + 1) 16) =
            (true, [0x08])))

theorem layer2Verify_ctr_length {payload : List UInt8} (hmode : P.mode = .ctr)
    (h : layer2Verify P payload = true) : 20 ≤ payload.length := by
  unfold layer2Verify verifyIpv4AfterDecrypt at h
  simp only [hmode] at h
  split_ifs at h with hlen
  omega

theorem openTunnel_current (hlen : P.tagSize ≤ pktLen - encOff) :
    openTunnel evp P ctx [.current] verify packet pktLen nonceOff encOff =
      let encLen := cipherLen P pktLen encOff
      let r := tryKey evp P ctx .current (packet.slice nonceOff P.nonceSize)
        (packet.slice (encOff + encLen) P.tagSize) encOff encLen packet
      (r.1 && verify r.2, packet.write encOff r.2) := by
  unfold openTunnel
  rw [if_neg (by omega)]
  simp only [tryKeys, restoreBackup_zero]
  split_ifs with hok
  · rw [hok]
  · rw [Bool.not_eq_true] at hok
    rw [hok]

/-- An opened frame has two bytes behind its nonce: those of the tag, or of a plaintext with 20. -/
theorem two_le_of_openTunnel (hle : l2EncStartOffset P ≤ pktLen)
    (h : (openTunnel evp P ctx [.current] (layer2Verify P) packet pktLen ethHeaderSize
      (l2EncStartOffset P)).1 = true) : l2EncStartOffset P + 2 ≤ pktLen := by
  have htag := le_of_openTunnel h
  cases hmode : P.mode with
  | gcm =>
    rw [show P.tagSize = 16 from CryptoParams.tagSize_of_gcm hmode] at htag
    omega
  | ctr =>
    rw [openTunnel_current htag] at h
    have hlong := layer2Verify_ctr_length hmode (Bool.and_eq_true_iff.mp h).2
    unfold tryKey at hlong
    rw [length_decryptPayload, Buffer.length_slice, cipherLen] at hlong
    omega

/-- **Fewer than two bytes.** The decoder finds the ethertype in front of such a plaintext only if the
tag ends it. -/
theorem shortPlaintext_iff :
    TagEndsEthertype evp P ctx packet pktLen ↔
      layer2DecryptHeader P ctx packet pktLen = .ok () ∧
        let workPtr := l2EncStartOffset P
        let r := openTunnel evp P ctx [.current] (layer2Verify P) packet pktLen ethHeaderSize workPtr
        r.1 = true ∧ cipherLen P pktLen workPtr < 2 ∧ r.2 workPtr = 0x08 ∧
          r.2 (workPtr + 1) = 0x00 := by
  have heth : ethHeaderSize = 14 := rfl
  have hstart : l2EncStartOffset P = ethHeaderSize + P.nonceSize := rfl
  have hheader := @layer2DecryptHeader_le P ctx packet pktLen
  simp only [TagEndsEthertype]
  generalize l2EncStartOffset P = workPtr at *
  have hone : packet.slice workPtr 1 = [packet workPtr] := rfl
  constructor
  · rintro ⟨hmode, hhdr, hcase⟩
    have htag : P.tagSize = 16 := CryptoParams.tagSize_of_gcm hmode
    have hverify : ∀ payload, layer2Verify P payload = true := by
      intro payload
      unfold layer2Verify
      rw [hmode]
    refine ⟨hhdr, ?_⟩
    rcases hcase with ⟨hlen, hfirst, hsecond⟩ | ⟨hlen, hsecond, hopen⟩
    · rw [openTunnel_empty hmode (by omega) (hverify [])]
      exact ⟨rfl, by unfold cipherLen; omega, hfirst, hsecond⟩
    · have henc : cipherLen P pktLen workPtr = 1 := by
        unfold cipherLen
        omega
      have hkey : tryKey evp P ctx .current (packet.slice ethHeaderSize P.nonceSize)
          (packet.slice (workPtr + 1) P.tagSize) workPtr 1 packet = (true, [0x08]) := by
        unfold tryKey decryptPayload
        rw [hmode, hone, htag]
        exact hopen
      rw [openTunnel_current (by omega), henc]
      simp only [hkey, hverify, Bool.and_self, true_and]
      refine ⟨by omega, ?_, ?_⟩
      · exact List.singleton_inj.mp (Buffer.slice_write_self packet workPtr (l := [0x08]) rfl)
      · rw [Buffer.write_of_ge (by simp)]
        exact hsecond
  · rintro ⟨hhdr, hok, henc, hfirst, hsecond⟩
    have htag := le_of_openTunnel hok
    rw [openTunnel_current htag] at hok hfirst hsecond
    simp only at hok hfirst hsecond
    rw [Bool.and_eq_true_iff] at hok
    obtain ⟨hopen, hverify⟩ := hok
    have hlen : (tryKey evp P ctx .current (packet.slice ethHeaderSize P.nonceSize)
        (packet.slice (workPtr + cipherLen P pktLen workPtr) P.tagSize) workPtr
        (cipherLen P pktLen workPtr) packet).2.length = cipherLen P pktLen workPtr := by
      unfold tryKey
      rw [length_decryptPayload, Buffer.length_slice]
    cases hmode : P.mode with
    | ctr =>
      have := layer2Verify_ctr_length hmode hverify
      omega
    | gcm =>
      have hle := hheader hhdr
      have htag' : P.tagSize = 16 := CryptoParams.tagSize_of_gcm hmode
      have htotal : cipherLen P pktLen workPtr + 16 = pktLen - workPtr := by
        unfold cipherLen
        omega
      refine ⟨rfl, hhdr, ?_⟩
      generalize cipherLen P pktLen workPtr = encLen at *
      obtain rfl | rfl : encLen = 0 ∨ encLen = 1 := by omega
      · refine .inl ⟨by omega, ?_, ?_⟩
        · rwa [Buffer.write_of_ge (by omega)] at hfirst
        · rwa [Buffer.write_of_ge (by omega)] at hsecond
      · refine .inr ⟨by omega, ?_, ?_⟩
        · rwa [Buffer.write_of_ge (by omega)] at hsecond
        · have hplain := Buffer.slice_write_self packet workPtr hlen
          have hcell : ∀ q : Packet, q.slice workPtr 1 = [q workPtr] := fun _ => rfl
          rw [hcell, hfirst] at hplain
          have hkey : tryKey evp P ctx .current (packet.slice ethHeaderSize P.nonceSize)
              (packet.slice (workPtr + 1) P.tagSize) workPtr 1 packet = (true, [0x08]) :=
            Prod.ext hopen hplain.symm
          unfold tryKey decryptPayload at hkey
          rw [hmode, hone, htag'] at hkey
          exact hkey

theorem cryptoLayer2DecryptAccesses_inBounds_iff :
    AllInBounds pktLen (cryptoLayer2DecryptAccesses evp P ctx packet pktLen) ↔
      ¬ TagEndsEthertype evp P ctx packet pktLen := by
  have heth : ethHeaderSize = 14 := rfl
  have hstart : l2EncStartOffset P = ethHeaderSize + P.nonceSize := rfl
  rw [cryptoLayer2DecryptAccesses, allInBounds_append, and_iff_right layer2HeaderAccesses_inBounds,
    shortPlaintext_iff]
  cases hhdr : layer2DecryptHeader P ctx packet pktLen with
  | error r => exact iff_of_true allInBounds_nil fun h => by cases h.1
  | ok u =>
    have hle := layer2DecryptHeader_le hhdr
    rw [and_iff_right rfl]
    simp only [allInBounds_cons, allInBounds_append, allInBounds_ite, allInBounds_nil, inBounds_bytes,
      inBounds_sub]
    constructor
    · rintro ⟨-, -, -, -, h⟩ ⟨hopen, hshort, hfirst, hsecond⟩
      have htag := le_of_openTunnel hopen
      have := ((h (by omega)).2.2.1 hopen).2.2.1 ⟨hfirst, hsecond⟩
      omega
    · intro hnot
      refine ⟨.inr (by omega), .inr (by omega), cipherLenAccesses_inBounds hle, fun _ => trivial,
        fun htag => ?_⟩
      have hend : l2EncStartOffset P + cipherLen P pktLen (l2EncStartOffset P) + P.tagSize = pktLen := by
        unfold cipherLen
        omega
      refine ⟨.inr (by omega), ?_, fun hopen => ?_, fun _ => trivial⟩
      · unfold layer2VerifyAccesses
        cases P.mode with
        | gcm => exact allInBounds_nil
        | ctr =>
          simp only [allInBounds_ite, allInBounds_cons, allInBounds_nil, inBounds_bytes]
          exact ⟨fun _ => trivial, fun h₂₀ => ⟨.inr (by omega), trivial⟩⟩
      · refine ⟨.inr (two_le_of_openTunnel hle hopen), .inr (by omega), fun hmarker => ?_,
          fun _ => ?_⟩
        · have hlong : 2 ≤ cipherLen P pktLen (l2EncStartOffset P) := by
            by_contra hshort
            exact hnot ⟨hopen, by omega, hmarker⟩
          rw [usub_of_le hlong]
          exact ⟨hlong, moveAccesses_inBounds (by omega) (by omega)⟩
        · exact moveAccesses_inBounds (by omega) (by omega)

/-! ## All of them -/

/-- The subtractions and the ranges of the packet. -/
def Decoder.accesses (d : Decoder) (evp : Evp) (P : CryptoParams) (ctx : PacketCryptoCtx)
    (packet : Packet) (pktLen : ℕ) : List Access :=
  match d with
  | layer2 => cryptoLayer2DecryptAccesses evp P ctx packet pktLen
  | layer3 => cryptoLayer3DecryptAccesses evp P ctx packet pktLen
  | layer4 => cryptoLayer4DecryptAccesses evp P ctx packet pktLen
  | layer2Fragment => cryptoLayer2DecryptFragmentAccesses evp P ctx packet pktLen
  | layer3Fragment => cryptoLayer3DecryptFragmentAccesses evp P ctx packet pktLen
  | layer4Fragment => cryptoLayer4DecryptFragmentAccesses evp P ctx packet pktLen

/-- The length that is returned, before it becomes an `int`. -/
def Decoder.result (d : Decoder) (evp : Evp) (P : CryptoParams) (ctx : PacketCryptoCtx)
    (packet : Packet) (pktLen : ℕ) : ℤ :=
  match d with
  | layer2 => (cryptoLayer2Decrypt evp P ctx packet pktLen).1
  | layer3 => (cryptoLayer3Decrypt evp P ctx packet pktLen).1
  | layer4 => (cryptoLayer4Decrypt evp P ctx packet pktLen).1
  | layer2Fragment =>
    ((cryptoLayer2DecryptFragment evp P ctx packet pktLen).map fun f => (f.len : ℤ)).getD (-1)
  | layer3Fragment =>
    ((cryptoLayer3DecryptFragment evp P ctx packet pktLen).map fun f => (f.len : ℤ)).getD (-1)
  | layer4Fragment =>
    ((cryptoLayer4DecryptFragment evp P ctx packet pktLen).map fun f => (f.len : ℤ)).getD (-1)

def toCInt (n : ℤ) : ℤ := n.bmod (2 ^ 32)

/-- No subtraction wraps, no byte is outside, and `-1` or a length that is not longer is returned. -/
def DecoderSafe (d : Decoder) (evp : Evp) (P : CryptoParams) (ctx : PacketCryptoCtx)
    (packet : Packet) (pktLen : ℕ) : Prop :=
  AllInBounds pktLen (d.accesses evp P ctx packet pktLen) ∧
    (toCInt (d.result evp P ctx packet pktLen) = -1 ∨
      toCInt (d.result evp P ctx packet pktLen) ≤ pktLen)

theorem toCInt_le {n : ℤ} (h : 0 ≤ n) : toCInt n ≤ n := by
  have hcast : ((2 ^ 32 : ℕ) : ℤ) = 4294967296 := by norm_num
  unfold toCInt Int.bmod
  rw [hcast]
  simp only
  split_ifs <;> omega

theorem Decoder.result_le (d : Decoder) :
    d.result evp P ctx packet pktLen = -1 ∨
      0 ≤ d.result evp P ctx packet pktLen ∧ d.result evp P ctx packet pktLen ≤ pktLen := by
  have hlength : ∀ {r : ℤ} {m : ℕ}, (r = -1 ∨ r = pktLen ∨ r = ↑(pktLen - m)) →
      r = -1 ∨ 0 ≤ r ∧ r ≤ pktLen := by omega
  have hfragment : ∀ {o : Option DecryptedFragment}, (∀ f, o = some f → f.len ≤ pktLen) →
      (o.map fun f => (f.len : ℤ)).getD (-1) = -1 ∨
        0 ≤ (o.map fun f => (f.len : ℤ)).getD (-1) ∧
          (o.map fun f => (f.len : ℤ)).getD (-1) ≤ pktLen := by
    intro o ho
    cases o with
    | none => exact .inl rfl
    | some f => exact .inr ⟨Int.natCast_nonneg _, Int.ofNat_le.mpr (ho f rfl)⟩
  cases d with
  | layer3 => exact hlength (returnsLength_l3 evp P ctx packet pktLen)
  | layer4 => exact hlength (returnsLength_l4 evp P ctx packet pktLen)
  | layer2 =>
    show (cryptoLayer2Decrypt evp P ctx packet pktLen).1 = -1 ∨ 0 ≤ (cryptoLayer2Decrypt evp P ctx
      packet pktLen).1 ∧ (cryptoLayer2Decrypt evp P ctx packet pktLen).1 ≤ pktLen
    have hstart : l2EncStartOffset P = ethHeaderSize + P.nonceSize := rfl
    unfold cryptoLayer2Decrypt
    cases hhdr : layer2DecryptHeader P ctx packet pktLen with
    | error r =>
      have := layer2DecryptHeader_error hhdr
      simp only
      omega
    | ok u =>
      have hle := layer2DecryptHeader_le hhdr
      simp only [cipherLen]
      split_ifs
      · exact .inr ⟨Int.natCast_nonneg _, Int.ofNat_le.mpr (by omega)⟩
      · exact .inr ⟨Int.natCast_nonneg _, Int.ofNat_le.mpr (by omega)⟩
      · exact .inl rfl
  | layer2Fragment =>
    refine hfragment fun f hf => ?_
    unfold cryptoLayer2DecryptFragment at hf
    cases hhdr : layer2DecryptFragmentHeader P ctx packet pktLen with
    | none => rw [hhdr] at hf; cases hf
    | some u =>
      have hle := layer2DecryptFragmentHeader_le hhdr
      have hstart : l2FragEncStartOffset P = ethHeaderSize + P.nonceSize + 1 + fragTagSize := rfl
      simp only [hhdr, cipherLen] at hf
      split_ifs at hf
      obtain rfl := (Option.some.inj hf).symm
      simp only
      omega
  | layer3Fragment =>
    refine hfragment fun f hf => ?_
    unfold cryptoLayer3DecryptFragment at hf
    cases hhdr : layer3DecryptFragmentHeader P ctx packet pktLen with
    | none => rw [hhdr] at hf; cases hf
    | some ihl =>
      have hle := (layer3DecryptFragmentHeader_le hhdr).2
      simp only [hhdr, cipherLen] at hf
      split_ifs at hf
      obtain rfl := (Option.some.inj hf).symm
      simp only
      omega
  | layer4Fragment =>
    refine hfragment fun f hf => ?_
    unfold cryptoLayer4DecryptFragment at hf
    cases hhdr : layer4DecryptFragmentHeader P ctx packet pktLen with
    | none => rw [hhdr] at hf; cases hf
    | some hdr =>
      obtain ⟨l3Off, ihl⟩ := hdr
      have hle := (layer4DecryptFragmentHeader_le hhdr).2
      simp only [hhdr, cipherLen] at hf
      split_ifs at hf
      obtain rfl := (Option.some.inj hf).symm
      simp only
      omega

/-- **The decoders and the length of the packet.** Every decoder is safe on every packet of every
length, except for `crypto_layer2_decrypt` on a frame whose tag ends an ethertype. -/
theorem decoderSafe_iff (d : Decoder) :
    DecoderSafe d evp P ctx packet pktLen ↔
      ¬ (d = .layer2 ∧ TagEndsEthertype evp P ctx packet pktLen) := by
  have hresult : toCInt (d.result evp P ctx packet pktLen) = -1 ∨
      toCInt (d.result evp P ctx packet pktLen) ≤ pktLen := by
    rcases @Decoder.result_le evp P ctx packet pktLen d with h | ⟨hpos, hle⟩
    · rw [h]
      exact .inl rfl
    · exact .inr ((toCInt_le hpos).trans hle)
  rw [DecoderSafe, and_iff_left hresult]
  cases d with
  | layer2 =>
    rw [and_iff_right rfl]
    exact cryptoLayer2DecryptAccesses_inBounds_iff
  | layer3 => exact iff_of_true cryptoLayer3DecryptAccesses_inBounds fun h => by cases h.1
  | layer4 => exact iff_of_true cryptoLayer4DecryptAccesses_inBounds fun h => by cases h.1
  | layer2Fragment =>
    exact iff_of_true cryptoLayer2DecryptFragmentAccesses_inBounds fun h => by cases h.1
  | layer3Fragment =>
    exact iff_of_true cryptoLayer3DecryptFragmentAccesses_inBounds fun h => by cases h.1
  | layer4Fragment =>
    exact iff_of_true cryptoLayer4DecryptFragmentAccesses_inBounds fun h => by cases h.1

end

/-- The frame of a layer-2 packet with an empty ciphertext and a tag that begins with `0x0800`. -/
def ethertypeTagFrame : Packet :=
  packetOf [2, 0, 0, 0, 0, 2, 2, 0, 0, 0, 0, 1, 0x88, 7, 0, 0, 0, 0, 0, 0, 0, 0, 0, 0, 0, 0, 8, 0]

/-- On it `memmove` gets `0 - 2` as its length. -/
theorem not_decoderSafe_ethertypeTag :
    sub 0 2 ∈ Decoder.layer2.accesses (sampleEvp []) (sampleParams .gcm) (sampleCtx Key.zero)
        ethertypeTagFrame 42 ∧
      ¬ DecoderSafe .layer2 (sampleEvp []) (sampleParams .gcm) (sampleCtx Key.zero)
        ethertypeTagFrame 42 := by
  have htag : TagEndsEthertype (sampleEvp []) (sampleParams .gcm) (sampleCtx Key.zero)
      ethertypeTagFrame 42 := ⟨rfl, by decide, .inl ⟨rfl, by decide, by decide⟩⟩
  exact ⟨by decide, fun h => cryptoLayer2DecryptAccesses_inBounds_iff.mp h.1 htag⟩

end NetEncryptor

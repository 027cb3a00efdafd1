import NetEncryptor.Crypto.Tunnel

/-!
# Layer 3: encrypting the IP payload

`crypto_layer3.c`.  The encoder replaces the payload of an IPv4 packet by a tunnel header (nonce,
policy id, original protocol), the ciphertext and the tag, and gives the packet the fake protocol
number.  The decoder undoes this and recomputes the transport checksum over everything that
follows the IP header in the frame.  A fragment has `0x5C` in place of the protocol and a tag with
packet id and index behind the tunnel header.

Each function is cut in two: the tests on the header (`layer3EncryptHeader`, …), which end either
with the value returned at once or with the header length, and the rest.
-/

namespace NetEncryptor

def minEthPkt : ℕ := ethHeaderSize + 8

def cryptoL3FragMagic : UInt8 := 0x5C

/-- `CRYPTO_L2_FRAG_TAG_SIZE`, `CRYPTO_L3_FRAG_TAG_SIZE` and `FRAG_L4_HDR_SIZE`. -/
def fragTagSize : ℕ := 4

theorem l3PatchIpv4_of_ne {packet : Packet} {ipHdrLen ipTotal j : ℕ} (h₁₆ : j ≠ 16) (h₁₇ : j ≠ 17)
    (h₂₄ : j ≠ 24) (h₂₅ : j ≠ 25) : l3PatchIpv4 packet ipHdrLen ipTotal j = packet j :=
  patchIpv4_of_ne h₁₆ h₁₇ h₂₄ h₂₅

@[simp] theorem be16_l3PatchIpv4_totlen (packet : Packet) (ipHdrLen ipTotal : ℕ) :
    (l3PatchIpv4 packet ipHdrLen ipTotal).be16 ipv4TotlenOff = ipTotal % 65536 :=
  be16_patchIpv4_totlen packet ethHeaderSize ipHdrLen ipTotal

/-! ## Fragment tags -/

/-- `l2_write_frag_tag`, `l3_write_frag_tag` and `l4_write_frag_tag`. -/
def writeFragTag (packet : Packet) (off pktId : ℕ) (fragIndex : UInt8) : Packet :=
  packet.write off [UInt8.ofNat (pktId / 256), UInt8.ofNat pktId, fragIndex, 0]

def readFragPktId (packet : Packet) (off : ℕ) : ℕ := packet.be16 off

def readFragIndex (packet : Packet) (off : ℕ) : UInt8 := packet (off + 2)

/-- What a fragment decoder returns: the length, the frame, the packet id and the index. -/
structure DecryptedFragment where
  len : ℕ
  packet : Packet
  pktId : ℕ
  fragIndex : UInt8

/-! ## Whole packets -/

/-- The big-endian word at index `i` of a list. -/
def wordAt (l : List UInt8) (i : ℕ) : ℕ := 256 * (l.getD i 0).toNat + (l.getD (i + 1) 0).toNat

def verifyDecryptedPayload (payload : List UInt8) (origProto : UInt8) : Bool :=
  if origProto = 6 ∨ origProto = 17 then
    if payload.length < 4 then false
    else !(wordAt payload 0 == 0 && wordAt payload 2 == 0)
  else true

section

variable (evp : Evp) (P : CryptoParams) (ctx : PacketCryptoCtx)

def layer3EncryptHeader (packet : Packet) (pktLen : ℕ) : Except ℤ ℕ :=
  if ctx.initialized = false ∨ pktLen < minEthPkt then .error (-1)
  else if ¬ pktIsIpv4 packet pktLen then .error pktLen
  else
    match ipv4HdrLenAt packet pktLen ethHeaderSize with
    | none => .error (-1)
    | some ipHdrLen =>
      let tunnelOff := ethHeaderSize + ipHdrLen
      if tunnelOff + P.nonceSize + 2 ≤ pktLen ∧
          packet (tunnelOff + P.nonceSize + 1) = cryptoL3FragMagic then .error pktLen
      else .ok ipHdrLen

/-- `counter` is what `packet_crypto_next_counter` returned to this call. -/
def cryptoLayer3Encrypt (counter : ℕ) (packet : Packet) (pktLen : ℕ) : ℤ × Packet :=
  match layer3EncryptHeader P ctx packet pktLen with
  | .error r => (r, packet)
  | .ok ipHdrLen =>
    let tunnelOff := ethHeaderSize + ipHdrLen
    let origProto := packet ipv4ProtoOff
    let payloadLen := pktLen - tunnelOff
    let nonce := cryptoGenerateNonce P counter protoFlagIpv4
    let key := packetCryptoGetKey ctx .current
    let r := encapsulate evp P key nonce packet tunnelOff payloadLen
    if r.1 then
      let packet := cryptoWriteL3TunnelHeader r.2 tunnelOff nonce P.nonceSize P.policyId origProto
      let packet := packet.set ipv4ProtoOff P.fakeProtocol
      let totalOverhead := P.tunnelHdrSize + P.tagSize
      let oldTotlen := packet.be16 ipv4TotlenOff
      (↑(pktLen + totalOverhead), l3PatchIpv4 packet ipHdrLen (oldTotlen + totalOverhead))
    else (-1, r.2)

def layer3DecryptHeader (packet : Packet) (pktLen : ℕ) : Except ℤ ℕ :=
  if ctx.initialized = false ∨ pktLen < minEthPkt then .error (-1)
  else if ¬ pktIsIpv4 packet pktLen then .error pktLen
  else
    match ipv4HdrLenAt packet pktLen ethHeaderSize with
    | none => .error pktLen
    | some ipHdrLen =>
      let tunnelOff := ethHeaderSize + ipHdrLen
      if pktLen < tunnelOff + P.tunnelHdrSize then .error pktLen
      else if packet (tunnelOff + P.nonceSize + 1) = cryptoL3FragMagic then .error pktLen
      else if packet ipv4ProtoOff ≠ P.fakeProtocol then .error pktLen
      else .ok ipHdrLen

/-- The plaintext check, which only CTR mode makes. -/
def layer3Verify (origProto : UInt8) (payload : List UInt8) : Bool :=
  match P.mode with
  | .gcm => true
  | .ctr => verifyDecryptedPayload payload origProto

/-- Recompute the TCP or UDP checksum of the `segLen` bytes behind the IP header. -/
def layer3FixTransportCksum (packet : Packet) (ipHdrLen : ℕ) (origProto : UInt8) (segLen : ℕ) :
    Packet :=
  let off := ethHeaderSize + ipHdrLen
  if origProto = 6 then
    if 20 ≤ segLen then
      let packet := packet.put16 (off + 16) 0
      packet.put16 (off + 16)
        (cryptoCalcTcpChecksum (packet.shift ethHeaderSize) ipHdrLen (packet.shift off) segLen)
    else packet
  else if origProto = 17 then
    if 8 ≤ segLen then
      let packet := packet.put16 (off + 6) 0
      packet.put16 (off + 6)
        (cryptoCalcUdpChecksum (packet.shift ethHeaderSize) ipHdrLen (packet.shift off) segLen)
    else packet
  else packet

def cryptoLayer3Decrypt (packet : Packet) (pktLen : ℕ) : ℤ × Packet :=
  match layer3DecryptHeader P ctx packet pktLen with
  | .error r => (r, packet)
  | .ok ipHdrLen =>
    let tunnelOff := ethHeaderSize + ipHdrLen
    let encOff := tunnelOff + P.tunnelHdrSize
    let origProto := packet (tunnelOff + P.nonceSize + 1)
    let packet := packet.set ipv4ProtoOff origProto
    let r := openTunnel evp P ctx keyOrder (layer3Verify P origProto) packet pktLen tunnelOff encOff
    if r.1 then
      let packet := r.2.copy tunnelOff r.2 encOff (cipherLen P pktLen encOff)
      let packet := packet.set ipv4ProtoOff origProto
      let totalOverhead := P.tunnelHdrSize + P.tagSize
      let oldTotlen := packet.be16 ipv4TotlenOff
      let packet := l3PatchIpv4 packet ipHdrLen (oldTotlen + 65536 - totalOverhead % 65536)
      (↑(pktLen - totalOverhead),
        layer3FixTransportCksum packet ipHdrLen origProto (pktLen - totalOverhead - tunnelOff))
    else (-1, r.2)

/-! ## Fragments -/

/-- The fragment before its plaintext, which stands behind tunnel header and fragment tag, is
encrypted. -/
def layer3FragmentPlain (nonce : List UInt8) (ethHdr ipHdr : Packet) (ipHdrLen : ℕ)
    (encPlain : Packet) (encPlainLen pktId : ℕ) (fragIndex : UInt8) (outBuf : Packet) : Packet :=
  let tunnelOff := ethHeaderSize + ipHdrLen
  let outBuf := (outBuf.copy 0 ethHdr 0 ethHeaderSize).copy ethHeaderSize ipHdr 0 ipHdrLen
  let outBuf := outBuf.set ipv4ProtoOff P.fakeProtocol
  let outBuf :=
    cryptoWriteL3TunnelHeader outBuf tunnelOff nonce P.nonceSize P.policyId cryptoL3FragMagic
  let outBuf := writeFragTag outBuf (tunnelOff + P.tunnelHdrSize) pktId fragIndex
  outBuf.copy (tunnelOff + P.tunnelHdrSize + fragTagSize) encPlain 0 encPlainLen

/-- The `out_buf` and `*out_len` of a successful call; `none` stands for `-1`. -/
def cryptoLayer3EncryptFragmentSingle (counter : ℕ) (ethHdr ipHdr : Packet) (ipHdrLen : ℕ)
    (encPlain : Packet) (encPlainLen pktId : ℕ) (fragIndex : UInt8) (outBuf : Packet)
    (outMax : ℕ) : Option (Packet × ℕ) :=
  let encOff := ethHeaderSize + ipHdrLen + P.tunnelHdrSize + fragTagSize
  let need := encOff + encPlainLen + P.tagSize
  if ctx.initialized = false ∨ encPlainLen = 0 ∨ ipHdrLen < 20 ∨ outMax < need then none
  else
    let nonce := cryptoGenerateNonce P counter protoFlagIpv4
    let outBuf :=
      layer3FragmentPlain P nonce ethHdr ipHdr ipHdrLen encPlain encPlainLen pktId fragIndex outBuf
    let r := sealInPlace evp P (packetCryptoGetKey ctx .current) nonce outBuf encOff encPlainLen
    if r.1 then
      let ipPayloadLen := P.tunnelHdrSize + fragTagSize + encPlainLen + P.tagSize
      some (l3PatchIpv4 r.2 ipHdrLen (ipHdrLen + ipPayloadLen), need)
    else none

def layer3DecryptFragmentHeader (packet : Packet) (pktLen : ℕ) : Option ℕ :=
  if ctx.initialized = false ∨ ¬ pktIsIpv4 packet pktLen then none
  else
    match ipv4HdrLenAt packet pktLen ethHeaderSize with
    | none => none
    | some ipHdrLen =>
      let tunnelOff := ethHeaderSize + ipHdrLen
      if packet ipv4ProtoOff ≠ P.fakeProtocol then none
      else if pktLen < tunnelOff + P.tunnelHdrSize + fragTagSize then none
      else if packet (tunnelOff + P.nonceSize + 1) ≠ cryptoL3FragMagic then none
      else some ipHdrLen

def cryptoLayer3DecryptFragment (packet : Packet) (pktLen : ℕ) : Option DecryptedFragment :=
  match layer3DecryptFragmentHeader P ctx packet pktLen with
  | none => none
  | some ipHdrLen =>
    let tunnelOff := ethHeaderSize + ipHdrLen
    let tagOff := tunnelOff + P.tunnelHdrSize
    let encOff := tagOff + fragTagSize
    let r := openTunnel evp P ctx keyOrder (fun _ => true) packet pktLen tunnelOff encOff
    if r.1 then
      let encLen := cipherLen P pktLen encOff
      let out := r.2.copy tunnelOff r.2 encOff encLen
      some ⟨tunnelOff + encLen, l3PatchIpv4 out ipHdrLen (ipHdrLen + encLen),
        readFragPktId packet tagOff, readFragIndex packet tagOff⟩
    else none

def cryptoLayer3FragMetaLen : ℕ := P.tunnelHdrSize + fragTagSize + P.tagSize

end

end NetEncryptor

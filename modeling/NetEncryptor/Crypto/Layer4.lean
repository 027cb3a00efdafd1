import NetEncryptor.Crypto.Layer3

/-!
# Layer 4: encrypting behind the ports

`crypto_layer4.c`.  The encoder leaves the two ports where they are and replaces everything behind
them by a tunnel header (nonce, policy id, `0xA5`), the ciphertext and the tag; a fragment has
`0x5A` there.  Both directions set the IP total length from the length of the frame.
-/

namespace NetEncryptor

def l4WirePortLen : ℕ := 4

def cryptoL4TunnelMagic : UInt8 := 0xA5

def cryptoL4FragMagic : UInt8 := 0x5A

/-- The magic byte is there and the nonce's protocol flag is clear. -/
def l4IsTunnelHeader (packet : Packet) (off nonceSize : ℕ) : Prop :=
  packet (off + nonceSize + 1) = cryptoL4TunnelMagic ∧ (packet off).toNat < 128

instance (packet : Packet) (off nonceSize : ℕ) : Decidable (l4IsTunnelHeader packet off nonceSize) :=
  inferInstanceAs (Decidable (_ ∧ _))

section

variable (evp : Evp) (P : CryptoParams) (ctx : PacketCryptoCtx)

/-- The tests of `crypto_layer4_encrypt`; the offset of the IP header and its length. -/
def layer4EncryptHeader (packet : Packet) (pktLen : ℕ) : Except ℤ (ℕ × ℕ) :=
  if ctx.initialized = false then .error (-1)
  else
    match cryptoEthIpv4Offset packet pktLen with
    | none => .error pktLen
    | some l3Off =>
      let ipProto := packet (l3Off + 9)
      let ipHdrLen := ihlAt packet l3Off
      let transportOff := l3Off + ipHdrLen
      if pktLen < l3Off + 20 then .error (-1)
      else if ipProto ≠ 6 ∧ ipProto ≠ 17 then .error pktLen
      else if ipHdrLen < 20 then .error (-1)
      else if getTransportHdrSize (packet.shift transportOff) ipProto
          (usub pktLen transportOff) = none then .error pktLen
      else if usub pktLen (transportOff + l4WirePortLen) = 0 then .error pktLen
      else .ok (l3Off, ipHdrLen)

/-- `counter` is what `packet_crypto_next_counter` returned to this call. -/
def cryptoLayer4Encrypt (counter : ℕ) (packet : Packet) (pktLen : ℕ) : ℤ × Packet :=
  match layer4EncryptHeader ctx packet pktLen with
  | .error r => (r, packet)
  | .ok (l3Off, ipHdrLen) =>
    let plainOff := l3Off + ipHdrLen + l4WirePortLen
    let plainLen := usub pktLen plainOff
    let nonce := cryptoGenerateNonce P counter protoFlagIpv4
    let r := encapsulate evp P (packetCryptoGetKey ctx .current) nonce packet plainOff plainLen
    if r.1 then
      let packet :=
        cryptoWriteL3TunnelHeader r.2 plainOff nonce P.nonceSize P.policyId cryptoL4TunnelMagic
      let totalOverhead := P.tunnelHdrSize + P.tagSize
      let ipPayloadLen := l4WirePortLen + totalOverhead + plainLen
      (↑(pktLen + totalOverhead), l4FixIpv4TotlenAndCksum packet l3Off ipHdrLen ipPayloadLen)
    else (-1, r.2)

def layer4DecryptHeader (packet : Packet) (pktLen : ℕ) : Except ℤ (ℕ × ℕ) :=
  if ctx.initialized = false then .error (-1)
  else
    match cryptoEthIpv4Offset packet pktLen with
    | none => .error pktLen
    | some l3Off =>
      let ipProto := packet (l3Off + 9)
      let ipHdrLen := ihlAt packet l3Off
      let tunnelOff := l3Off + ipHdrLen + l4WirePortLen
      if pktLen < l3Off + 20 then .error (-1)
      else if ipProto ≠ 6 ∧ ipProto ≠ 17 then .error pktLen
      else if ipHdrLen < 20 then .error (-1)
      else if pktLen < tunnelOff + P.tunnelHdrSize ∨
          ¬ l4IsTunnelHeader packet tunnelOff P.nonceSize then .error pktLen
      else .ok (l3Off, ipHdrLen)

def cryptoLayer4Decrypt (packet : Packet) (pktLen : ℕ) : ℤ × Packet :=
  match layer4DecryptHeader P ctx packet pktLen with
  | .error r => (r, packet)
  | .ok (l3Off, ipHdrLen) =>
    let tunnelOff := l3Off + ipHdrLen + l4WirePortLen
    let encOff := tunnelOff + P.tunnelHdrSize
    let r := openTunnel evp P ctx keyOrder (fun _ => true) packet pktLen tunnelOff encOff
    if r.1 then
      let encLen := cipherLen P pktLen encOff
      let packet := r.2.copy tunnelOff r.2 encOff encLen
      (↑(tunnelOff + encLen),
        l4FixIpv4TotlenAndCksum packet l3Off ipHdrLen (l4WirePortLen + encLen))
    else (-1, r.2)

/-! ## Fragments -/

/-- The `out_buf` and `*out_len` of a successful call; `none` stands for `-1`. -/
def cryptoLayer4EncryptFragmentSingle (counter : ℕ) (ethHdr ipHdr : Packet) (ipHdrLen : ℕ)
    (wirePorts encPlain : Packet) (encPlainLen pktId : ℕ) (fragIndex : UInt8) (outBuf : Packet)
    (outMax : ℕ) : Option (Packet × ℕ) :=
  let tunnelOff := ethHeaderSize + ipHdrLen + l4WirePortLen
  let encOff := tunnelOff + P.tunnelHdrSize + fragTagSize
  let totalOverhead := P.tunnelHdrSize + fragTagSize + P.tagSize
  let need := tunnelOff + totalOverhead + encPlainLen
  if ctx.initialized = false ∨ encPlainLen = 0 ∨ outMax < need then none
  else
    let outBuf := (outBuf.copy 0 ethHdr 0 ethHeaderSize).copy ethHeaderSize ipHdr 0 ipHdrLen
    let outBuf := outBuf.copy (ethHeaderSize + ipHdrLen) wirePorts 0 l4WirePortLen
    let nonce := cryptoGenerateNonce P counter protoFlagIpv4
    let outBuf := outBuf.copy encOff encPlain 0 encPlainLen
    let outBuf :=
      cryptoWriteL3TunnelHeader outBuf tunnelOff nonce P.nonceSize P.policyId cryptoL4FragMagic
    let outBuf := writeFragTag outBuf (tunnelOff + P.tunnelHdrSize) pktId fragIndex
    let r := sealInPlace evp P (packetCryptoGetKey ctx .current) nonce outBuf encOff encPlainLen
    if r.1 then
      let ipPayloadLen := l4WirePortLen + totalOverhead + encPlainLen
      some (l4FixIpv4TotlenAndCksum r.2 ethHeaderSize ipHdrLen ipPayloadLen,
        encOff + encPlainLen + P.tagSize)
    else none

def layer4DecryptFragmentHeader (packet : Packet) (pktLen : ℕ) : Option (ℕ × ℕ) :=
  if ctx.initialized = false then none
  else
    match cryptoEthIpv4Offset packet pktLen with
    | none => none
    | some l3Off =>
      let ipProto := packet (l3Off + 9)
      let ipHdrLen := ihlAt packet l3Off
      let tunnelOff := l3Off + ipHdrLen + l4WirePortLen
      if pktLen < l3Off + 20 ∨ (ipProto ≠ 6 ∧ ipProto ≠ 17) ∨ ipHdrLen < 20 then none
      else if pktLen < tunnelOff + P.tunnelHdrSize + fragTagSize then none
      else if packet (tunnelOff + P.nonceSize + 1) ≠ cryptoL4FragMagic then none
      else some (l3Off, ipHdrLen)

def cryptoLayer4DecryptFragment (packet : Packet) (pktLen : ℕ) : Option DecryptedFragment :=
  match layer4DecryptFragmentHeader P ctx packet pktLen with
  | none => none
  | some (l3Off, ipHdrLen) =>
    let tunnelOff := l3Off + ipHdrLen + l4WirePortLen
    let tagOff := tunnelOff + P.tunnelHdrSize
    let encOff := tagOff + fragTagSize
    let r := openTunnel evp P ctx keyOrder (fun _ => true) packet pktLen tunnelOff encOff
    if r.1 then
      let encLen := cipherLen P pktLen encOff
      let out := r.2.copy tunnelOff r.2 encOff encLen
      some ⟨tunnelOff + encLen,
        l4FixIpv4TotlenAndCksum out l3Off ipHdrLen (l4WirePortLen + encLen),
        readFragPktId packet tagOff, readFragIndex packet tagOff⟩
    else none

end

end NetEncryptor

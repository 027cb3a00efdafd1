import NetEncryptor.Crypto.Layer3

/-!
# Layer 2: encrypting the whole IP packet

`crypto_layer2.c`.  The encoder replaces the ethertype by a marker byte and the policy id, puts the
nonce behind them and encrypts the IP packet.  A fragment has `0x5B` and a fragment tag between
nonce and ciphertext, in a place where a whole packet already has ciphertext.
-/

namespace NetEncryptor

def l2FragMagic : UInt8 := 0x5B

/-- The high byte of the fake ethertype. -/
def fakeMarker (P : CryptoParams) : UInt8 := UInt8.ofNat (P.fakeEthertypeIpv4.toNat / 256)

def l2HasFakeMarker (P : CryptoParams) (packet : Packet) : Prop :=
  P.fakeEthertypeIpv4 ≠ 0 ∧ packet 12 = fakeMarker P

instance (P : CryptoParams) (packet : Packet) : Decidable (l2HasFakeMarker P packet) :=
  inferInstanceAs (Decidable (_ ∧ _))

def l2EncStartOffset (P : CryptoParams) : ℕ := ethHeaderSize + P.nonceSize

def l2FragEncStartOffset (P : CryptoParams) : ℕ := ethHeaderSize + P.nonceSize + 1 + fragTagSize

/-- The plaintext looks like an IPv4 packet of a protocol that the program knows. -/
def verifyIpv4AfterDecrypt (ipPayload : List UInt8) : Bool :=
  if ipPayload.length < 20 then false
  else if ipPayload.getD 8 0 = 0 then false
  else decide (ipPayload.getD 9 0 ∈ ([1, 2, 6, 17, 47, 50, 51, 58, 89, 132] : List UInt8))

section

variable (evp : Evp) (P : CryptoParams) (ctx : PacketCryptoCtx)

def layer2EncryptHeader (packet : Packet) (pktLen : ℕ) : Except ℤ Unit :=
  if ctx.initialized = false ∨ pktLen < minEthPkt then .error (-1)
  else if ¬ pktIsIpv4Eth packet ∨ P.fakeEthertypeIpv4 = 0 then .error pktLen
  else .ok ()

/-- `counter` is what `packet_crypto_next_counter` returned to this call. -/
def cryptoLayer2Encrypt (counter : ℕ) (packet : Packet) (pktLen : ℕ) : ℤ × Packet :=
  match layer2EncryptHeader P ctx packet pktLen with
  | .error r => (r, packet)
  | .ok () =>
    let nonce := cryptoGenerateNonce P counter protoFlagIpv4
    let payloadLen := pktLen - ethHeaderSize
    let packet := packet.copy (l2EncStartOffset P) packet ethHeaderSize payloadLen
    let packet := cryptoWriteCounter packet nonce (fakeMarker P) P.policyId
    let r := sealInPlace evp P (packetCryptoGetKey ctx .current) nonce packet (l2EncStartOffset P)
      payloadLen
    if r.1 then (↑(pktLen + P.nonceSize + P.tagSize), r.2) else (-1, r.2)

def layer2DecryptHeader (packet : Packet) (pktLen : ℕ) : Except ℤ Unit :=
  if ctx.initialized = false ∨ pktLen < l2EncStartOffset P then .error (-1)
  else if ¬ l2HasFakeMarker P packet then .error pktLen
  else if ethHeaderSize + P.nonceSize + 1 ≤ pktLen ∧
      packet (ethHeaderSize + P.nonceSize) = l2FragMagic then .error pktLen
  else .ok ()

/-- The plaintext check, which only CTR mode makes. -/
def layer2Verify (payload : List UInt8) : Bool :=
  match P.mode with
  | .gcm => true
  | .ctr => verifyIpv4AfterDecrypt payload

/-- Only the current key is tried. -/
def cryptoLayer2Decrypt (packet : Packet) (pktLen : ℕ) : ℤ × Packet :=
  match layer2DecryptHeader P ctx packet pktLen with
  | .error r => (r, packet)
  | .ok () =>
    let workPtr := l2EncStartOffset P
    let encLen := cipherLen P pktLen workPtr
    let r := openTunnel evp P ctx [.current] (layer2Verify P) packet pktLen ethHeaderSize workPtr
    if r.1 then
      let packet := (r.2.set 12 0x08).set 13 0x00
      -- a plaintext that begins with an ethertype
      if r.2 workPtr = 0x08 ∧ r.2 (workPtr + 1) = 0x00 then
        (↑(ethHeaderSize + encLen - 2),
          packet.copy ethHeaderSize packet (workPtr + 2) (usub encLen 2))
      else (↑(ethHeaderSize + encLen), packet.copy ethHeaderSize packet workPtr encLen)
    else (-1, r.2)

/-! ## Fragments -/

/-- The `out_buf` and `*out_len` of a successful call; `none` stands for `-1`. -/
def cryptoLayer2EncryptFragmentSingle (counter : ℕ) (ethHdr encPlain : Packet)
    (encPlainLen pktId : ℕ) (fragIndex : UInt8) (outBuf : Packet) (outMax : ℕ) :
    Option (Packet × ℕ) :=
  let encOff := l2FragEncStartOffset P
  let need := encOff + encPlainLen + P.tagSize
  if ctx.initialized = false ∨ encPlainLen = 0 ∨ ¬ pktIsIpv4Eth ethHdr ∨ outMax < need ∨
      P.fakeEthertypeIpv4 = 0 then none
  else
    let nonce := cryptoGenerateNonce P counter protoFlagIpv4
    let outBuf := outBuf.copy 0 ethHdr 0 ethHeaderSize
    let outBuf := cryptoWriteCounter outBuf nonce (fakeMarker P) P.policyId
    let outBuf := outBuf.set (ethHeaderSize + P.nonceSize) l2FragMagic
    let outBuf := writeFragTag outBuf (ethHeaderSize + P.nonceSize + 1) pktId fragIndex
    let outBuf := outBuf.copy encOff encPlain 0 encPlainLen
    let r := sealInPlace evp P (packetCryptoGetKey ctx .current) nonce outBuf encOff encPlainLen
    if r.1 then some (r.2, need) else none

def layer2DecryptFragmentHeader (packet : Packet) (pktLen : ℕ) : Option Unit :=
  if ctx.initialized = false ∨ pktLen < l2FragEncStartOffset P ∨ ¬ l2HasFakeMarker P packet ∨
      packet (ethHeaderSize + P.nonceSize) ≠ l2FragMagic then none
  else some ()

def cryptoLayer2DecryptFragment (packet : Packet) (pktLen : ℕ) : Option DecryptedFragment :=
  match layer2DecryptFragmentHeader P ctx packet pktLen with
  | none => none
  | some () =>
    let tagOff := ethHeaderSize + P.nonceSize + 1
    let encOff := l2FragEncStartOffset P
    let r := openTunnel evp P ctx keyOrder (fun _ => true) packet pktLen ethHeaderSize encOff
    if r.1 then
      let encLen := cipherLen P pktLen encOff
      some ⟨ethHeaderSize + encLen, r.2.copy ethHeaderSize r.2 encOff encLen,
        readFragPktId packet tagOff, readFragIndex packet tagOff⟩
    else none

def cryptoLayer2FragMetaLen : ℕ := P.nonceSize + 1 + fragTagSize + P.tagSize

end

end NetEncryptor

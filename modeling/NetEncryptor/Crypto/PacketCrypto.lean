import NetEncryptor.Base.Words
import NetEncryptor.Crypto.Evp

/-!
# Packet encryption primitives

The thread's cipher parameters, the key contexts and their derivation, the nonce counter, nonces,
the AES wrappers, the tunnel headers and the checksums of `packet_crypto.c`.

A frame is a byte buffer with its length kept beside it.  `encryptPayload` and `decryptPayload`
are the `if (is_gcm) … else …` that every encoder and decoder makes around the AES wrappers;
`decryptPayload_encryptPayload` is all the layers need to know about the cipher.
-/

namespace NetEncryptor

open OnesComplement

abbrev Packet := Buffer UInt8

/-- The frame with the given bytes, and zeros behind them. -/
def packetOf (bytes : List UInt8) : Packet := fun i => bytes.getD i 0

def ethHeaderSize : ℕ := 14

def protoFlagIpv4 : ℕ := 0

/-- `uint8_t[AES_MAX_KEY_SIZE]`. -/
abbrev Key := { bytes : List UInt8 // bytes.length = 32 }

/-- `memset(key, 0, AES_MAX_KEY_SIZE)`. -/
def Key.zero : Key := ⟨List.replicate 32 0, rfl⟩

def Key.repeated (b : UInt8) : Key := ⟨List.replicate 32 b, List.length_replicate⟩

/-- `CRYPTO_MODE_CTR` and `CRYPTO_MODE_GCM`. -/
inductive CryptoMode
  | ctr
  | gcm
  deriving DecidableEq, Repr

/-- The thread-local parameters that the `packet_crypto_set_*` functions store, and the process's
fake ethertype. -/
structure CryptoParams where
  mode : CryptoMode
  nonceSize : ℕ
  aesBits : AesBits
  policyId : UInt8
  fakeProtocol : UInt8
  fakeEthertypeIpv4 : UInt16
  nonceSalt : { bytes : List UInt8 // bytes.length = 16 }

namespace CryptoParams

def tunnelHdrSize (P : CryptoParams) : ℕ := P.nonceSize + 2

/-- `is_gcm ? AES128_GCM_TAG_SIZE : 0`. -/
def tagSize (P : CryptoParams) : ℕ :=
  match P.mode with
  | .ctr => 0
  | .gcm => gcmTagSize

theorem tagSize_of_gcm {P : CryptoParams} (h : P.mode = .gcm) : P.tagSize = gcmTagSize := by
  unfold tagSize
  rw [h]

theorem tagSize_of_ctr {P : CryptoParams} (h : P.mode = .ctr) : P.tagSize = 0 := by
  unfold tagSize
  rw [h]

theorem tagSize_eq (P : CryptoParams) : P.tagSize = 0 ∨ P.tagSize = gcmTagSize := by
  cases h : P.mode with
  | ctr => exact .inl (tagSize_of_ctr h)
  | gcm => exact .inr (tagSize_of_gcm h)

theorem tagSize_le (P : CryptoParams) : P.tagSize ≤ 16 := by
  unfold tagSize
  cases P.mode <;> decide

/-- The nonce sizes that a policy can have. -/
def NonceSizeOk (P : CryptoParams) : Prop :=
  P.nonceSize = 4 ∨ P.nonceSize = 8 ∨ P.nonceSize = 12 ∨ P.nonceSize = 16

instance (P : CryptoParams) : Decidable P.NonceSizeOk := inferInstanceAs (Decidable (_ ∨ _))

theorem NonceSizeOk.pos {P : CryptoParams} (h : P.NonceSizeOk) : 0 < P.nonceSize := by
  rcases h with e | e | e | e <;> omega

theorem NonceSizeOk.le_sixteen {P : CryptoParams} (h : P.NonceSizeOk) : P.nonceSize ≤ 16 := by
  rcases h with e | e | e | e <;> omega

end CryptoParams

/-- The defaults of a policy, in one of the two modes. -/
def sampleParams (mode : CryptoMode) : CryptoParams where
  mode := mode
  nonceSize := 12
  aesBits := .aes128
  policyId := 7
  fakeProtocol := 99
  fakeEthertypeIpv4 := 0x88b5
  nonceSalt := ⟨List.replicate 16 0x5a, rfl⟩

/-! ## Key contexts -/

/-- `KEY_SLOT_PREV`, `KEY_SLOT_CURRENT` and `KEY_SLOT_NEXT`. -/
inductive KeySlot
  | prev
  | current
  | next
  deriving DecidableEq, Repr

structure PacketCryptoCtx where
  masterKey : Key
  keys : KeySlot → Key
  initialized : Bool

def PacketCryptoCtx.empty : PacketCryptoCtx := ⟨Key.zero, fun _ => Key.zero, false⟩

def sampleCtx (key : Key) : PacketCryptoCtx := ⟨key, fun _ => key, true⟩

def packetCryptoGetKey (ctx : PacketCryptoCtx) (slot : KeySlot) : Key := ctx.keys slot

/-- `memcpy` of `key_size` bytes into a zeroed key. -/
def Key.truncate (bits : AesBits) (key : Key) : Key :=
  ⟨key.val.take bits.keySize ++ List.replicate (32 - bits.keySize) 0, by
    cases bits <;> simp [AesBits.keySize, key.property]⟩

/-- The `epoch_buf` of `derive_key`, low byte first. -/
def epochBuf (epoch : ℕ) : List UInt8 :=
  (List.range 8).map fun i => UInt8.ofNat (epoch / 2 ^ (8 * i))

/-- HMAC-SHA256, from key and message. -/
abbrev Hmac := List UInt8 → List UInt8 → Key

def deriveKey (hmac : Hmac) (bits : AesBits) (master : Key) (epoch : ℕ) : Key :=
  (hmac (master.val.take bits.keySize) (epochBuf epoch)).truncate bits

/-- The context that `packet_crypto_init` leaves.  The counter reset is `packetCryptoResetCounter`. -/
def packetCryptoInit (hmac : Hmac) (bits : AesBits) (masterKey : Key) : PacketCryptoCtx where
  masterKey := masterKey.truncate bits
  keys _ := deriveKey hmac bits (masterKey.truncate bits) 0
  initialized := true

/-! ## Nonces -/

/-- `atomic_fetch_add(&g_nonce_counter, 1) & 0x7FFFFFFF`: the value returned and the counter
left.  `atomic_uint_fast32_t` has 64 bits. -/
def packetCryptoNextCounter (nonceCounter : ℕ) : ℕ × ℕ :=
  (nonceCounter % 2 ^ 31, (nonceCounter + 1) % 2 ^ 64)

/-- `atomic_store(&g_nonce_counter, 0)`. -/
def packetCryptoResetCounter : ℕ := 0

/-- The first `nonce_size` bytes of `out_nonce`, all that any caller reads: the counter, high byte
first, with the protocol flag as its top bit, and then the thread's salt. -/
def cryptoGenerateNonce (P : CryptoParams) (counter protoFlag : ℕ) : List UInt8 :=
  ([UInt8.ofNat (128 * protoFlag + counter / 2 ^ 24 % 128), UInt8.ofNat (counter / 2 ^ 16),
      UInt8.ofNat (counter / 2 ^ 8), UInt8.ofNat counter] ++
    P.nonceSalt.val.take (P.nonceSize - 4)).take P.nonceSize

/-- Pad a nonce with zeros to `AES128_IV_SIZE`. -/
def cryptoNonceToIv (nonce : List UInt8) : List UInt8 :=
  nonce ++ List.replicate (16 - nonce.length) 0

theorem length_cryptoGenerateNonce {P : CryptoParams} (h : P.NonceSizeOk) (counter flag : ℕ) :
    (cryptoGenerateNonce P counter flag).length = P.nonceSize := by
  have := P.nonceSalt.property
  unfold cryptoGenerateNonce
  simp only [List.length_take, List.length_append, List.length_cons, List.length_nil]
  rcases h with h | h | h | h <;> omega

theorem take_cryptoGenerateNonce {P : CryptoParams} (h : P.NonceSizeOk) (counter flag : ℕ) :
    (cryptoGenerateNonce P counter flag).take 4 =
      [UInt8.ofNat (128 * flag + counter / 2 ^ 24 % 128), UInt8.ofNat (counter / 2 ^ 16),
        UInt8.ofNat (counter / 2 ^ 8), UInt8.ofNat counter] := by
  unfold cryptoGenerateNonce
  rw [List.take_take, show min 4 P.nonceSize = 4 by rcases h with h | h | h | h <;> omega]
  rfl

/-- Nonces of different counters differ, whatever their salts and sizes are. -/
theorem cryptoGenerateNonce_injective {P Q : CryptoParams} (hP : P.NonceSizeOk)
    (hQ : Q.NonceSizeOk) {c d : ℕ} (hc : c < 2 ^ 31) (hd : d < 2 ^ 31)
    (h : cryptoGenerateNonce P c protoFlagIpv4 = cryptoGenerateNonce Q d protoFlagIpv4) :
    c = d := by
  have htake := congrArg (List.take 4) h
  rw [take_cryptoGenerateNonce hP, take_cryptoGenerateNonce hQ] at htake
  simp only [List.cons.injEq, and_true, ← UInt8.toNat_inj, UInt8.toNat_ofNat', protoFlagIpv4] at htake
  omega

theorem length_zeroTag : (List.replicate 16 (0 : UInt8)).length = 16 := rfl

/-- The interface in which CTR xors the given key stream; its GCM does not encrypt. -/
def sampleEvp (keystream : List UInt8) : Evp :=
  Evp.ofStream (fun _ _ _ i => keystream.getD i 0) (fun _ _ _ _ => 0) fun _ _ _ _ =>
    ⟨List.replicate 16 0, length_zeroTag⟩

/-- AES-128-CTR under the zero key, from the IV of the sample salt and counter `0` on. -/
def sampleKeystream : List UInt8 :=
  [160, 159, 218, 48, 169, 105, 8, 158, 233, 92, 26, 94, 176, 133, 104, 34, 132, 116, 82, 185, 238,
    221, 194, 153, 22, 123, 66, 172, 156, 28, 190, 54, 85, 116, 120, 17, 165, 173, 208, 11, 46, 157,
    173, 66, 211, 252, 94, 14, 222, 55, 46, 79, 48, 197, 115, 58, 159, 151, 158, 185, 84, 183, 231,
    143]

/-! ## AES wrappers -/

/-- `data` is the `len` bytes at the data pointer. -/
def cryptoAesCtrWithKey (evp : Evp) (P : CryptoParams) (key : Key) (iv data : List UInt8) :
    Bool × List UInt8 :=
  if data.length = 0 then (true, data)
  else evp.aesCtr P.aesBits (key.val.take P.aesBits.keySize) iv data

def cryptoAesGcmEncrypt (evp : Evp) (P : CryptoParams) (key : Key) (nonce data : List UInt8) :
    Bool × List UInt8 × List UInt8 :=
  if data.length = 0 then (true, data, evp.staleTag)
  else evp.aesGcmSeal P.aesBits (key.val.take P.aesBits.keySize) nonce data

def cryptoAesGcmDecrypt (evp : Evp) (P : CryptoParams) (key : Key) (nonce data tag : List UInt8) :
    Bool × List UInt8 :=
  if data.length = 0 then (true, data)
  else evp.aesGcmOpen P.aesBits (key.val.take P.aesBits.keySize) nonce data tag

/-- Encrypt in the thread's mode.  CTR has an empty tag. -/
def encryptPayload (evp : Evp) (P : CryptoParams) (key : Key) (nonce data : List UInt8) :
    Bool × List UInt8 × List UInt8 :=
  match P.mode with
  | .gcm => cryptoAesGcmEncrypt evp P key nonce data
  | .ctr =>
    let r := cryptoAesCtrWithKey evp P key (cryptoNonceToIv nonce) data
    (r.1, r.2, [])

/-- Decrypt in the thread's mode. -/
def decryptPayload (evp : Evp) (P : CryptoParams) (key : Key) (nonce data tag : List UInt8) :
    Bool × List UInt8 :=
  match P.mode with
  | .gcm => cryptoAesGcmDecrypt evp P key nonce data tag
  | .ctr => cryptoAesCtrWithKey evp P key (cryptoNonceToIv nonce) data

theorem encryptPayload_ofStream_fst {ctr gcm : AesBits → List UInt8 → List UInt8 → ℕ → UInt8}
    {tag : AesBits → List UInt8 → List UInt8 → List UInt8 → { l : List UInt8 // l.length = 16 }}
    {P : CryptoParams} {key : Key} {nonce data : List UInt8} :
    (encryptPayload (Evp.ofStream ctr gcm tag) P key nonce data).1 = true := by
  unfold encryptPayload cryptoAesGcmEncrypt cryptoAesCtrWithKey
  cases P.mode <;> split_ifs <;> rfl

theorem length_cryptoAesCtrWithKey (evp : Evp) (P : CryptoParams) (key : Key)
    (iv data : List UInt8) : (cryptoAesCtrWithKey evp P key iv data).2.length = data.length := by
  unfold cryptoAesCtrWithKey
  split_ifs
  · rfl
  · exact evp.length_aesCtr _ _ _ _

@[simp] theorem length_encryptPayload (evp : Evp) (P : CryptoParams) (key : Key)
    (nonce data : List UInt8) : (encryptPayload evp P key nonce data).2.1.length = data.length := by
  unfold encryptPayload
  cases P.mode with
  | ctr => exact length_cryptoAesCtrWithKey _ _ _ _ _
  | gcm =>
    show (cryptoAesGcmEncrypt evp P key nonce data).2.1.length = data.length
    unfold cryptoAesGcmEncrypt
    split_ifs
    · rfl
    · exact evp.length_aesGcmSeal _ _ _ _

@[simp] theorem length_encryptPayload_tag (evp : Evp) (P : CryptoParams) (key : Key)
    (nonce data : List UInt8) : (encryptPayload evp P key nonce data).2.2.length = P.tagSize := by
  unfold encryptPayload CryptoParams.tagSize
  cases P.mode with
  | ctr => rfl
  | gcm =>
    show (cryptoAesGcmEncrypt evp P key nonce data).2.2.length = gcmTagSize
    unfold cryptoAesGcmEncrypt
    split_ifs
    · exact evp.length_staleTag
    · exact evp.length_aesGcmTag _ _ _ _

@[simp] theorem length_decryptPayload (evp : Evp) (P : CryptoParams) (key : Key)
    (nonce data tag : List UInt8) :
    (decryptPayload evp P key nonce data tag).2.length = data.length := by
  unfold decryptPayload
  cases P.mode with
  | ctr => exact length_cryptoAesCtrWithKey _ _ _ _ _
  | gcm =>
    show (cryptoAesGcmDecrypt evp P key nonce data tag).2.length = data.length
    unfold cryptoAesGcmDecrypt
    split_ifs
    · rfl
    · exact evp.length_aesGcmOpen _ _ _ _ _

/-- **The cipher's round trip.** What `encryptPayload` produced, `decryptPayload` accepts and
turns back. -/
theorem decryptPayload_encryptPayload {evp : Evp} (hevp : evp.Lawful) {P : CryptoParams}
    {key : Key} {nonce data : List UInt8} (h : (encryptPayload evp P key nonce data).1 = true) :
    decryptPayload evp P key nonce (encryptPayload evp P key nonce data).2.1
      (encryptPayload evp P key nonce data).2.2 = (true, data) := by
  have hlen := length_encryptPayload evp P key nonce data
  unfold encryptPayload at h hlen ⊢
  unfold decryptPayload
  cases hm : P.mode with
  | ctr =>
    simp only [hm] at h hlen ⊢
    unfold cryptoAesCtrWithKey at h hlen ⊢
    by_cases hd : data.length = 0
    · simp only [hd, if_true]
    · simp only [hd, if_false] at h hlen ⊢
      rw [if_neg (by omega)]
      exact hevp.ctr_ctr _ _ _ _ h
  | gcm =>
    simp only [hm] at h hlen ⊢
    unfold cryptoAesGcmEncrypt at h hlen ⊢
    unfold cryptoAesGcmDecrypt
    by_cases hd : data.length = 0
    · simp only [hd, if_true]
    · simp only [hd, if_false] at h hlen ⊢
      rw [if_neg (by omega)]
      exact hevp.open_seal _ _ _ _ h

/-! ## Tunnel headers -/

/-- `memcpy(packet + off, nonce, nonce_size)`, then the policy id and one more byte. -/
def cryptoWriteL3TunnelHeader (packet : Packet) (off : ℕ) (nonce : List UInt8) (nonceSize : ℕ)
    (policyId origProto : UInt8) : Packet :=
  ((packet.write off nonce).set (off + nonceSize) policyId).set (off + nonceSize + 1) origProto

/-- Stores marker, policy id and nonce over the ethertype and after it. -/
def cryptoWriteCounter (packet : Packet) (nonce : List UInt8) (markerByte policyId : UInt8) :
    Packet :=
  ((packet.set 12 markerByte).set 13 policyId).write 14 nonce

/-! ## Checksums -/

/-- `~sum` of the folded 32-bit accumulator. -/
def cksumOf (sum : ℕ) : ℕ := 65535 - fold16 (sum % 2 ^ 32)

def cryptoCalcIpChecksum (ipHdr : Packet) (hdrLen : ℕ) : ℕ := cksumOf (ipHdr.internetSum hdrLen)

/-- The pseudo header's addresses, protocol and length. -/
def pseudoSum (ipHdr : Packet) (proto len : ℕ) : ℕ :=
  ipHdr.be16 12 + ipHdr.be16 14 + ipHdr.be16 16 + ipHdr.be16 18 + proto + len % 65536

/-- The checksum field at offset 16 counts as zero. -/
def cryptoCalcTcpChecksum (ipHdr : Packet) (ipHdrLen : ℕ) (tcpSeg : Packet) (tcpSegLen : ℕ) : ℕ :=
  if ipHdrLen < 20 ∨ tcpSegLen < 20 then 0
  else
    let word := fun i =>
      if i = 16 ∧ i + 2 ≤ tcpSegLen then 0 else tcpSeg.onesWord tcpSegLen i
    cksumOf (pseudoSum ipHdr 6 tcpSegLen + sumWords word tcpSegLen)

/-- The length that `crypto_calc_udp_checksum` sums over: the header's, but at least 8 and at most
the segment's. -/
def udpCksumLen (udpSeg : Packet) (udpSegLen : ℕ) : ℕ :=
  let udpLen := if udpSeg.be16 4 < 8 then 8 else udpSeg.be16 4
  if udpSegLen % 65536 < udpLen then udpSegLen % 65536 else udpLen

def cryptoCalcUdpChecksum (ipHdr : Packet) (ipHdrLen : ℕ) (udpSeg : Packet) (udpSegLen : ℕ) : ℕ :=
  if ipHdrLen < 20 ∨ udpSegLen < 8 then 0
  else
    let udpLen := udpCksumLen udpSeg udpSegLen
    cksumOf (pseudoSum ipHdr 17 udpLen + udpSeg.internetSum udpLen)

end NetEncryptor

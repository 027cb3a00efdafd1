import NetEncryptor.Crypto.DecoderResults

/-!
# A cipher that overwrites what it rejects

`Evp.overwriting` opens under every key what it has sealed and rejects everything else, like any
AEAD, and fills what it rejects with one byte.  A tunnel that it has sealed is therefore lost once a
decoder with another key has tried it: the decoder works in place, and what it leaves does not open
under the right key either (`layer3_attempts_fail`, `layer4_attempts_fail`).  A decoder in CTR mode
accepts such a tunnel and takes the tag for ciphertext.
-/

namespace NetEncryptor

/-- The key bytes that a policy reads out of a slot of its context. -/
def keyBytes (bits : AesBits) (ctx : PacketCryptoCtx) (slot : KeySlot) : List UInt8 :=
  (packetCryptoGetKey ctx slot).val.take bits.keySize

/-! ## The cipher -/

/-- Sixteen bytes that tell the given key from all others and, under it, the given data. -/
def markedTag (key₀ plain key data : List UInt8) : List UInt8 :=
  List.replicate gcmTagSize (if key = key₀ then if data = plain then 0 else 1 else 2)

/-- The byte that is written over rejected data; it is not the first one of `plain`. -/
def overwriteByte (plain : List UInt8) : UInt8 := plain.headD 0 + 1

/-- GCM leaves the data as it is when it seals and when it opens, and overwrites what it rejects;
CTR xors one byte to all data. -/
def Evp.overwriting (key₀ plain : List UInt8) : Evp where
  aesCtr _ _ _ data := (true, xorStream (fun _ => overwriteByte plain) data)
  aesGcmSeal _ key _ data := (true, data, markedTag key₀ plain key data)
  aesGcmOpen _ key _ data tag :=
    if tag = markedTag key₀ plain key data then (true, data)
    else (false, List.replicate data.length (overwriteByte plain))
  staleTag := List.replicate gcmTagSize 0
  length_aesCtr _ _ _ _ := length_xorStream _ _
  length_aesGcmSeal _ _ _ _ := rfl
  length_aesGcmTag _ _ _ _ := List.length_replicate
  length_aesGcmOpen _ _ _ _ _ := by
    split_ifs
    · rfl
    · exact List.length_replicate
  length_staleTag := List.length_replicate

theorem Evp.lawful_overwriting (key₀ plain : List UInt8) : (Evp.overwriting key₀ plain).Lawful where
  ctr_ctr _ _ _ _ _ := Prod.ext rfl (xorStream_xorStream _ _)
  open_seal _ _ _ _ _ := if_pos rfl

theorem add_one_ne (x : UInt8) : x ≠ x + 1 := by
  intro h
  have := congrArg UInt8.toNat h
  have hlt := x.toNat_lt
  rw [UInt8.toNat_add, UInt8.toNat_one] at this
  omega

section

variable {key₀ plain key data nonce : List UInt8} {bits : AesBits} {P : CryptoParams}

theorem aesGcmOpen_overwriting (h : key ≠ key₀ ∨ data ≠ plain) :
    (Evp.overwriting key₀ plain).aesGcmOpen bits key nonce data (List.replicate gcmTagSize 0) =
      (false, List.replicate data.length (overwriteByte plain)) := by
  refine if_neg fun htag => ?_
  have := (List.replicate_right_inj (by decide)).mp htag
  split_ifs at this with h₁ h₂
  · exact h.elim (fun h => h h₁) fun h => h h₂
  all_goals exact absurd this (by decide)

theorem encryptPayload_overwriting {key' : Key} (hmode : P.mode = .gcm)
    (hkey : key'.val.take P.aesBits.keySize = key₀) :
    encryptPayload (Evp.overwriting key₀ plain) P key' nonce plain =
      (true, plain, List.replicate gcmTagSize 0) := by
  unfold encryptPayload
  rw [hmode]
  show cryptoAesGcmEncrypt _ P key' nonce plain = _
  unfold cryptoAesGcmEncrypt
  split_ifs
  · rfl
  · show (true, plain, markedTag key₀ plain (key'.val.take P.aesBits.keySize) plain) = _
    unfold markedTag
    rw [if_pos hkey, if_pos rfl]

theorem replicate_overwriteByte_ne {n : ℕ} (hn : 0 < n) :
    List.replicate n (overwriteByte plain) ≠ plain := by
  rintro h
  obtain ⟨m, rfl⟩ := Nat.exists_eq_succ_of_ne_zero hn.ne'
  have hhead : overwriteByte plain = plain.headD 0 := congrArg (fun l => l.headD 0) h
  exact add_one_ne _ hhead.symm

/-- A tunnel whose tag is that of `plain` does not open under other keys, nor when it has been
overwritten already; its ciphertext is overwritten then. -/
theorem openTunnel_overwriting {ctx : PacketCryptoCtx} {verify : List UInt8 → Bool} {q : Packet}
    {nonceOff encOff n : ℕ} (hmode : P.mode = .gcm) (hn : 0 < n)
    (htag : q.slice (encOff + n) gcmTagSize = List.replicate gcmTagSize 0)
    (h : (∀ slot, keyBytes P.aesBits ctx slot ≠ key₀) ∨
      q.slice encOff n = List.replicate n (overwriteByte plain)) :
    let r := openTunnel (Evp.overwriting key₀ plain) P ctx keyOrder verify q (encOff + n + gcmTagSize)
      nonceOff encOff
    r.1 = false ∧ r.2.slice encOff n = List.replicate n (overwriteByte plain) := by
  have htsz : P.tagSize = gcmTagSize := CryptoParams.tagSize_of_gcm hmode
  have henc : cipherLen P (encOff + n + gcmTagSize) encOff = n := by unfold cipherLen; omega
  suffices hrej : ∀ slot ∈ keyOrder, ∀ data, data.length = cipherLen P (encOff + n + gcmTagSize)
      encOff → ((∀ slot, keyBytes P.aesBits ctx slot ≠ key₀) ∨
        data = List.replicate n (overwriteByte plain)) →
      let r := decryptPayload (Evp.overwriting key₀ plain) P (packetCryptoGetKey ctx slot)
        (q.slice nonceOff P.nonceSize) data
        (q.slice (encOff + cipherLen P (encOff + n + gcmTagSize) encOff) P.tagSize)
      r.1 = false ∧ r.2 = List.replicate n (overwriteByte plain) by
    have hopen : (openTunnel _ P ctx keyOrder verify q _ nonceOff encOff).1 = false ∧ _ :=
      openTunnel_rejected (fun data => (∀ slot, keyBytes P.aesBits ctx slot ≠ key₀) ∨
          data = List.replicate n (overwriteByte plain))
        (· = List.replicate n (overwriteByte plain)) (by omega) (fun _ => .inr) (by rwa [henc])
        (by decide) hrej
    rwa [henc] at hopen
  intro slot _ data hlen hI
  rw [henc] at hlen
  have hopen : (Evp.overwriting key₀ plain).aesGcmOpen P.aesBits (keyBytes P.aesBits ctx slot)
      (q.slice nonceOff P.nonceSize) data (List.replicate gcmTagSize 0) =
        (false, List.replicate data.length (overwriteByte plain)) := by
    refine aesGcmOpen_overwriting (hI.imp (fun h => h slot) fun h => ?_)
    rw [h]
    exact replicate_overwriteByte_ne hn
  have hdec : decryptPayload (Evp.overwriting key₀ plain) P (packetCryptoGetKey ctx slot)
      (q.slice nonceOff P.nonceSize) data (q.slice (encOff + n) gcmTagSize) =
        (false, List.replicate data.length (overwriteByte plain)) := by
    unfold decryptPayload
    rw [hmode, htag]
    show cryptoAesGcmDecrypt _ P _ _ data _ = _
    unfold cryptoAesGcmDecrypt
    rw [if_neg (by omega)]
    exact hopen
  simp only [henc, htsz, hdec, hlen, and_self]

theorem openTunnel_overwriting_ctr {ctx : PacketCryptoCtx} {verify : List UInt8 → Bool} {q : Packet}
    {nonceOff encOff pktLen : ℕ} (hmode : P.mode = .ctr)
    (hv : verify (Evp.xorStream (fun _ => overwriteByte plain) (q.slice encOff (pktLen - encOff))) =
      true) :
    (openTunnel (Evp.overwriting key₀ plain) P ctx keyOrder verify q pktLen nonceOff encOff).1 =
      true := by
  have htsz : P.tagSize = 0 := CryptoParams.tagSize_of_ctr hmode
  have henc : cipherLen P pktLen encOff = pktLen - encOff := by unfold cipherLen; omega
  have hkey : ∀ nonce tag, tryKey (Evp.overwriting key₀ plain) P ctx .current nonce tag encOff
      (pktLen - encOff) q =
        (true, Evp.xorStream (fun _ => overwriteByte plain) (q.slice encOff (pktLen - encOff))) := by
    intro nonce tag
    unfold tryKey decryptPayload
    rw [hmode]
    show cryptoAesCtrWithKey _ P _ _ _ = _
    unfold cryptoAesCtrWithKey
    split_ifs with hnil
    · rw [List.length_eq_zero_iff.mp hnil]
      rfl
    · rfl
  unfold openTunnel
  rw [if_neg (by omega), henc]
  exact congrArg Prod.fst (tryKeys_of_first (hkey _ _) hv)

theorem TunnelAt.overwriting {key' : Key} {last : UInt8} {q : Packet} {off : ℕ}
    (h : TunnelAt (Evp.overwriting key₀ plain) P key' nonce plain last q off) (hmode : P.mode = .gcm)
    (hkey : key'.val.take P.aesBits.keySize = key₀) :
    q.slice (off + P.tunnelHdrSize) plain.length = plain ∧
      q.slice (off + P.tunnelHdrSize + plain.length) gcmTagSize = List.replicate gcmTagSize 0 := by
  have hseal : encryptPayload (Evp.overwriting key₀ plain) P key' nonce plain =
      (true, plain, List.replicate gcmTagSize 0) := encryptPayload_overwriting hmode hkey
  have hcipher := h.cipher_eq
  have htag := h.tag_eq
  rw [hseal] at hcipher htag
  rw [CryptoParams.tagSize_of_gcm hmode] at htag
  exact ⟨hcipher, htag⟩

end

/-! ## Layer 4 -/

section

variable {key₀ plain : List UInt8} {P : CryptoParams} {ctx : PacketCryptoCtx} {q : Packet}
  {n l3Off ihl : ℕ}

variable (key₀ plain) in
theorem cryptoLayer4Decrypt_overwriting {encOff : ℕ} (hmode : P.mode = .gcm) (hn : 0 < n)
    (henc : l3Off + ihl + l4WirePortLen + P.tunnelHdrSize = encOff)
    (hhdr : layer4DecryptHeader P ctx q (encOff + n + gcmTagSize) = .ok (l3Off, ihl))
    (htag : q.slice (encOff + n) gcmTagSize = List.replicate gcmTagSize 0)
    (h : (∀ slot, keyBytes P.aesBits ctx slot ≠ key₀) ∨
      q.slice encOff n = List.replicate n (overwriteByte plain)) :
    let r := cryptoLayer4Decrypt (Evp.overwriting key₀ plain) P ctx q (encOff + n + gcmTagSize)
    r.1 = -1 ∧ (∀ j < encOff, r.2 j = q j) ∧
      r.2.slice encOff n = List.replicate n (overwriteByte plain) ∧
      r.2.slice (encOff + n) gcmTagSize = List.replicate gcmTagSize 0 := by
  have htsz : P.tagSize = gcmTagSize := CryptoParams.tagSize_of_gcm hmode
  obtain ⟨hfail, hover⟩ : (openTunnel (Evp.overwriting key₀ plain) P ctx keyOrder (fun _ => true) q
      (encOff + n + gcmTagSize) (l3Off + ihl + l4WirePortLen) encOff).1 = false ∧ _ :=
    openTunnel_overwriting hmode hn htag h
  unfold cryptoLayer4Decrypt
  rw [hhdr]
  simp only [henc, hfail, Bool.false_eq_true, if_false]
  refine ⟨trivial, fun j hj => openTunnel_of_lt hj, hover, ?_⟩
  rw [← htag]
  exact Buffer.slice_congr fun j hj _ => openTunnel_of_ge (by unfold cipherLen; omega)

theorem cryptoLayer4Decrypt_overwriting_ctr (hmode : P.mode = .ctr)
    (hhdr : layer4DecryptHeader P ctx q n = .ok (l3Off, ihl)) :
    (cryptoLayer4Decrypt (Evp.overwriting key₀ plain) P ctx q n).1 = ↑(n - P.tunnelHdrSize) := by
  obtain ⟨-, -, -, -, -, -, hle, -⟩ := layer4DecryptHeader_eq_ok_iff.mp hhdr
  have htsz : P.tagSize = 0 := CryptoParams.tagSize_of_ctr hmode
  unfold cryptoLayer4Decrypt
  rw [hhdr]
  simp only
  rw [if_pos (openTunnel_overwriting_ctr hmode rfl)]
  refine congrArg Nat.cast ?_
  unfold cipherLen
  omega

variable {len : ℕ} {p : Packet}

theorem cryptoLayer4Encrypt_overwriting (counter : ℕ) (hmode : P.mode = .gcm) (hns : P.NonceSizeOk)
    (hhdr : layer4EncryptHeader ctx p len = .ok (l3Off, ihl)) (hin : l3Off + ihl ≤ len)
    (hkey : keyBytes P.aesBits ctx .current = key₀)
    (hplain : p.slice (l3Off + ihl + l4WirePortLen) (len - (l3Off + ihl + l4WirePortLen)) = plain) :
    (cryptoLayer4Encrypt (Evp.overwriting key₀ plain) P ctx counter p len).1 =
        ↑(len + (P.tunnelHdrSize + gcmTagSize)) ∧
      Layer4Frame (Evp.overwriting key₀ plain) P ctx counter p len l3Off
        (cryptoLayer4Encrypt (Evp.overwriting key₀ plain) P ctx counter p len).2 ∧
      (cryptoLayer4Encrypt (Evp.overwriting key₀ plain) P ctx counter p len).2.slice
        (len + P.tunnelHdrSize) gcmTagSize = List.replicate gcmTagSize 0 := by
  obtain ⟨-, hoff, -, -, rfl, -, htr, -⟩ := layer4EncryptHeader_eq_ok_iff.mp hhdr
  have hport : l4WirePortLen = 4 := rfl
  have h₈ := getTransportHdrSize_ne_none htr
  rw [usub_of_le hin] at h₈
  have hgrew : len < (cryptoLayer4Encrypt (Evp.overwriting key₀ plain) P ctx counter p len).1 := by
    have hhdrSize : P.tunnelHdrSize = P.nonceSize + 2 := rfl
    unfold cryptoLayer4Encrypt
    rw [hhdr]
    simp only
    rw [usub_of_le (by omega), if_pos]
    · simp only
      omega
    · rw [encapsulate_fst, hplain]
      exact congrArg Prod.fst (encryptPayload_overwriting hmode hkey)
  obtain ⟨hret, hframe⟩ := cryptoLayer4Encrypt_frame hns hoff hin hgrew
  have htunnel := hframe.tunnel
  rw [hplain] at htunnel
  obtain ⟨-, htag⟩ := htunnel.overwriting hmode hkey
  refine ⟨by rw [hret, CryptoParams.tagSize_of_gcm hmode], hframe, ?_⟩
  rw [← htag, ← hplain, Buffer.length_slice]
  congr 1
  omega

/-- Both attempts on such a frame fail: the first one rejects and overwrites the ciphertext, so the
second one does not find it. -/
theorem layer4_attempts_fail {cp cp' : CryptoPolicy} {ctx' : PacketCryptoCtx} {encOff : ℕ}
    (hmode : cp.cryptoMode = .gcm) (hmode' : cp'.cryptoMode = .gcm) (hn : 0 < n)
    (hns : cp.nonceSize = cp'.nonceSize) (hinit : ctx.initialized = true)
    (hinit' : ctx'.initialized = true) (hkeys : ∀ slot, keyBytes cp.aesBits ctx slot ≠ key₀)
    (henc : l3Off + ihl + l4WirePortLen + (cp'.nonceSize + 2) = encOff)
    (hhdr : layer4DecryptHeader (cryptoApplyFromPolicy P cp') ctx' q (encOff + n + gcmTagSize) =
      .ok (l3Off, ihl))
    (htag : q.slice (encOff + n) gcmTagSize = List.replicate gcmTagSize 0) :
    let a := attemptDecrypt (cryptoLayer4Decrypt (Evp.overwriting key₀ plain)) P cp ctx q
      (encOff + n + gcmTagSize)
    a.newLen = none ∧
      (attemptDecrypt (cryptoLayer4Decrypt (Evp.overwriting key₀ plain)) (cryptoApplyFromPolicy P cp)
        cp' ctx' a.packet (encOff + n + gcmTagSize)).newLen = none := by
  have henc' : l3Off + ihl + l4WirePortLen + (cryptoApplyFromPolicy P cp).tunnelHdrSize = encOff := by
    rw [← henc, ← hns]
    rfl
  obtain ⟨hret, hheader, hover, htag'⟩ := cryptoLayer4Decrypt_overwriting key₀ plain
    (P := cryptoApplyFromPolicy P cp) hmode hn henc'
    (layer4DecryptHeader_congr hhdr hns hinit fun _ _ => rfl) htag (.inl hkeys)
  obtain ⟨hret', -⟩ := cryptoLayer4Decrypt_overwriting key₀ plain
    (P := cryptoApplyFromPolicy (cryptoApplyFromPolicy P cp) cp') hmode' hn henc
    (layer4DecryptHeader_congr hhdr rfl hinit' fun j hj => hheader j (henc ▸ hj)) htag' (.inr hover)
  exact ⟨attemptDecrypt_of_failure (.inl hret), attemptDecrypt_of_failure (.inl hret')⟩

end

/-! ## Layer 3 -/

section

variable {key₀ plain : List UInt8} {P : CryptoParams} {ctx : PacketCryptoCtx} {q : Packet} {n ihl : ℕ}

variable (key₀ plain) in
theorem cryptoLayer3Decrypt_overwriting {encOff : ℕ} (hmode : P.mode = .gcm) (hn : 0 < n)
    (henc : ethHeaderSize + ihl + P.tunnelHdrSize = encOff)
    (hhdr : layer3DecryptHeader P ctx q (encOff + n + gcmTagSize) = .ok ihl)
    (htag : q.slice (encOff + n) gcmTagSize = List.replicate gcmTagSize 0)
    (h : (∀ slot, keyBytes P.aesBits ctx slot ≠ key₀) ∨
      q.slice encOff n = List.replicate n (overwriteByte plain)) :
    let r := cryptoLayer3Decrypt (Evp.overwriting key₀ plain) P ctx q (encOff + n + gcmTagSize)
    r.1 = -1 ∧ (∀ j < encOff, j ≠ ipv4ProtoOff → r.2 j = q j) ∧
      r.2.slice encOff n = List.replicate n (overwriteByte plain) ∧
      r.2.slice (encOff + n) gcmTagSize = List.replicate gcmTagSize 0 := by
  have htsz : P.tagSize = gcmTagSize := CryptoParams.tagSize_of_gcm hmode
  obtain ⟨-, -, hihl, -⟩ := layer3DecryptHeader_eq_ok_iff.mp hhdr
  obtain ⟨-, h₂₀, -⟩ := ipv4HdrLenAt_eq_some_iff.mp hihl
  have hproto : ipv4ProtoOff < encOff := by
    show ethHeaderSize + 9 < encOff
    omega
  unfold cryptoLayer3Decrypt
  rw [hhdr]
  simp only [henc]
  -- the decoder first puts the protocol number back
  generalize q (ethHeaderSize + ihl + P.nonceSize + 1) = origProto
  have hslice : ∀ off m, encOff ≤ off → (q.set ipv4ProtoOff origProto).slice off m = q.slice off m :=
    fun off m hoff => Buffer.slice_congr fun j hj _ => Buffer.set_of_ne (by omega)
  obtain ⟨hfail, hover⟩ : (openTunnel (Evp.overwriting key₀ plain) P ctx keyOrder
      (layer3Verify P origProto) (q.set ipv4ProtoOff origProto) (encOff + n + gcmTagSize)
      (ethHeaderSize + ihl) encOff).1 = false ∧ _ :=
    openTunnel_overwriting hmode hn ((hslice _ _ (by omega)).trans htag)
      (h.imp_right fun h => (hslice _ _ le_rfl).trans h)
  simp only [hfail, Bool.false_eq_true, if_false]
  refine ⟨trivial, fun j hj hne => ?_, hover, ?_⟩
  · rw [openTunnel_of_lt hj, Buffer.set_of_ne hne]
  · rw [← htag, ← hslice _ _ (by omega)]
    exact Buffer.slice_congr fun j hj _ => openTunnel_of_ge (by unfold cipherLen; omega)

theorem cryptoLayer3Decrypt_overwriting_ctr (hmode : P.mode = .ctr)
    (hhdr : layer3DecryptHeader P ctx q n = .ok ihl)
    (hlen : ethHeaderSize + ihl + P.tunnelHdrSize + 4 ≤ n)
    (hhead : q (ethHeaderSize + ihl + P.tunnelHdrSize) = plain.headD 0) :
    (cryptoLayer3Decrypt (Evp.overwriting key₀ plain) P ctx q n).1 = ↑(n - P.tunnelHdrSize) := by
  have htsz : P.tagSize = 0 := CryptoParams.tagSize_of_ctr hmode
  obtain ⟨-, -, hihl, -⟩ := layer3DecryptHeader_eq_ok_iff.mp hhdr
  obtain ⟨-, h₂₀, -⟩ := ipv4HdrLenAt_eq_some_iff.mp hihl
  have hproto : ipv4ProtoOff = ethHeaderSize + 9 := rfl
  unfold cryptoLayer3Decrypt
  rw [hhdr]
  simp only
  rw [if_pos, htsz, Nat.add_zero]
  refine openTunnel_overwriting_ctr hmode ?_
  unfold layer3Verify
  rw [hmode]
  refine verifyDecryptedPayload_of_head ?_ ?_
  · rw [Evp.length_xorStream, Buffer.length_slice]
    omega
  · have hfirst : q.set ipv4ProtoOff (q (ethHeaderSize + ihl + P.nonceSize + 1))
        (ethHeaderSize + ihl + P.tunnelHdrSize + 0) = plain.headD 0 :=
      (Buffer.set_of_ne (by omega)).trans hhead
    rw [List.getD_eq_getElem?_getD, List.getElem?_eq_getElem (by simp; omega), Option.getD_some]
    unfold Evp.xorStream
    rw [List.getElem_mapIdx, Buffer.getElem_slice, hfirst]
    exact fun h => add_one_ne _ (UInt8.xor_eq_zero_iff.mp h)

variable {len : ℕ} {p : Packet}

theorem cryptoLayer3Encrypt_overwriting (counter : ℕ) (hmode : P.mode = .gcm) (hns : P.NonceSizeOk)
    (hhdr : layer3EncryptHeader P ctx p len = .ok ihl)
    (hkey : keyBytes P.aesBits ctx .current = key₀)
    (hplain : p.slice (ethHeaderSize + ihl) (len - (ethHeaderSize + ihl)) = plain) :
    (cryptoLayer3Encrypt (Evp.overwriting key₀ plain) P ctx counter p len).1 =
        ↑(len + (P.tunnelHdrSize + gcmTagSize)) ∧
      Layer3Frame (Evp.overwriting key₀ plain) P ctx counter p len
        (cryptoLayer3Encrypt (Evp.overwriting key₀ plain) P ctx counter p len).2 ∧
      (cryptoLayer3Encrypt (Evp.overwriting key₀ plain) P ctx counter p len).2.slice
        (ethHeaderSize + ihl + P.tunnelHdrSize) (len - (ethHeaderSize + ihl)) = plain ∧
      (cryptoLayer3Encrypt (Evp.overwriting key₀ plain) P ctx counter p len).2.slice
        (len + P.tunnelHdrSize) gcmTagSize = List.replicate gcmTagSize 0 := by
  obtain ⟨-, -, hihl, -⟩ := layer3EncryptHeader_eq_ok_iff.mp hhdr
  obtain ⟨rfl, h₂₀, hle⟩ := ipv4HdrLenAt_eq_some_iff.mp hihl
  have hgrew : len < (cryptoLayer3Encrypt (Evp.overwriting key₀ plain) P ctx counter p len).1 := by
    have hhdrSize : P.tunnelHdrSize = P.nonceSize + 2 := rfl
    unfold cryptoLayer3Encrypt
    rw [hhdr]
    simp only
    rw [if_pos]
    · simp only
      omega
    · rw [encapsulate_fst, hplain]
      exact congrArg Prod.fst (encryptPayload_overwriting hmode hkey)
  obtain ⟨hret, hframe⟩ := cryptoLayer3Encrypt_frame hns hgrew
  have hlength : plain.length = len - (ethHeaderSize + ihlAt p ethHeaderSize) := by
    rw [← hplain, Buffer.length_slice]
  have htunnel := hframe.tunnel
  rw [hplain] at htunnel
  obtain ⟨hcipher, htag⟩ := htunnel.overwriting hmode hkey
  rw [hlength] at hcipher htag
  refine ⟨by rw [hret, CryptoParams.tagSize_of_gcm hmode], hframe, hcipher, ?_⟩
  rw [← htag]
  congr 1
  omega

theorem layer3_attempts_fail {cp cp' : CryptoPolicy} {ctx' : PacketCryptoCtx} {encOff : ℕ}
    (hmode : cp.cryptoMode = .gcm) (hmode' : cp'.cryptoMode = .gcm) (hn : 0 < n)
    (hns : cp.nonceSize = cp'.nonceSize) (hkeys : ∀ slot, keyBytes cp.aesBits ctx slot ≠ key₀)
    (henc : ethHeaderSize + ihl + (cp'.nonceSize + 2) = encOff)
    (hhdr : layer3DecryptHeader (cryptoApplyFromPolicy P cp) ctx q (encOff + n + gcmTagSize) =
      .ok ihl)
    (htag : q.slice (encOff + n) gcmTagSize = List.replicate gcmTagSize 0) :
    let a := attemptDecrypt (cryptoLayer3Decrypt (Evp.overwriting key₀ plain)) P cp ctx q
      (encOff + n + gcmTagSize)
    a.newLen = none ∧
      (attemptDecrypt (cryptoLayer3Decrypt (Evp.overwriting key₀ plain)) (cryptoApplyFromPolicy P cp)
        cp' ctx' a.packet (encOff + n + gcmTagSize)).newLen = none := by
  have henc' : ethHeaderSize + ihl + (cryptoApplyFromPolicy P cp).tunnelHdrSize = encOff := by
    rw [← henc, ← hns]
    rfl
  obtain ⟨hret, hheader, hover, htag'⟩ := cryptoLayer3Decrypt_overwriting key₀ plain
    (P := cryptoApplyFromPolicy P cp) hmode hn henc' hhdr htag (.inl hkeys)
  refine ⟨attemptDecrypt_of_failure (.inl hret), attemptDecrypt_of_failure ?_⟩
  have hpacket : (attemptDecrypt (cryptoLayer3Decrypt (Evp.overwriting key₀ plain)) P cp ctx q
    (encOff + n + gcmTagSize)).packet = (cryptoLayer3Decrypt (Evp.overwriting key₀ plain)
      (cryptoApplyFromPolicy P cp) ctx q (encOff + n + gcmTagSize)).2 := rfl
  rw [hpacket]
  generalize (cryptoLayer3Decrypt (Evp.overwriting key₀ plain) (cryptoApplyFromPolicy P cp) ctx q
    (encOff + n + gcmTagSize)).2 = q' at hheader hover htag' ⊢
  by_cases hok : ∃ ihl', layer3DecryptHeader (cryptoApplyFromPolicy (cryptoApplyFromPolicy P cp) cp')
    ctx' q' (encOff + n + gcmTagSize) = .ok ihl'
  · obtain ⟨ihl', hhdr'⟩ := hok
    obtain ⟨-, -, hihl, -⟩ := layer3DecryptHeader_eq_ok_iff.mp hhdr
    obtain ⟨-, -, hihl', -⟩ := layer3DecryptHeader_eq_ok_iff.mp hhdr'
    obtain ⟨rfl, h₂₀, -⟩ := ipv4HdrLenAt_eq_some_iff.mp hihl
    obtain ⟨rfl, -, -⟩ := ipv4HdrLenAt_eq_some_iff.mp hihl'
    have hsame : ihlAt q' ethHeaderSize = ihlAt q ethHeaderSize :=
      ihlAt_congr (hheader _ (by omega) (by decide))
    exact .inl (cryptoLayer3Decrypt_overwriting key₀ plain hmode' hn (hsame ▸ henc) hhdr' htag'
      (.inr hover)).1
  · -- the protocol number is no longer the fake one
    exact cryptoLayer3Decrypt_of_ne_ok (not_exists.mp hok)

end

end NetEncryptor

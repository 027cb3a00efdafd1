import NetEncryptor.Crypto.Encoders
import NetEncryptor.Crypto.OverwritingCipher

/-!
# The fallback to the previous policies

During the grace period a frame whose current policy does not open it is tried once more with the
previous policy of the same id.  The first attempt works in place: it has overwritten the
ciphertext, and at layer 3 the protocol number as well, when the second one reads the frame.  So a
frame that was encrypted under the previous policy is lost, unless there is nothing to overwrite
(`graceFallback_iff`).
-/

namespace NetEncryptor

/-! ## The property -/

namespace CryptoLayer

def action : CryptoLayer → ℤ
  | l2 => actionEncryptL2
  | l3 => actionEncryptL3
  | l4 => actionEncryptL4

/-- `crypto_layer2_decrypt`, `crypto_layer3_decrypt` or `crypto_layer4_decrypt`. -/
def decrypt : CryptoLayer → Evp → DecryptFn
  | l2 => cryptoLayer2Decrypt
  | l3 => cryptoLayer3Decrypt
  | l4 => cryptoLayer4Decrypt

end CryptoLayer

/-- The previous policy `cp'` encrypts in GCM mode.  Its action, id and nonce size are those of the
current policy `cp`, which is ready too and has other keys. -/
structure GracePolicies (dctx : CryptoDispatchCtx) (action : ℤ) (cp cp' : CryptoPolicy)
    (pi ppi : ℕ) : Prop where
  grace : dctx.prevGraceActive = true
  lookup : lookupPolicyIndex dctx.current action cp.idByte = some pi
  policy : dctx.current.active[pi]? = some cp
  ready : dctx.current.ready pi = true
  initialized : (dctx.current.ctx pi).initialized = true
  prevLookup : lookupPolicyIndex dctx.prev action cp'.idByte = some ppi
  prevPolicy : dctx.prev.active[ppi]? = some cp'
  prevReady : dctx.prev.ready ppi = true
  action_eq : cp.action = action ∧ cp'.action = action
  idByte : cp.idByte = cp'.idByte
  nonceSize : cp.nonceSize = cp'.nonceSize
  gcm : cp'.cryptoMode = .gcm
  keys : ∀ slot, keyBytes cp.aesBits (dctx.current.ctx pi) slot ≠
    keyBytes cp'.aesBits (dctx.prev.ctx ppi) .current

/-- No key of the context opens anything with the tag. -/
def RejectsTag (evp : Evp) (bits : AesBits) (ctx : PacketCryptoCtx) (tag : List UInt8) : Prop :=
  ∀ slot nonce data, (evp.aesGcmOpen bits (keyBytes bits ctx slot) nonce data tag).1 = false

/-- `crypto_decrypt_packet_auto_by_action` succeeds on an encoder's output and leaves what
decrypting with the previous policy alone would, which is shorter than the frame. -/
def FallbackDecrypts (layer : CryptoLayer) (evp : Evp) (Q : CryptoParams) (cfg : AppConfig)
    (dctx : CryptoDispatchCtx) (cp' : CryptoPolicy) (ppi scratchSz : ℕ) (e : ℤ × Packet) : Prop :=
  let alone := layer.decrypt evp (cryptoApplyFromPolicy Q cp') (dctx.prev.ctx ppi) e.2 e.1.toNat
  let r := cryptoDecryptPacketAutoByAction evp Q true cfg dctx layer.action e.2 e.1.toNat scratchSz
  alone.1 < e.1.toNat ∧ r.ret = 0 ∧ alone.1 = r.len ∧ ∀ j < r.len, r.packet j = alone.2 j

/-- With any correct cipher that rejects the frame's tag under the keys of the current policy, the
fallback decrypts what the layer's encoder makes of the frame under the previous policy.  `P` and
`Q` hold the parameters of the sender's and of the receiver's thread. -/
def GraceFallback (layer : CryptoLayer) (P Q : CryptoParams) (cfg : AppConfig)
    (dctx : CryptoDispatchCtx) (cp cp' : CryptoPolicy) (pi ppi counter : ℕ) (p : Packet)
    (len scratchSz : ℕ) : Prop :=
  ∀ evp : Evp, evp.Lawful →
    let e := layer.encrypt evp (cryptoApplyFromPolicy P cp') (dctx.prev.ctx ppi) counter p len
    len < e.1 →
    RejectsTag evp cp.aesBits (dctx.current.ctx pi)
      (e.2.slice (e.1.toNat - gcmTagSize) gcmTagSize) →
    FallbackDecrypts layer evp Q cfg dctx cp' ppi scratchSz e

theorem FallbackDecrypts.len_eq {layer : CryptoLayer} {evp : Evp} {Q : CryptoParams}
    {cfg : AppConfig} {dctx : CryptoDispatchCtx} {cp' : CryptoPolicy} {ppi scratchSz : ℕ}
    {e : ℤ × Packet} (hdec : ReturnsLength (layer.decrypt evp))
    (h : FallbackDecrypts layer evp Q cfg dctx cp' ppi scratchSz e) :
    let r := cryptoDecryptPacketAutoByAction evp Q true cfg dctx layer.action e.2 e.1.toNat scratchSz
    r.ret = 0 ∧ r.len < e.1.toNat ∧
      r.len = e.1.toNat - (cp'.nonceSize + 2 + (cryptoApplyFromPolicy Q cp').tagSize) := by
  obtain ⟨hlt, hret, hlen, -⟩ := h
  refine ⟨hret, by omega, ?_⟩
  rcases hdec (cryptoApplyFromPolicy Q cp') (dctx.prev.ctx ppi) e.2 e.1.toNat with hr | hr | hr
  · omega
  · omega
  · rw [hr] at hlen
    exact (Int.natCast_inj.mp hlen).symm

/-! ## The tables -/

section

variable {dctx : CryptoDispatchCtx} {action : ℤ} {cp cp' : CryptoPolicy} {pi ppi : ℕ}
  (h : GracePolicies dctx action cp cp' pi ppi) {decrypt : DecryptFn}
  {accept : CryptoPolicy → Bool} {P : CryptoParams} {pkt : Packet} {n : ℕ}
include h

theorem GracePolicies.decryptWithTable_current (hcp : accept cp = true) :
    decryptWithTable decrypt accept dctx.current action cp.idByte P pkt n =
      attemptDecrypt decrypt P cp (dctx.current.ctx pi) pkt n := by
  unfold decryptWithTable
  rw [h.lookup]
  simp only [h.policy, h.ready, hcp, Bool.and_self, if_true]

theorem GracePolicies.decryptWithTable_prev (hcp' : accept cp' = true) :
    decryptWithTable decrypt accept dctx.prev action cp.idByte P pkt n =
      attemptDecrypt decrypt P cp' (dctx.prev.ctx ppi) pkt n := by
  unfold decryptWithTable
  rw [h.idByte, h.prevLookup]
  simp only [h.prevPolicy, h.prevReady, hcp', Bool.and_self, if_true]

theorem GracePolicies.decryptWithTables_of_some (hcp : accept cp = true) {m : ℕ}
    (ha : (attemptDecrypt decrypt P cp (dctx.current.ctx pi) pkt n).newLen = some m) :
    decryptWithTables decrypt accept dctx action cp.idByte P pkt n =
      ⟨0, (attemptDecrypt decrypt P cp (dctx.current.ctx pi) pkt n).packet, m,
        cryptoApplyFromPolicy P cp⟩ := by
  unfold decryptWithTables
  rw [h.decryptWithTable_current hcp]
  simp only [ha]
  rfl

theorem GracePolicies.decryptWithTables_of_none (hcp : accept cp = true) (hcp' : accept cp' = true)
    (ha : (attemptDecrypt decrypt P cp (dctx.current.ctx pi) pkt n).newLen = none)
    (hb : (attemptDecrypt decrypt (cryptoApplyFromPolicy P cp) cp' (dctx.prev.ctx ppi)
      (attemptDecrypt decrypt P cp (dctx.current.ctx pi) pkt n).packet n).newLen = none) :
    (decryptWithTables decrypt accept dctx action cp.idByte P pkt n).ret = -1 := by
  have hprev : dctx.prev.active ≠ [] := fun hnil => by
    have := h.prevPolicy
    rw [hnil] at this
    cases this
  unfold decryptWithTables
  rw [h.decryptWithTable_current hcp]
  simp only [ha, if_pos (And.intro h.grace hprev), h.decryptWithTable_prev hcp']
  rw [show (attemptDecrypt decrypt P cp (dctx.current.ctx pi) pkt n).params =
    cryptoApplyFromPolicy P cp from rfl]
  simp only [hb]

/-- When the current policy in CTR mode takes the tag for ciphertext, or both attempts fail, the
tables do not give back the frame without header and tag. -/
theorem GracePolicies.decryptWithTables_ne (hcp : accept cp = true) (hcp' : accept cp' = true)
    (hn : cp'.nonceSize + 2 + gcmTagSize ≤ n)
    (hctr : cp.cryptoMode = .ctr →
      (decrypt (cryptoApplyFromPolicy P cp) (dctx.current.ctx pi) pkt n).1 =
        ↑(n - (cp'.nonceSize + 2)))
    (hgcm : cp.cryptoMode = .gcm →
      let a := attemptDecrypt decrypt P cp (dctx.current.ctx pi) pkt n
      a.newLen = none ∧ (attemptDecrypt decrypt (cryptoApplyFromPolicy P cp) cp'
        (dctx.prev.ctx ppi) a.packet n).newLen = none) :
    ¬ ((decryptWithTables decrypt accept dctx action cp.idByte P pkt n).ret = 0 ∧
      (decryptWithTables decrypt accept dctx action cp.idByte P pkt n).len =
        n - (cp'.nonceSize + 2 + gcmTagSize)) := by
  have htag : gcmTagSize = 16 := rfl
  rintro ⟨hret, hlen⟩
  cases hmode : cp.cryptoMode with
  | ctr =>
    rw [h.decryptWithTables_of_some hcp (attemptDecrypt_of_success (hctr hmode) (by omega))] at hlen
    simp only at hlen
    omega
  | gcm =>
    obtain ⟨ha, hb⟩ := hgcm hmode
    rw [h.decryptWithTables_of_none hcp hcp' ha hb] at hret
    cases hret

end

theorem GracePolicies.not_graceFallback {layer : CryptoLayer} {P Q : CryptoParams} {cfg : AppConfig}
    {dctx : CryptoDispatchCtx} {action : ℤ} {cp cp' : CryptoPolicy}
    {pi ppi counter len scratchSz : ℕ} {p : Packet} {key₀ plain : List UInt8}
    (h : GracePolicies dctx action cp cp' pi ppi)
    (hkey : keyBytes cp'.aesBits (dctx.prev.ctx ppi) .current = key₀)
    (hret : (layer.encrypt (Evp.overwriting key₀ plain) (cryptoApplyFromPolicy P cp')
        (dctx.prev.ctx ppi) counter p len).1 =
      ↑(len + ((cryptoApplyFromPolicy P cp').tunnelHdrSize + gcmTagSize)))
    (htag : (layer.encrypt (Evp.overwriting key₀ plain) (cryptoApplyFromPolicy P cp')
        (dctx.prev.ctx ppi) counter p len).2.slice
        (len + (cryptoApplyFromPolicy P cp').tunnelHdrSize) gcmTagSize =
      List.replicate gcmTagSize 0)
    (hnot : ¬ FallbackDecrypts layer (Evp.overwriting key₀ plain) Q cfg dctx cp' ppi scratchSz
      (layer.encrypt (Evp.overwriting key₀ plain) (cryptoApplyFromPolicy P cp') (dctx.prev.ctx ppi)
        counter p len)) :
    ¬ GraceFallback layer P Q cfg dctx cp cp' pi ppi counter p len scratchSz := by
  intro hfall
  refine hnot (hfall _ (Evp.lawful_overwriting _ _) ?_ ?_)
  · rw [hret]
    have hhdrSize : (cryptoApplyFromPolicy P cp').tunnelHdrSize = cp'.nonceSize + 2 := rfl
    omega
  · intro slot nonce data
    rw [hret, Int.toNat_natCast, ← Nat.add_assoc, Nat.add_sub_cancel, htag,
      aesGcmOpen_overwriting (.inl (hkey ▸ h.keys slot))]

/-! ## Layer 4 -/

section

variable {P Q : CryptoParams} {cfg : AppConfig} {dctx : CryptoDispatchCtx} {cp cp' : CryptoPolicy}
  {pi ppi counter len scratchSz l3Off : ℕ} {p : Packet} {key₀ plain : List UInt8}

theorem layer4_not_fallbackDecrypts (h : GracePolicies dctx actionEncryptL4 cp cp' pi ppi)
    (hcfg : cfg.policies ≠ []) (hsizes : ∀ c ∈ cfg.policies, c.nonceSize ≤ 16)
    (hns : (cryptoApplyFromPolicy P cp').NonceSizeOk)
    (hkey : keyBytes cp'.aesBits (dctx.prev.ctx ppi) .current = key₀) {e : ℤ × Packet}
    (hret : e.1 = ↑(len + ((cryptoApplyFromPolicy P cp').tunnelHdrSize + gcmTagSize)))
    (hframe : Layer4Frame (Evp.overwriting key₀ plain) (cryptoApplyFromPolicy P cp')
      (dctx.prev.ctx ppi) counter p len l3Off e.2)
    (htag : e.2.slice (len + (cryptoApplyFromPolicy P cp').tunnelHdrSize) gcmTagSize =
      List.replicate gcmTagSize 0) :
    ¬ FallbackDecrypts .l4 (Evp.overwriting key₀ plain) Q cfg dctx cp' ppi scratchSz e := by
  intro hfall
  have htagSize : gcmTagSize = 16 := rfl
  have hport : l4WirePortLen = 4 := rfl
  have hhdrSize : (cryptoApplyFromPolicy P cp').tunnelHdrSize = cp'.nonceSize + 2 := rfl
  have hgcm : (cryptoApplyFromPolicy P cp').tagSize = gcmTagSize := CryptoParams.tagSize_of_gcm h.gcm
  have hgcm' : (cryptoApplyFromPolicy Q cp').tagSize = gcmTagSize := hgcm
  have hpos' : 0 < cp'.nonceSize := hns.pos
  have hin := hframe.inside
  -- the previous policy's decoder accepts the header
  have hdec := hframe.decryptHeader hns
  obtain ⟨hinit', hoff, -, -, hihl, -, -, -⟩ := layer4DecryptHeader_eq_ok_iff.mp hdec
  rw [hgcm] at hdec hoff
  rw [hhdrSize] at hret htag hdec hoff
  obtain ⟨hret₀, hlt, hlen⟩ := hfall.len_eq
    (show ReturnsLength (CryptoLayer.l4.decrypt _) from returnsLength_l4 _)
  rw [show CryptoLayer.l4.action = actionEncryptL4 from rfl,
    cryptoDecryptPacketAutoByAction_l4 hcfg] at hret₀ hlt hlen
  rw [hret, Int.toNat_natCast] at hret₀ hlt hlen
  rw [hgcm'] at hlen
  cases hx : cryptoL4ExtractPolicyIdIpv4 cfg e.2 (len + (cp'.nonceSize + 2 + gcmTagSize)) with
  | none =>
    rw [hx] at hlt
    exact lt_irrefl _ hlt
  | some x =>
    obtain ⟨id, nonceSize⟩ := x
    rw [hx] at hret₀ hlen
    simp only at hret₀ hlen
    obtain ⟨⟨hpos, c, hc, hcns⟩, hid⟩ := cryptoL4ExtractPolicyIdIpv4_eq_some hoff hx
    obtain ⟨c', P', haccept, hlen'⟩ := decryptWithTables_len (returnsLength_l4 _) hret₀
    unfold acceptNonceSize at haccept
    simp only [Bool.and_eq_true, beq_iff_eq, decide_eq_true_eq] at haccept
    -- only header and tag of the right sizes leave the original length
    have hnonceSize : nonceSize = cp'.nonceSize := by
      have := hsizes c hc
      rcases (cryptoApplyFromPolicy P' c').tagSize_eq with ht | ht <;> omega
    have hid : id = cp.idByte := by
      rw [← hid, hnonceSize, ← hihl, h.idByte]
      exact hframe.tunnel.policy_eq
    rw [hid, hnonceSize] at hret₀ hlen
    have haccept' : acceptNonceSize cp'.nonceSize cp' = true := by
      unfold acceptNonceSize
      simp only [beq_self_eq_true, Bool.and_true, decide_eq_true_eq]
      omega
    have haccept : acceptNonceSize cp'.nonceSize cp = true := by
      unfold acceptNonceSize at haccept' ⊢
      rwa [h.nonceSize]
    have hkeys : ∀ slot, keyBytes cp.aesBits (dctx.current.ctx pi) slot ≠ key₀ := hkey ▸ h.keys
    refine h.decryptWithTables_ne haccept haccept' (by omega) ?_ ?_ ⟨hret₀, hlen⟩
    · intro hmode
      have hhdrSize' : (cryptoApplyFromPolicy Q cp).tunnelHdrSize = cp'.nonceSize + 2 := by
        rw [← h.nonceSize]
        rfl
      refine (cryptoLayer4Decrypt_overwriting_ctr hmode
        (layer4DecryptHeader_congr hdec h.nonceSize h.initialized fun _ _ => rfl)).trans ?_
      rw [hhdrSize']
    · intro hmode
      obtain ⟨encOff, henc⟩ : ∃ encOff, l3Off + ihlAt p l3Off + l4WirePortLen +
        (cp'.nonceSize + 2) = encOff := ⟨_, rfl⟩
      obtain ⟨n, hn⟩ : ∃ n, len = l3Off + ihlAt p l3Off + l4WirePortLen + n :=
        ⟨_, (Nat.add_sub_of_le (by omega)).symm⟩
      have htotal : len + (cp'.nonceSize + 2 + gcmTagSize) = encOff + n + gcmTagSize := by omega
      have hcipher : len + (cp'.nonceSize + 2) = encOff + n := by omega
      rw [hcipher] at htag
      rw [htotal] at hdec ⊢
      exact layer4_attempts_fail hmode h.gcm (by omega) h.nonceSize h.initialized hinit' hkeys henc
        hdec htag

end

/-- **Layer 4.** The fallback does not decrypt what the layer-4 encoder has encrypted. -/
theorem layer4_not_graceFallback {P Q : CryptoParams} {cfg : AppConfig} {dctx : CryptoDispatchCtx}
    {cp cp' : CryptoPolicy} {pi ppi counter len scratchSz l3Off ihl : ℕ} {p : Packet}
    (h : GracePolicies dctx actionEncryptL4 cp cp' pi ppi) (hcfg : cfg.policies ≠ [])
    (hsizes : ∀ c ∈ cfg.policies, c.nonceSize ≤ 16)
    (hns : (cryptoApplyFromPolicy P cp').NonceSizeOk)
    (hhdr : layer4EncryptHeader (dctx.prev.ctx ppi) p len = .ok (l3Off, ihl))
    (hin : l3Off + ihl ≤ len) :
    ¬ GraceFallback .l4 P Q cfg dctx cp cp' pi ppi counter p len scratchSz := by
  obtain ⟨key₀, hkey⟩ : ∃ key₀, keyBytes cp'.aesBits (dctx.prev.ctx ppi) .current = key₀ := ⟨_, rfl⟩
  obtain ⟨hret, hframe, htag⟩ := cryptoLayer4Encrypt_overwriting counter h.gcm hns hhdr hin hkey rfl
  exact h.not_graceFallback hkey hret htag
    (layer4_not_fallbackDecrypts h hcfg hsizes hns hkey hret hframe htag)

/-! ## Layer 3 -/

/-- No earlier layer-3 policy can be taken for the one of a frame: its nonce is not longer, and its
id does not stand in the nonce of the frame. -/
def NotMistaken (before : List CryptoPolicy) (nonceSize : ℕ) (nonce : List UInt8) : Prop :=
  ∀ c ∈ before, c.action = actionEncryptL3 → c.nonceSize ≤ nonceSize ∧
    nonce[c.nonceSize]? ≠ some c.idByte

section

variable {P Q : CryptoParams} {cfg : AppConfig} {before after : List CryptoPolicy}
  {dctx : CryptoDispatchCtx} {cp cp' : CryptoPolicy} {pi ppi counter len scratchSz : ℕ} {p : Packet}

theorem NotMistaken.not_namedInL3 {evp : Evp} {key : Key} {nonce plain : List UInt8} {last : UInt8}
    (h : NotMistaken before P.nonceSize nonce) (hn : nonce.length = P.nonceSize)
    (hid : ∀ c ∈ before, c.idByte ≠ P.policyId) :
    ∀ c ∈ before, ¬ c.NamedInL3 (tunnelBytes evp P key nonce plain last) := by
  intro c hc hnamed
  obtain ⟨hle, hnonce⟩ := h c hc hnamed.1
  rcases hle.eq_or_lt with heq | hlt
  · exact (not_named_of_nonceSize hn heq (hid c hc).symm).1 hnamed
  · refine hnonce ?_
    rw [← hnamed.2.2.2]
    unfold tunnelBytes
    rw [List.append_assoc, List.append_assoc, List.getElem?_append_left (by omega)]

theorem cryptoApplyFromPolicy_fakeProtocol (P : CryptoParams) (hact : cp.action = actionEncryptL3) :
    (cryptoApplyFromPolicy P cp).fakeProtocol = l3Marker P := by
  show (if cp.action = actionEncryptL3 then _ else _) = _
  rw [if_pos hact]
  unfold l3Marker
  split_ifs <;> first | rfl | contradiction

theorem GracePolicies.extract (h : GracePolicies dctx actionEncryptL3 cp cp' pi ppi)
    (hwire : WireIdsOk cfg) (hcfg : cfg.policies = before ++ cp :: after)
    (hmarker : l3Marker P = l3Marker Q) (hQ : Q.NonceSizeOk)
    (hns : (cryptoApplyFromPolicy P cp').NonceSizeOk)
    (hnamed : NotMistaken before cp.nonceSize
      (cryptoGenerateNonce (cryptoApplyFromPolicy P cp') counter protoFlagIpv4))
    {evp : Evp} {q : Packet} (hframe : Layer3Frame evp (cryptoApplyFromPolicy P cp')
      (dctx.prev.ctx ppi) counter p len q) :
    cryptoL3ExtractPolicyId Q cfg q (len + ((cryptoApplyFromPolicy P cp').tunnelHdrSize +
      (cryptoApplyFromPolicy P cp').tagSize)) = some cp.idByte := by
  have hpos : 0 < cp'.nonceSize := hns.pos
  have hnonceSize := h.nonceSize
  have hlength := length_cryptoGenerateNonce hns counter protoFlagIpv4
  refine (hframe.extract_iff hwire hcfg h.action_eq.1 h.idByte.symm h.nonceSize.symm
    (by omega)).mpr ⟨?_, ?_, ?_⟩
  · rw [cryptoApplyFromPolicy_fakeProtocol P h.action_eq.2, hmarker]
  · have hQsize : Q.tunnelHdrSize = Q.nonceSize + 2 := rfl
    have hPsize : (cryptoApplyFromPolicy P cp').tunnelHdrSize = cp'.nonceSize + 2 := rfl
    have htsz : (cryptoApplyFromPolicy P cp').tagSize = 16 := CryptoParams.tagSize_of_gcm h.gcm
    unfold layer3Tunnel
    rw [length_tunnelBytes hlength]
    have hQ' := hQ.le_sixteen
    omega
  · rw [h.nonceSize] at hnamed
    refine hnamed.not_namedInL3 hlength fun c hc => ?_
    rw [cryptoApplyFromPolicy_policyId, ← h.idByte]
    exact hwire.idByte_ne hcfg c hc

theorem GracePolicies.decryptHeader (h : GracePolicies dctx actionEncryptL3 cp cp' pi ppi)
    (hmarker : l3Marker P = l3Marker Q) (hlast : p ipv4ProtoOff ≠ cryptoL3FragMagic) {evp : Evp}
    {q : Packet} (hframe : Layer3Frame evp (cryptoApplyFromPolicy P cp') (dctx.prev.ctx ppi) counter
      p len q) :
    layer3DecryptHeader (cryptoApplyFromPolicy Q cp) (dctx.current.ctx pi) q
        (len + (cp'.nonceSize + 2 + gcmTagSize)) = .ok (ihlAt p ethHeaderSize) ∧
      layer3DecryptHeader (cryptoApplyFromPolicy Q cp') (dctx.prev.ctx ppi) q
        (len + (cp'.nonceSize + 2 + gcmTagSize)) = .ok (ihlAt p ethHeaderSize) := by
  have hhdr := hframe.decryptHeader_of_ne hlast
  have hfake : ∀ c : CryptoPolicy, c.action = actionEncryptL3 →
      (cryptoApplyFromPolicy Q c).fakeProtocol = (cryptoApplyFromPolicy P cp').fakeProtocol := by
    intro c hc
    rw [cryptoApplyFromPolicy_fakeProtocol Q hc,
      cryptoApplyFromPolicy_fakeProtocol P h.action_eq.2, hmarker]
  have htsz : (cryptoApplyFromPolicy P cp').tagSize = gcmTagSize := CryptoParams.tagSize_of_gcm h.gcm
  rw [htsz] at hhdr
  exact ⟨layer3DecryptHeader_congr hhdr h.nonceSize (hfake cp h.action_eq.1) h.initialized,
    layer3DecryptHeader_congr hhdr rfl (hfake cp' h.action_eq.2) hframe.initialized⟩

/-- The layer-3 branch does not decrypt a frame whose tag is that of `plain`, unless there is no
ciphertext, and both policies decode the frame in GCM mode. -/
theorem layer3_not_fallbackDecrypts {key₀ plain : List UInt8}
    (h : GracePolicies dctx actionEncryptL3 cp cp' pi ppi) (hcfg : cfg.policies ≠ [])
    (hmarker : l3Marker P = l3Marker Q)
    (hkey : keyBytes cp'.aesBits (dctx.prev.ctx ppi) .current = key₀) {e : ℤ × Packet}
    (hret : e.1 = ↑(len + ((cryptoApplyFromPolicy P cp').tunnelHdrSize + gcmTagSize)))
    (hframe : Layer3Frame (Evp.overwriting key₀ plain) (cryptoApplyFromPolicy P cp')
      (dctx.prev.ctx ppi) counter p len e.2)
    (hcipher : e.2.slice (ethHeaderSize + ihlAt p ethHeaderSize +
      (cryptoApplyFromPolicy P cp').tunnelHdrSize) (len - (ethHeaderSize + ihlAt p ethHeaderSize)) =
        plain)
    (htag : e.2.slice (len + (cryptoApplyFromPolicy P cp').tunnelHdrSize) gcmTagSize =
      List.replicate gcmTagSize 0)
    (hextract : cryptoL3ExtractPolicyId Q cfg e.2
      (len + ((cryptoApplyFromPolicy P cp').tunnelHdrSize + gcmTagSize)) = some cp.idByte)
    (hnot : ¬ (len = ethHeaderSize + ihlAt p ethHeaderSize ∧ p ipv4ProtoOff ≠ cryptoL3FragMagic ∧
      cp.cryptoMode = .gcm)) :
    ¬ FallbackDecrypts .l3 (Evp.overwriting key₀ plain) Q cfg dctx cp' ppi scratchSz e := by
  intro hfall
  have htagSize : gcmTagSize = 16 := rfl
  have hhdrSize : (cryptoApplyFromPolicy P cp').tunnelHdrSize = cp'.nonceSize + 2 := rfl
  have hhdrSize' : (cryptoApplyFromPolicy Q cp).tunnelHdrSize = cp'.nonceSize + 2 := by
    rw [← h.nonceSize]
    rfl
  have htsz : (cryptoApplyFromPolicy Q cp').tagSize = gcmTagSize := CryptoParams.tagSize_of_gcm h.gcm
  have hle := hframe.ihl_le
  rw [hhdrSize] at hret hcipher htag hextract
  by_cases hlast : p ipv4ProtoOff = cryptoL3FragMagic
  · -- the previous policy alone takes the frame for a fragment
    obtain ⟨hlt, -, hlen, -⟩ := hfall
    rw [hret, Int.toNat_natCast] at hlt hlen
    have hne : ∀ ihl, layer3DecryptHeader (cryptoApplyFromPolicy Q cp') (dctx.prev.ctx ppi) e.2
        (len + (cp'.nonceSize + 2 + gcmTagSize)) ≠ .ok ihl := fun ihl =>
      hframe.decryptHeader_ne_ok hlast rfl
    rcases cryptoLayer3Decrypt_of_ne_ok hne with hr | hr
    · exact absurd (hlen.symm.trans hr) (by omega)
    · exact absurd (hr.symm.trans_lt hlt) (lt_irrefl _)
  · obtain ⟨hhdr, -⟩ := h.decryptHeader hmarker hlast hframe
    obtain ⟨hret₀, -, hlen⟩ := hfall.len_eq
      (show ReturnsLength (CryptoLayer.l3.decrypt _) from returnsLength_l3 _)
    rw [show CryptoLayer.l3.action = actionEncryptL3 from rfl,
      cryptoDecryptPacketAutoByAction_l3 hcfg, hret, Int.toNat_natCast, hextract] at hret₀ hlen
    rw [htsz] at hlen
    simp only at hret₀ hlen
    have hkeys : ∀ slot, keyBytes cp.aesBits (dctx.current.ctx pi) slot ≠ key₀ := hkey ▸ h.keys
    refine h.decryptWithTables_ne rfl rfl (by omega) ?_ ?_ ⟨hret₀, hlen⟩
    · intro hmode
      refine (cryptoLayer3Decrypt_overwriting_ctr hmode hhdr (by omega) ?_).trans ?_
      · rw [hhdrSize']
        by_cases hempty : len = ethHeaderSize + ihlAt p ethHeaderSize
        · rw [hempty, Nat.sub_self, Buffer.slice_zero] at hcipher
          have hfirst := Buffer.headD_slice e.2 (len + (cp'.nonceSize + 2))
            (show 0 < gcmTagSize by decide) 0
          rw [← hcipher, ← hempty, ← hfirst, htag]
          rfl
        · rw [← hcipher, Buffer.headD_slice _ _ (by omega)]
      · rw [hhdrSize']
    · intro hmode
      obtain ⟨encOff, henc⟩ : ∃ encOff, ethHeaderSize + ihlAt p ethHeaderSize +
        (cp'.nonceSize + 2) = encOff := ⟨_, rfl⟩
      obtain ⟨n, hn⟩ : ∃ n, len = ethHeaderSize + ihlAt p ethHeaderSize + n :=
        ⟨_, (Nat.add_sub_of_le (by omega)).symm⟩
      have htotal : len + (cp'.nonceSize + 2 + gcmTagSize) = encOff + n + gcmTagSize := by omega
      have hcipher : len + (cp'.nonceSize + 2) = encOff + n := by omega
      have hpos : 0 < n := by
        by_contra hzero
        exact hnot ⟨by omega, hlast, hmode⟩
      rw [hcipher] at htag
      rw [htotal] at hhdr ⊢
      exact layer3_attempts_fail hmode h.gcm hpos h.nonceSize hkeys henc hhdr htag

/-- The layer-3 branch decrypts a frame without payload when the current policy is in GCM mode too:
its own decoder accepts the frame. -/
theorem layer3_graceFallback (h : GracePolicies dctx actionEncryptL3 cp cp' pi ppi)
    (hwire : WireIdsOk cfg) (hcfg : cfg.policies = before ++ cp :: after)
    (hmarker : l3Marker P = l3Marker Q) (hQ : Q.NonceSizeOk)
    (hns : (cryptoApplyFromPolicy P cp').NonceSizeOk)
    (hnamed : NotMistaken before cp.nonceSize
      (cryptoGenerateNonce (cryptoApplyFromPolicy P cp') counter protoFlagIpv4))
    (hlen : len = ethHeaderSize + ihlAt p ethHeaderSize) (hlast : p ipv4ProtoOff ≠ cryptoL3FragMagic)
    (hmode : cp.cryptoMode = .gcm) :
    GraceFallback .l3 P Q cfg dctx cp cp' pi ppi counter p len scratchSz := by
  intro evp _ e hgrew _
  obtain ⟨hret, hframe⟩ : e.1 = _ ∧ Layer3Frame evp _ _ counter p len e.2 :=
    cryptoLayer3Encrypt_frame hns hgrew
  obtain ⟨hhdr, hhdr'⟩ := h.decryptHeader hmarker hlast hframe
  have hextract := h.extract hwire hcfg hmarker hQ hns hnamed hframe
  have htsz : (cryptoApplyFromPolicy P cp').tagSize = gcmTagSize := CryptoParams.tagSize_of_gcm h.gcm
  have hhdrSize : (cryptoApplyFromPolicy P cp').tunnelHdrSize = cp'.nonceSize + 2 := rfl
  have htsz' : (cryptoApplyFromPolicy Q cp').tagSize = gcmTagSize := htsz
  have hhdrSize' : (cryptoApplyFromPolicy Q cp').tunnelHdrSize = cp'.nonceSize + 2 := rfl
  rw [htsz, hhdrSize] at hret hextract
  have hcfg' : cfg.policies ≠ [] := by
    rw [hcfg]
    exact List.append_ne_nil_of_right_ne_nil _ (List.cons_ne_nil _ _)
  obtain ⟨hsame, hfst⟩ := cryptoLayer3Decrypt_empty evp h.gcm hmode h.nonceSize hhdr' hhdr
    (by omega)
  have hattempt : (attemptDecrypt (cryptoLayer3Decrypt evp) Q cp (dctx.current.ctx pi) e.2
      (len + (cp'.nonceSize + 2 + gcmTagSize))).newLen = some len :=
    attemptDecrypt_of_success (by rw [hsame, hfst, hlen]) (by omega)
  have hauto : cryptoDecryptPacketAutoByAction evp Q true cfg dctx actionEncryptL3 e.2
      (len + (cp'.nonceSize + 2 + gcmTagSize)) scratchSz =
        ⟨0, (cryptoLayer3Decrypt evp (cryptoApplyFromPolicy Q cp) (dctx.current.ctx pi) e.2
          (len + (cp'.nonceSize + 2 + gcmTagSize))).2, len, cryptoApplyFromPolicy Q cp⟩ := by
    rw [cryptoDecryptPacketAutoByAction_l3 hcfg', hextract]
    exact h.decryptWithTables_of_some rfl hattempt
  have hn : e.1.toNat = len + (cp'.nonceSize + 2 + gcmTagSize) := by rw [hret, Int.toNat_natCast]
  unfold FallbackDecrypts
  rw [hn, show CryptoLayer.l3.action = actionEncryptL3 from rfl, hauto, hsame]
  have halone : (CryptoLayer.l3.decrypt evp (cryptoApplyFromPolicy Q cp') (dctx.prev.ctx ppi) e.2
      (len + (cp'.nonceSize + 2 + gcmTagSize))).1 = len := hfst.trans (by rw [hlen])
  refine ⟨?_, rfl, halone, fun j _ => rfl⟩
  rw [halone]
  omega

end

/-! ## The law -/

section

variable {P Q : CryptoParams} {cfg : AppConfig} {before after : List CryptoPolicy}
  {dctx : CryptoDispatchCtx} {cp cp' : CryptoPolicy} {pi ppi counter len scratchSz : ℕ} {p : Packet}

/-- **The fallback.** During the grace period no layer-4 frame of the previous policy is decrypted
as that policy alone would do it, and a layer-3 frame exactly when it has no payload, its protocol
is not the fragment magic and the current policy is in GCM mode too.  At layer 3 this is about the
frames that no earlier policy of the configuration is mistaken for its own. -/
theorem graceFallback_iff (hwire : WireIdsOk cfg) (hcfg : cfg.policies = before ++ cp :: after)
    (hsizes : ∀ c ∈ cfg.policies, c.nonceSize ≤ 16)
    (hns : (cryptoApplyFromPolicy P cp').NonceSizeOk) :
    (GracePolicies dctx actionEncryptL4 cp cp' pi ppi → ∀ l3Off ihl,
      layer4EncryptHeader (dctx.prev.ctx ppi) p len = .ok (l3Off, ihl) → l3Off + ihl ≤ len →
        ¬ GraceFallback .l4 P Q cfg dctx cp cp' pi ppi counter p len scratchSz) ∧
    (GracePolicies dctx actionEncryptL3 cp cp' pi ppi → ∀ ihl,
      layer3EncryptHeader (cryptoApplyFromPolicy P cp') (dctx.prev.ctx ppi) p len = .ok ihl →
      l3Marker P = l3Marker Q → Q.NonceSizeOk →
      NotMistaken before cp.nonceSize
        (cryptoGenerateNonce (cryptoApplyFromPolicy P cp') counter protoFlagIpv4) →
        (GraceFallback .l3 P Q cfg dctx cp cp' pi ppi counter p len scratchSz ↔
          len = ethHeaderSize + ihl ∧ p ipv4ProtoOff ≠ cryptoL3FragMagic ∧ cp.cryptoMode = .gcm)) := by
  have hcfg' : cfg.policies ≠ [] := by
    rw [hcfg]
    exact List.append_ne_nil_of_right_ne_nil _ (List.cons_ne_nil _ _)
  constructor
  · intro h l3Off ihl hhdr hin
    exact layer4_not_graceFallback h hcfg' hsizes hns hhdr hin
  · intro h ihl hhdr hmarker hQ hnamed
    obtain ⟨-, -, hihl, -⟩ := layer3EncryptHeader_eq_ok_iff.mp hhdr
    obtain ⟨rfl, -, -⟩ := ipv4HdrLenAt_eq_some_iff.mp hihl
    constructor
    · intro hfall
      by_contra hnot
      obtain ⟨key₀, hkey⟩ : ∃ key₀, keyBytes cp'.aesBits (dctx.prev.ctx ppi) .current = key₀ :=
        ⟨_, rfl⟩
      obtain ⟨plain, hplain⟩ : ∃ plain, p.slice (ethHeaderSize + ihlAt p ethHeaderSize)
        (len - (ethHeaderSize + ihlAt p ethHeaderSize)) = plain := ⟨_, rfl⟩
      obtain ⟨hret, hframe, hcipher, htag⟩ :=
        cryptoLayer3Encrypt_overwriting counter h.gcm hns hhdr hkey hplain
      have hextract := h.extract hwire hcfg hmarker hQ hns hnamed hframe
      have htsz : (cryptoApplyFromPolicy P cp').tagSize = gcmTagSize :=
        CryptoParams.tagSize_of_gcm h.gcm
      rw [htsz] at hextract
      exact absurd hfall (h.not_graceFallback hkey hret htag (layer3_not_fallbackDecrypts h hcfg'
        hmarker hkey hret hframe hcipher htag hextract hnot))
    · rintro ⟨hlen, hlast, hmode⟩
      exact layer3_graceFallback h hwire hcfg hmarker hQ hns hnamed hlen hlast hmode

end

def oldPolicy (action : ℤ) : CryptoPolicy := { samplePolicy action with cryptoMode := .gcm }

/-- The same policy with a key of ones. -/
def newPolicy (action : ℤ) : CryptoPolicy := { oldPolicy action with key := Key.repeated 1 }

/-- A table with one policy, which is ready and has its key in every slot. -/
def onePolicy (cp : CryptoPolicy) : PolicyRuntime where
  ctx _ := sampleCtx cp.key
  ready _ := true
  indexByActionId _ _ := some 0
  active := [cp]

/-- The grace period after the key of the only policy has changed. -/
def rekeyed (action : ℤ) : CryptoDispatchCtx where
  baseCtx := sampleCtx Key.zero
  current := onePolicy (newPolicy action)
  prev := onePolicy (oldPolicy action)
  prevGraceActive := true

theorem gracePolicies_rekeyed {action : ℤ}
    (hcur : lookupPolicyIndex (onePolicy (newPolicy action)) action 7 = some 0)
    (hprev : lookupPolicyIndex (onePolicy (oldPolicy action)) action 7 = some 0) :
    GracePolicies (rekeyed action) action (newPolicy action) (oldPolicy action) 0 0 where
  grace := rfl
  lookup := hcur
  policy := rfl
  ready := rfl
  initialized := rfl
  prevLookup := hprev
  prevPolicy := rfl
  prevReady := rfl
  action_eq := ⟨rfl, rfl⟩
  idByte := rfl
  nonceSize := rfl
  gcm := rfl
  keys _ := by
    show (Key.repeated 1).val.take 16 ≠ Key.zero.val.take 16
    decide

theorem graceFallback_rekeyed :
    GraceFallback .l3 (sampleParams .gcm) (sampleParams .gcm)
        (policiesConfig [newPolicy actionEncryptL3]) (rekeyed actionEncryptL3)
        (newPolicy actionEncryptL3) (oldPolicy actionEncryptL3) 0 0 0 ackFrame 34 2048 ∧
      ¬ GraceFallback .l4 (sampleParams .gcm) (sampleParams .gcm)
        (policiesConfig [newPolicy actionEncryptL4]) (rekeyed actionEncryptL4)
        (newPolicy actionEncryptL4) (oldPolicy actionEncryptL4) 0 0 0 ackFrame 54 2048 := by
  have hwire : ∀ action, WireIdsOk (policiesConfig [newPolicy action]) := fun action =>
    ⟨by show 1 ≤ maxCryptoPolicies; decide,
      by simp [policiesConfig, newPolicy, oldPolicy, samplePolicy], List.nodup_singleton _⟩
  have hcfg : ∀ action, (policiesConfig [newPolicy action]).policies =
      [] ++ newPolicy action :: [] := fun action => rfl
  have hsizes : ∀ action, ∀ c ∈ (policiesConfig [newPolicy action]).policies, c.nonceSize ≤ 16 := by
    simp [policiesConfig, newPolicy, oldPolicy, samplePolicy]
  constructor
  · refine ((graceFallback_iff (hwire _) (hcfg _) (hsizes _) (by decide)).2
      (gracePolicies_rekeyed (by decide) (by decide)) 20 (by decide) rfl (by decide) ?_).mpr
        (by decide)
    intro c hc
    cases hc
  · exact (graceFallback_iff (hwire _) (hcfg _) (hsizes _) (by decide)).1
      (gracePolicies_rekeyed (by decide) (by decide)) 14 20 (by decide) (by decide)

/-- **A frame in flight is lost.** The acknowledgement that was encrypted before the change of keys
is not decrypted at layer 4. -/
theorem not_graceFallback_ackFrame :
    (GracePolicies (rekeyed actionEncryptL4) actionEncryptL4 (newPolicy actionEncryptL4)
        (oldPolicy actionEncryptL4) 0 0 ∧
      layer4EncryptHeader ((rekeyed actionEncryptL4).prev.ctx 0) ackFrame 54 = .ok (14, 20)) ∧
      ¬ GraceFallback .l4 (sampleParams .gcm) (sampleParams .gcm)
        (policiesConfig [newPolicy actionEncryptL4]) (rekeyed actionEncryptL4)
        (newPolicy actionEncryptL4) (oldPolicy actionEncryptL4) 0 0 0 ackFrame 54 2048 := by
  have hpolicies : GracePolicies (rekeyed actionEncryptL4) actionEncryptL4 _ _ 0 0 :=
    gracePolicies_rekeyed (by decide) (by decide)
  have hhdr : layer4EncryptHeader ((rekeyed actionEncryptL4).prev.ctx 0) ackFrame 54 =
      .ok (14, 20) := by decide
  exact ⟨⟨hpolicies, hhdr⟩, layer4_not_graceFallback hpolicies (List.cons_ne_nil _ _)
    (by simp [policiesConfig, newPolicy, oldPolicy, samplePolicy]) (by decide) hhdr (by decide)⟩

end NetEncryptor

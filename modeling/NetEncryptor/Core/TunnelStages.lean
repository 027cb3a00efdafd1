import NetEncryptor.Core.WanThreads

/-!
# A layer-4 tunnel at the other gateway

The frames that one gateway makes under a layer-4 policy, in the layer-4 stage of another one that
has the same policy.  The two threads have their own salts, and their own keys for the previous and
the next epoch; `SameTunnel` and `SharesPolicy` say what they have in common.
-/

namespace NetEncryptor

/-! ## Parameters and contexts of two threads -/

/-- Mode, key length, nonce size and policy id of two threads are the same. -/
structure SameTunnel (P Q : CryptoParams) : Prop where
  mode : Q.mode = P.mode
  nonceSize : Q.nonceSize = P.nonceSize
  aesBits : Q.aesBits = P.aesBits
  policyId : Q.policyId = P.policyId

/-- The parameters with the salt of another thread.  No decoder reads the salt. -/
def CryptoParams.withSaltOf (Q P : CryptoParams) : CryptoParams :=
  { Q with nonceSalt := P.nonceSalt }

section

variable {evp : Evp} {P Q : CryptoParams}

theorem cryptoLayer4Decrypt_withSaltOf :
    cryptoLayer4Decrypt evp (Q.withSaltOf P) = cryptoLayer4Decrypt evp Q := rfl

theorem cryptoLayer4DecryptFragment_withSaltOf :
    cryptoLayer4DecryptFragment evp (Q.withSaltOf P) = cryptoLayer4DecryptFragment evp Q := rfl

namespace SameTunnel

variable (h : SameTunnel P Q)
include h

theorem tunnelHdrSize_eq : Q.tunnelHdrSize = P.tunnelHdrSize := by
  unfold CryptoParams.tunnelHdrSize
  rw [h.nonceSize]

theorem tagSize_eq : Q.tagSize = P.tagSize := by
  unfold CryptoParams.tagSize
  rw [h.mode]

theorem nonceSizeOk (hns : P.NonceSizeOk) : Q.NonceSizeOk := by
  unfold CryptoParams.NonceSizeOk
  rw [h.nonceSize]
  exact hns

theorem generateNonce (counter flag : ℕ) :
    cryptoGenerateNonce (Q.withSaltOf P) counter flag = cryptoGenerateNonce P counter flag := by
  have hsize : (Q.withSaltOf P).nonceSize = P.nonceSize := h.nonceSize
  unfold cryptoGenerateNonce
  rw [hsize]
  rfl

theorem encryptPayload_eq (key : Key) (nonce data : List UInt8) :
    encryptPayload evp (Q.withSaltOf P) key nonce data = encryptPayload evp P key nonce data := by
  have hmode : (Q.withSaltOf P).mode = P.mode := h.mode
  have hbits : (Q.withSaltOf P).aesBits = P.aesBits := h.aesBits
  unfold encryptPayload cryptoAesGcmEncrypt cryptoAesCtrWithKey
  rw [hmode, hbits]

end SameTunnel

end

/-! ## Frames under way -/

section

variable {evp : Evp} {P Q : CryptoParams} {ctx ctx' : PacketCryptoCtx} {counter len : ℕ}
  {p q q' : Packet} (h : SameTunnel P Q) (hinit : ctx'.initialized = true)
  (hkey : packetCryptoGetKey ctx' .current = packetCryptoGetKey ctx .current)
include h hinit hkey

/-- An encrypted frame, as the other gateway sees it: its memory behind the frame does not
matter. -/
theorem Layer4Frame.transfer {l3Off : ℕ} (hf : Layer4Frame evp P ctx counter p len l3Off q)
    (hq : ∀ j < len + (P.tunnelHdrSize + P.tagSize), q' j = q j) :
    Layer4Frame evp (Q.withSaltOf P) ctx' counter p len l3Off q' := by
  have hport : l4WirePortLen = 4 := rfl
  have hin := hf.inside
  have hns : (Q.withSaltOf P).nonceSize = P.nonceSize := h.nonceSize
  have hth : (Q.withSaltOf P).tunnelHdrSize = P.tunnelHdrSize := h.tunnelHdrSize_eq
  have htag : (Q.withSaltOf P).tagSize = P.tagSize := h.tagSize_eq
  have hhdr : P.tunnelHdrSize = P.nonceSize + 2 := rfl
  have ht := hf.tunnel
  have hplain := Buffer.length_slice p (l3Off + ihlAt p l3Off + l4WirePortLen)
    (len - (l3Off + ihlAt p l3Off + l4WirePortLen))
  have hcipher := ht.cipher_eq
  have htagEq := ht.tag_eq
  rw [hplain] at hcipher htagEq
  refine ⟨hinit, hf.offset, hf.proto, hf.ihl_ge, hf.inside, fun j hj h₂ h₃ h₁₀ h₁₁ => ?_, ?_⟩
  · exact (hq j (by omega)).trans (hf.header j hj h₂ h₃ h₁₀ h₁₁)
  rw [hkey, h.generateNonce]
  refine ⟨?_, ?_, ?_, ?_, ?_, ?_⟩ <;> simp only [h.encryptPayload_eq, hns, hth, htag, hplain]
  · exact ht.sealed
  · exact (Buffer.slice_congr fun j _ hj => hq j (by omega)).trans ht.nonce_eq
  · exact (hq _ (by omega)).trans (ht.policy_eq.trans h.policyId.symm)
  · exact (hq _ (by omega)).trans ht.last_eq
  · exact (Buffer.slice_congr fun j _ hj => hq j (by omega)).trans hcipher
  · exact (Buffer.slice_congr fun j _ hj => hq j (by omega)).trans htagEq

theorem Layer4FragFrame.transfer {plain : Packet} {ihl n pktId : ℕ} {fragIndex : UInt8}
    (hf : Layer4FragFrame evp P ctx counter p plain ihl n pktId fragIndex q)
    (hmac : ∀ j < 12, q' j = p j)
    (hq : ∀ j, 12 ≤ j → j < ethHeaderSize + ihl + l4WirePortLen + P.tunnelHdrSize + fragTagSize + n +
      P.tagSize → q' j = q j) :
    Layer4FragFrame evp (Q.withSaltOf P) ctx' counter p plain ihl n pktId fragIndex q' := by
  have heth : ethHeaderSize = 14 := rfl
  have hport : l4WirePortLen = 4 := rfl
  have hft : fragTagSize = 4 := rfl
  have hns : (Q.withSaltOf P).nonceSize = P.nonceSize := h.nonceSize
  have hth : (Q.withSaltOf P).tunnelHdrSize = P.tunnelHdrSize := h.tunnelHdrSize_eq
  have htag : (Q.withSaltOf P).tagSize = P.tagSize := h.tagSize_eq
  have hhdr : P.tunnelHdrSize = P.nonceSize + 2 := rfl
  have hheader : ∀ j < ethHeaderSize + ihl + l4WirePortLen, j ≠ 16 → j ≠ 17 → j ≠ 24 → j ≠ 25 →
      q' j = p j := fun j hj h₁₆ h₁₇ h₂₄ h₂₅ => by
    by_cases h₁₂ : j < 12
    · exact hmac j h₁₂
    · exact (hq j (by omega) (by omega)).trans (hf.header j hj h₁₆ h₁₇ h₂₄ h₂₅)
  refine ⟨hinit, hheader, ?_, ?_, ?_, ?_, ?_, ?_, ?_, ?_⟩ <;>
    simp only [h.encryptPayload_eq, h.generateNonce, hkey, hns, hth, htag]
  · exact (Buffer.slice_congr fun j _ hj => hq j (by omega) (by omega)).trans hf.nonce
  · exact (hq _ (by omega) (by omega)).trans (hf.policy.trans h.policyId.symm)
  · exact (hq _ (by omega) (by omega)).trans hf.magic
  · rw [readFragPktId_congr fun j _ hj => hq j (by omega) (by omega)]
    exact hf.pktId_eq
  · exact (hq _ (by omega) (by omega)).trans hf.fragIndex_eq
  · exact hf.sealed
  · exact (Buffer.slice_congr fun j _ hj => hq j (by omega) (by omega)).trans hf.cipher
  · exact (Buffer.slice_congr fun j _ hj => hq j (by omega) (by omega)).trans hf.tag

end

/-! ## The policy of the other gateway -/

/-- The receiver has a policy with the id and the cipher of `cp` as its layer-4 policy `pi`, ready
and with the current key of `ctx`. -/
structure SharesPolicy (b : Forwarder) (cp : CryptoPolicy) (ctx : PacketCryptoCtx)
    (cp' : CryptoPolicy) (pi : ℕ) : Prop where
  index : b.runtime.indexByActionId actionEncryptL4 cp'.idByte = some pi
  policy : (b.cfg.policies.take maxCryptoPolicies)[pi]? = some cp'
  action : cp'.action = actionEncryptL4
  ready : b.runtime.ready pi = true
  initialized : (b.runtime.ctx pi).initialized = true
  key : packetCryptoGetKey (b.runtime.ctx pi) .current = packetCryptoGetKey ctx .current
  idByte : cp'.idByte = cp.idByte
  mode : cp'.cryptoMode = cp.cryptoMode
  aesBits : cp'.aesBits = cp.aesBits
  nonceSize : cp'.nonceSize = cp.nonceSize

section

variable {evp : Evp} {b : Forwarder} {cp cp' : CryptoPolicy} {ctx baseCtx : PacketCryptoCtx} {pi n : ℕ}
  {prev : PolicyRuntime} {P Q : CryptoParams} (h : SharesPolicy b cp ctx cp' pi)
include h

theorem SharesPolicy.sameTunnel :
    SameTunnel (cryptoApplyFromPolicy P cp) (cryptoApplyFromPolicy Q cp') :=
  ⟨h.mode, h.nonceSize, h.aesBits, h.idByte⟩

theorem SharesPolicy.mem : cp' ∈ b.cfg.policies.take maxCryptoPolicies :=
  List.mem_of_getElem? h.policy

theorem SharesPolicy.getElem? : b.cfg.policies[pi]? = some cp' := by
  have hlt := (List.getElem?_eq_some_iff.mp h.policy).1
  rw [List.length_take] at hlt
  rw [← h.policy, List.getElem?_take_of_lt (by omega)]

theorem SharesPolicy.decryptWithTables {decrypt : DecryptFn} {accept : CryptoPolicy → Bool}
    {grace : Bool} {pkt w : Packet} {pktLen len : ℕ} (haccept : accept cp' = true)
    (hdec : decrypt (cryptoApplyFromPolicy Q cp') (b.runtime.ctx pi) pkt pktLen = (↑len, w))
    (hlt : len < pktLen) :
    NetEncryptor.decryptWithTables decrypt accept (dispatchCtx b baseCtx prev grace)
      actionEncryptL4 cp'.idByte Q pkt pktLen = ⟨0, w, len, cryptoApplyFromPolicy Q cp'⟩ := by
  have hactive := h.getElem?
  have hpi := (List.getElem?_eq_some_iff.mp hactive).1
  have hne : b.cfg.policies ≠ [] := fun hnil => by
    rw [hnil] at hpi
    cases hpi
  have hlookup : lookupPolicyIndex (dispatchCtx b baseCtx prev grace).current actionEncryptL4
      cp'.idByte = some pi := by
    unfold lookupPolicyIndex dispatchCtx
    simp only [h.index]
    rw [if_neg hne, if_pos (by decide), if_pos hpi]
  have hattempt : attemptDecrypt decrypt Q cp' (b.runtime.ctx pi) pkt pktLen =
      ⟨cryptoApplyFromPolicy Q cp', w, some len⟩ := by
    unfold attemptDecrypt
    simp only [hdec]
    rw [if_pos (by omega), Int.toNat_natCast]
  unfold NetEncryptor.decryptWithTables decryptWithTable
  rw [hlookup]
  simp only [dispatchCtx, hactive, h.ready, haccept, Bool.and_self, if_true, hattempt]

theorem SharesPolicy.resolve {accept : CryptoPolicy → Bool} {grace : Bool}
    (haccept : accept cp' = true) :
    resolveDecryptCtx b baseCtx prev accept grace Q actionEncryptL4 cp'.idByte =
      some (cryptoApplyFromPolicy Q cp', b.runtime.ctx pi) := by
  have hentry : readyEntry (dispatchCtx b baseCtx prev grace).current actionEncryptL4 cp'.idByte =
      some (cp', b.runtime.ctx pi) := by
    unfold readyEntry dispatchCtx
    simp only [h.index, h.ready, h.getElem?, if_true, Option.map_some]
  unfold resolveDecryptCtx
  simp only [hentry]
  rw [Option.filter_some, if_pos haccept]

omit h in
theorem extractL4_eq {pkt : Packet} {pktLen : ℕ}
    (hsizes : ∀ c ∈ b.cfg.policies, c.action = actionEncryptL4 → c.nonceSize = n) (hn : 4 ≤ n)
    (hp : TcpUdpFrame pkt pktLen)
    (hlen : ethHeaderSize + ihlAt pkt ethHeaderSize + l4WirePortLen + n + 1 < pktLen)
    (hcp : cp' ∈ b.cfg.policies.take maxCryptoPolicies) (hact : cp'.action = actionEncryptL4)
    (hid : pkt (ethHeaderSize + ihlAt pkt ethHeaderSize + l4WirePortLen + n) = cp'.idByte)
    (hmagic : pkt (ethHeaderSize + ihlAt pkt ethHeaderSize + l4WirePortLen + n + 1) =
        cryptoL4TunnelMagic ∨
      pkt (ethHeaderSize + ihlAt pkt ethHeaderSize + l4WirePortLen + n + 1) = cryptoL4FragMagic) :
    cryptoL4ExtractPolicyIdIpv4 b.cfg pkt pktLen = some (cp'.idByte, n) := by
  have h₂₀ := hp.ihl_ge
  have heth : ethHeaderSize = 14 := rfl
  have hport : l4WirePortLen = 4 := rfl
  have hproto : ¬ (pkt (ethHeaderSize + 9) ≠ 6 ∧ pkt (ethHeaderSize + 9) ≠ 17) := fun h' =>
    hp.proto.elim h'.1 h'.2
  have hns := hsizes cp' (List.mem_of_mem_take hcp) hact
  have hown : isL4TunnelOf cp' pkt pktLen
      (ethHeaderSize + ihlAt pkt ethHeaderSize + l4WirePortLen) = true := by
    unfold isL4TunnelOf
    simp only [hns, hact, hid, beq_self_eq_true, Bool.true_and, Bool.and_true, Bool.and_eq_true,
      Bool.or_eq_true, beq_iff_eq, decide_eq_true_eq]
    exact ⟨⟨by omega, hlen⟩, hmagic⟩
  obtain ⟨c, hc⟩ := Option.isSome_iff_exists.mp (List.find?_isSome (p := fun c =>
    isL4TunnelOf c pkt pktLen (ethHeaderSize + ihlAt pkt ethHeaderSize + l4WirePortLen))|>.mpr
      ⟨cp', hcp, hown⟩)
  have htest := List.find?_some hc
  simp only [isL4TunnelOf, Bool.and_eq_true, beq_iff_eq] at htest
  have hcns := hsizes c (List.mem_of_mem_take (List.mem_of_find?_eq_some hc)) htest.1.1.1.1
  unfold cryptoL4ExtractPolicyIdIpv4
  rw [hp.ethIpv4Offset]
  simp only
  rw [if_neg (by omega), if_neg (by omega), if_neg hproto, if_neg (by omega), hc, Option.map_some,
    hcns, ← htest.2, hcns, hid]

end

/-! ## The layer-4 stage -/

/-- A frame as it comes out of the tunnel: with the total length of the frame's length and the
checksum for it. -/
def restoredFrame (p : Packet) (len : ℕ) : Packet :=
  patchIpv4 p ethHeaderSize (ihlAt p ethHeaderSize) (len - ethHeaderSize)

theorem TcpUdpFrame.of_header {p q : Packet} {len total : ℕ} (hp : TcpUdpFrame p len)
    (hq : ∀ j, 12 ≤ j → j < ethHeaderSize + ihlAt p ethHeaderSize → j ≠ 16 → j ≠ 17 → j ≠ 24 →
      j ≠ 25 → q j = p j) (hle : ethHeaderSize + ihlAt p ethHeaderSize ≤ total) :
    TcpUdpFrame q total ∧ ihlAt q ethHeaderSize = ihlAt p ethHeaderSize := by
  have heth : ethHeaderSize = 14 := rfl
  have h₂₀ := hp.ihl_ge
  have hihl : ihlAt q ethHeaderSize = ihlAt p ethHeaderSize :=
    ihlAt_congr (hq 14 (by omega) (by omega) (by omega) (by omega) (by omega) (by omega))
  have hproto : q ipv4ProtoOff = p ipv4ProtoOff :=
    hq 23 (by omega) (by omega) (by omega) (by omega) (by omega) (by omega)
  refine ⟨⟨⟨by omega, ?_⟩, by omega, by omega, hproto ▸ hp.proto⟩, hihl⟩
  exact (Buffer.be16_congr (hq 12 le_rfl (by omega) (by omega) (by omega) (by omega) (by omega))
    (hq 13 (by omega) (by omega) (by omega) (by omega) (by omega) (by omega))).trans hp.ipv4.2

section

variable {evp : Evp} {b : Forwarder} {cp cp' : CryptoPolicy} {ctx baseCtx : PacketCryptoCtx}
  {pi n : ℕ} {prev : PolicyRuntime} {P Q : CryptoParams} (hb : ReceivesL4 n b)
  (h : SharesPolicy b cp ctx cp' pi) (hns : (cryptoApplyFromPolicy P cp).NonceSizeOk)
include hb h

theorem SharesPolicy.nonceSize_eq : cp'.nonceSize = n ∧ cp.nonceSize = n := by
  have hcp' := hb.sizes cp' (List.mem_of_mem_take h.mem) h.action
  exact ⟨hcp', h.nonceSize.symm.trans hcp'⟩

include hns

theorem SharesPolicy.four_le : 4 ≤ n := by
  have hcp := (h.nonceSize_eq hb).2
  have : cp.nonceSize = 4 ∨ cp.nonceSize = 8 ∨ cp.nonceSize = 12 ∨ cp.nonceSize = 16 := hns
  omega

theorem SharesPolicy.accept : acceptNonceSize n cp' = true := by
  have hn := h.four_le hb hns
  unfold acceptNonceSize
  rw [(h.nonceSize_eq hb).1, beq_self_eq_true, Bool.and_true, decide_eq_true_eq]
  omega

variable (baseCtx prev Q) {counter len total : ℕ} (input : StageInput) {p q q' : Packet}
  (hevp : evp.Lawful) (hp : TcpUdpFrame p len)
include hevp hp

/-- **A whole frame** comes out of the tunnel. -/
theorem wanStageL4_whole
    (hf : Layer4Frame evp (cryptoApplyFromPolicy P cp) ctx counter p len ethHeaderSize q)
    (htotal : total =
      len + ((cryptoApplyFromPolicy P cp).tunnelHdrSize + (cryptoApplyFromPolicy P cp).tagSize))
    (hq : ∀ j < total, q' j = q j) :
    TcpUdpFrame q' total ∧ ∃ w, wanStageL4 evp b baseCtx prev input Q q' total =
        ⟨.forward w len, cryptoApplyFromPolicy Q cp', input.table⟩ ∧
      ∀ j < len, w j = restoredFrame p len j := by
  have hport : l4WirePortLen = 4 := rfl
  have heth : ethHeaderSize = 14 := rfl
  have hhdr : (cryptoApplyFromPolicy P cp).tunnelHdrSize = cp.nonceSize + 2 := rfl
  have hn := h.four_le hb hns
  obtain ⟨hcp'n, hcpn⟩ := h.nonceSize_eq hb
  have hin := hf.inside
  have hsame : SameTunnel (cryptoApplyFromPolicy P cp) (cryptoApplyFromPolicy Q cp') := h.sameTunnel
  have hframe := hf.transfer hsame h.initialized h.key (htotal ▸ hq)
  have hsizes : ((cryptoApplyFromPolicy Q cp').withSaltOf (cryptoApplyFromPolicy P cp)).tunnelHdrSize +
      ((cryptoApplyFromPolicy Q cp').withSaltOf (cryptoApplyFromPolicy P cp)).tagSize =
      (cryptoApplyFromPolicy P cp).tunnelHdrSize + (cryptoApplyFromPolicy P cp).tagSize := by
    rw [← hsame.tunnelHdrSize_eq, ← hsame.tagSize_eq]
    rfl
  obtain ⟨w, hw, hdec⟩ := hframe.decrypt hevp (hsame.nonceSizeOk hns)
  rw [hsizes, ← htotal, cryptoLayer4Decrypt_withSaltOf] at hdec
  obtain ⟨hq'p, hihl⟩ := hp.of_header (q := q')
    (fun j _ hj h₂ h₃ h₁₀ h₁₁ => hframe.header j (by omega) h₂ h₃ h₁₀ h₁₁)
    (show ethHeaderSize + ihlAt p ethHeaderSize ≤ total by omega)
  have hid : q' (ethHeaderSize + ihlAt q' ethHeaderSize + l4WirePortLen + n) = cp'.idByte := by
    rw [hihl, ← hcp'n]
    exact hframe.tunnel.policy_eq
  have hmagic : q' (ethHeaderSize + ihlAt q' ethHeaderSize + l4WirePortLen + n + 1) =
      cryptoL4TunnelMagic := by
    rw [hihl, ← hcp'n]
    exact hframe.tunnel.last_eq
  have hextract : cryptoL4ExtractPolicyIdIpv4 b.cfg q' total = some (cp'.idByte, n) :=
    extractL4_eq hb.sizes hn hq'p (by omega) h.mem h.action hid (.inl hmagic)
  have hnofrag : fragIsFragmentL4 Q b.cfg q' total = none := by
    rw [fragIsFragmentL4_eq, if_neg]
    rintro ⟨-, c, hc, htest⟩
    unfold isFragmentL4Under isTunnelFragmentUnder at htest
    simp only [Bool.and_eq_true, beq_iff_eq] at htest
    have hother := htest.1.2
    rw [hb.sizes c (List.mem_of_mem_take hc) htest.1.1.1.1, hmagic] at hother
    exact absurd hother (by decide)
  refine ⟨hq'p, patchIpv4 w ethHeaderSize (ihlAt p ethHeaderSize) (len - ethHeaderSize), ?_, ?_⟩
  · unfold wanStageL4 wholeStage
    rw [hnofrag]
    simp only [hb.enabled, cryptoDecryptPacketAutoByAction_l4 hb.policies, hextract,
      h.decryptWithTables (h.accept hb hns) hdec (by omega)]
    rfl
  · intro j hj
    exact patchIpv4_congr (Nat.zero_le _) hp.ihl_le
      (fun j _ hj h₂ h₃ h₁₀ h₁₁ => hw j hj h₂ h₃ h₁₀ h₁₁) j (Nat.zero_le j) hj

/-- What the stage makes of a fragment once the table has had it. -/
def reassembled (w : Packet) (P : CryptoParams) (r : Reassembly) : StageResult :=
  if r.ret = 0 then ⟨.wait, P, r.table⟩
  else if r.ret ≠ 1 then ⟨.drop, P, r.table⟩
  else ⟨.forward (w.copy 0 r.outBuf 0 r.outLen) r.outLen, P, r.table⟩

/-- **A fragment** is decrypted and put into the table. -/
theorem wanStageL4_fragment (hfit : FitsL4 n Q) {plain : Packet} {m pktId : ℕ} {fragIndex : UInt8}
    (hf : Layer4FragFrame evp (cryptoApplyFromPolicy P cp) ctx counter p plain
      (ihlAt p ethHeaderSize) m pktId fragIndex q) (hidx : fragIndex.toNat ≤ 1)
    (htotal : total = ethHeaderSize + ihlAt p ethHeaderSize + l4WirePortLen +
      (cryptoApplyFromPolicy P cp).tunnelHdrSize + fragTagSize + m +
        (cryptoApplyFromPolicy P cp).tagSize)
    (hmac : ∀ j < 12, q' j = p j) (hq : ∀ j, 12 ≤ j → j < total → q' j = q j) :
    TcpUdpFrame q' total ∧ ∃ w, wanStageL4 evp b baseCtx prev input Q q' total =
        reassembled w (cryptoApplyFromPolicy Q cp')
          (fragTryReassembleL4 input.table input.now w
            (ethHeaderSize + ihlAt p ethHeaderSize + l4WirePortLen + m) (pktId % 65536) fragIndex
            input.reassBuf 0) ∧
      (∀ j < ethHeaderSize + ihlAt p ethHeaderSize, j ≠ 16 → j ≠ 17 → j ≠ 24 → j ≠ 25 → w j = p j) ∧
      ∀ k < m, w (ethHeaderSize + ihlAt p ethHeaderSize + l4WirePortLen + k) = plain k := by
  have hport : l4WirePortLen = 4 := rfl
  have heth : ethHeaderSize = 14 := rfl
  have hft : fragTagSize = 4 := rfl
  have hhdr : (cryptoApplyFromPolicy P cp).tunnelHdrSize = cp.nonceSize + 2 := rfl
  have h₂₀ := hp.ihl_ge
  have hn := h.four_le hb hns
  obtain ⟨hcp'n, hcpn⟩ := h.nonceSize_eq hb
  have hsame : SameTunnel (cryptoApplyFromPolicy P cp) (cryptoApplyFromPolicy Q cp') := h.sameTunnel
  have hframe := hf.transfer hsame h.initialized h.key hmac (htotal ▸ hq)
  have hsize : ((cryptoApplyFromPolicy Q cp').withSaltOf (cryptoApplyFromPolicy P cp)).tunnelHdrSize =
      (cryptoApplyFromPolicy P cp).tunnelHdrSize := hsame.tunnelHdrSize_eq
  have htag : ((cryptoApplyFromPolicy Q cp').withSaltOf (cryptoApplyFromPolicy P cp)).tagSize =
      (cryptoApplyFromPolicy P cp).tagSize := hsame.tagSize_eq
  obtain ⟨w, hdec, hw, hplain⟩ := hframe.decrypt hp.ipv4.2 rfl h₂₀ hp.proto hevp
  obtain ⟨hq'p, hihl⟩ := hp.of_header (q := q')
    (fun j _ hj h₁₆ h₁₇ h₂₄ h₂₅ => hframe.header j (by omega) h₁₆ h₁₇ h₂₄ h₂₅)
    (show ethHeaderSize + ihlAt p ethHeaderSize ≤ total by omega)
  have hlooks := hframe.looksLikeFragmentL4 h.mem h.action rfl rfl (by omega)
    hp.ipv4.2 h₂₀ hp.proto
  have htagAt := hframe.fragTagAt_eq (Q := Q) (hfit.nonceSize.trans hcp'n.symm) hidx
  rw [hsize, htag, ← htotal] at hdec hlooks htagAt
  rw [cryptoLayer4DecryptFragment_withSaltOf] at hdec
  have hfrag : fragIsFragmentL4 Q b.cfg q' total = some (pktId % 65536, fragIndex) := by
    rw [fragIsFragmentL4_eq, if_pos hlooks, hihl, htagAt]
  have hid : q' (ethHeaderSize + ihlAt q' ethHeaderSize + l4WirePortLen + n) = cp'.idByte := by
    rw [hihl, ← hcp'n]
    exact hframe.policy
  have hmagic : q' (ethHeaderSize + ihlAt q' ethHeaderSize + l4WirePortLen + n + 1) =
      cryptoL4FragMagic := by
    rw [hihl, ← hcp'n]
    exact hframe.magic
  have hextract : cryptoL4ExtractPolicyIdIpv4 b.cfg q' total = some (cp'.idByte, n) :=
    extractL4_eq hb.sizes hn hq'p (by omega) h.mem h.action hid (.inr hmagic)
  have hresolve : forwarderResolveL4DecryptCtx b baseCtx prev input.graceActive Q q' total =
      some (cryptoApplyFromPolicy Q cp', b.runtime.ctx pi) := by
    unfold forwarderResolveL4DecryptCtx
    rw [if_neg hb.policies, hextract]
    exact h.resolve (h.accept hb hns)
  refine ⟨hq'p, w, ?_, hw, hplain⟩
  unfold wanStageL4 fragmentStage
  rw [hfrag, hresolve]
  simp only [hdec]
  rfl

end

end NetEncryptor

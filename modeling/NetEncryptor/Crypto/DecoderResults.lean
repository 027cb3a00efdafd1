import NetEncryptor.Crypto.Authentication
import NetEncryptor.Crypto.AutoDecrypt

/-!
# What the decoders accept and return

The tests that the layer-3 and layer-4 decoders make on a frame, as equivalences, and what follows
from them for the two attempts of `crypto_decrypt_packet_auto_by_action`: a decoder returns `-1`,
the length that it was given, or that length without header and tag.
-/

namespace NetEncryptor

/-! ## The headers -/

section

variable {P : CryptoParams} {ctx : PacketCryptoCtx} {q : Packet} {n l3Off ihl : ℕ}

theorem layer3DecryptHeader_eq_ok_iff : layer3DecryptHeader P ctx q n = .ok ihl ↔
    ctx.initialized = true ∧ pktIsIpv4 q n ∧ ipv4HdrLenAt q n ethHeaderSize = some ihl ∧
      ethHeaderSize + ihl + P.tunnelHdrSize ≤ n ∧
      q (ethHeaderSize + ihl + P.nonceSize + 1) ≠ cryptoL3FragMagic ∧
      q ipv4ProtoOff = P.fakeProtocol := by
  refine ⟨fun h => ?_, fun ⟨hinit, hip, hihl, hlen, hlast, hproto⟩ =>
    layer3DecryptHeader_eq_ok hinit hip hihl hlen hlast hproto⟩
  unfold layer3DecryptHeader at h
  split_ifs at h with h₁ h₂ h₃
  · cases hihl : ipv4HdrLenAt q n ethHeaderSize with
    | none => rw [hihl] at h; cases h
    | some ihl' =>
      rw [hihl] at h
      simp only at h
      split_ifs at h
  rw [not_or, Bool.not_eq_false] at h₁
  cases hihl : ipv4HdrLenAt q n ethHeaderSize with
  | none => rw [hihl] at h; cases h
  | some ihl' =>
    rw [hihl] at h
    simp only at h
    split_ifs at h with h₄ h₅
    cases h
    exact ⟨h₁.1, h₂, rfl, not_lt.mp h₄, h₅, not_not.mp h₃⟩

theorem layer3DecryptHeader_congr {P' : CryptoParams} {ctx' : PacketCryptoCtx}
    (h : layer3DecryptHeader P ctx q n = .ok ihl) (hns : P'.nonceSize = P.nonceSize)
    (hfake : P'.fakeProtocol = P.fakeProtocol) (hinit : ctx'.initialized = true) :
    layer3DecryptHeader P' ctx' q n = .ok ihl := by
  have hhdr : P'.tunnelHdrSize = P.tunnelHdrSize := by unfold CryptoParams.tunnelHdrSize; rw [hns]
  obtain ⟨-, hip, hihl, hlen, hlast, hproto⟩ := layer3DecryptHeader_eq_ok_iff.mp h
  exact layer3DecryptHeader_eq_ok hinit hip hihl (hhdr ▸ hlen) (hns ▸ hlast) (hfake ▸ hproto)

theorem cryptoLayer3Decrypt_of_ne_ok {evp : Evp}
    (h : ∀ ihl, layer3DecryptHeader P ctx q n ≠ .ok ihl) :
    (cryptoLayer3Decrypt evp P ctx q n).1 = -1 ∨ (cryptoLayer3Decrypt evp P ctx q n).1 = n := by
  cases hhdr : layer3DecryptHeader P ctx q n with
  | error r =>
    unfold cryptoLayer3Decrypt
    rw [hhdr]
    exact layer3DecryptHeader_error hhdr
  | ok ihl => exact absurd hhdr (h ihl)

theorem Layer3Frame.decryptHeader_ne_ok {evp : Evp} {P' : CryptoParams} {ctx' : PacketCryptoCtx}
    {counter len : ℕ} {p : Packet} (h : Layer3Frame evp P' ctx' counter p len q)
    (hlast : p ipv4ProtoOff = cryptoL3FragMagic) (hns : P.nonceSize = P'.nonceSize) :
    layer3DecryptHeader P ctx q n ≠ .ok ihl := by
  intro hhdr
  have heth : ethHeaderSize = 14 := rfl
  have h₂₀ := h.ihl_ge
  obtain ⟨-, -, hihl, -, hne, -⟩ := layer3DecryptHeader_eq_ok_iff.mp hhdr
  obtain ⟨rfl, -, -⟩ := ipv4HdrLenAt_eq_some_iff.mp hihl
  have hsame : ihlAt q ethHeaderSize = ihlAt p ethHeaderSize :=
    ihlAt_congr (h.header _ (by omega) (by omega) (by omega) (by omega) (by omega) (by omega))
  rw [hsame, hns, h.tunnel.last_eq] at hne
  exact hne hlast

theorem layer4DecryptHeader_eq_ok_iff : layer4DecryptHeader P ctx q n = .ok (l3Off, ihl) ↔
      ctx.initialized = true ∧ cryptoEthIpv4Offset q n = some l3Off ∧ l3Off + 20 ≤ n ∧
        (q (l3Off + 9) = 6 ∨ q (l3Off + 9) = 17) ∧ ihl = ihlAt q l3Off ∧ 20 ≤ ihl ∧
        l3Off + ihl + l4WirePortLen + P.tunnelHdrSize ≤ n ∧
        l4IsTunnelHeader q (l3Off + ihl + l4WirePortLen) P.nonceSize := by
  unfold layer4DecryptHeader
  by_cases h₁ : ctx.initialized = false
  · rw [if_pos h₁]
    refine iff_of_false (by simp) fun h => ?_
    rw [h.1] at h₁; cases h₁
  rw [if_neg h₁]
  rw [Bool.not_eq_false] at h₁
  cases hoff : cryptoEthIpv4Offset q n with
  | none => simp
  | some off =>
    simp only [Option.some.injEq]
    split_ifs with h₂ h₃ h₄ h₅
    · refine iff_of_false (by simp) ?_
      rintro ⟨-, rfl, h, -⟩
      omega
    · refine iff_of_false (by simp) ?_
      rintro ⟨-, rfl, -, h, -⟩
      exact h.elim h₃.1 h₃.2
    · refine iff_of_false (by simp) ?_
      rintro ⟨-, rfl, -, -, rfl, h, -⟩
      omega
    · refine iff_of_false (by simp) ?_
      rintro ⟨-, rfl, -, -, rfl, -, hle, htun⟩
      exact h₅.elim (by omega) fun h => h htun
    · rw [not_or, not_lt, not_not] at h₅
      simp only [Except.ok.injEq, Prod.mk.injEq]
      constructor
      · rintro ⟨rfl, rfl⟩
        exact ⟨h₁, rfl, by omega, by tauto, rfl, by omega, h₅⟩
      · rintro ⟨-, rfl, -, -, rfl, -⟩
        exact ⟨rfl, rfl⟩

theorem layer4DecryptHeader_congr {P' : CryptoParams} {ctx' : PacketCryptoCtx} {q' : Packet}
    (h : layer4DecryptHeader P ctx q n = .ok (l3Off, ihl)) (hns : P'.nonceSize = P.nonceSize)
    (hinit : ctx'.initialized = true)
    (hq : ∀ j < l3Off + ihl + l4WirePortLen + P.tunnelHdrSize, q' j = q j) :
    layer4DecryptHeader P' ctx' q' n = .ok (l3Off, ihl) := by
  have hhdr : P.tunnelHdrSize = P.nonceSize + 2 := rfl
  have hhdr' : P'.tunnelHdrSize = P'.nonceSize + 2 := rfl
  obtain ⟨-, hoff, h₂₀, hproto, rfl, hihl, hle, htun⟩ := layer4DecryptHeader_eq_ok_iff.mp h
  refine layer4DecryptHeader_eq_ok_iff.mpr ⟨hinit, ?_, h₂₀, ?_, ?_, hihl, by omega, ?_, ?_⟩
  · exact cryptoEthIpv4Offset_eq_some hoff le_rfl fun i hi => hq i (by omega)
  · rwa [hq _ (by omega)]
  · exact (ihlAt_congr (hq _ (by omega))).symm
  · rw [hns, hq _ (by omega)]
    exact htun.1
  · rw [hq _ (by omega)]
    exact htun.2

theorem cryptoL4ExtractPolicyIdIpv4_eq_some {cfg : AppConfig} {id : UInt8} {nonceSize : ℕ}
    (hoff : cryptoEthIpv4Offset q n = some l3Off)
    (h : cryptoL4ExtractPolicyIdIpv4 cfg q n = some (id, nonceSize)) :
    (0 < nonceSize ∧ ∃ c ∈ cfg.policies, c.nonceSize = nonceSize) ∧
      q (l3Off + ihlAt q l3Off + l4WirePortLen + nonceSize) = id := by
  unfold cryptoL4ExtractPolicyIdIpv4 at h
  rw [hoff] at h
  simp only at h
  split_ifs at h
  obtain ⟨c, hfind, hc⟩ := Option.map_eq_some_iff.mp h
  obtain ⟨rfl, rfl⟩ := Prod.mk.inj hc
  have htest := List.find?_some hfind
  unfold isL4TunnelOf at htest
  simp only [Bool.and_eq_true, beq_iff_eq, decide_eq_true_eq] at htest
  obtain ⟨⟨⟨⟨-, hpos⟩, -⟩, -⟩, hid⟩ := htest
  exact ⟨⟨hpos, c, List.mem_of_mem_take (List.mem_of_find?_eq_some hfind), rfl⟩, hid⟩

/-- On a frame with a tag and no ciphertext all decoders in GCM mode that accept its header agree:
they take off header and tag. -/
theorem cryptoLayer3Decrypt_empty (evp : Evp) {P' : CryptoParams} {ctx' : PacketCryptoCtx}
    (hmode : P.mode = .gcm) (hmode' : P'.mode = .gcm) (hns : P'.nonceSize = P.nonceSize)
    (hhdr : layer3DecryptHeader P ctx q n = .ok ihl)
    (hhdr' : layer3DecryptHeader P' ctx' q n = .ok ihl)
    (hn : n = ethHeaderSize + ihl + P.tunnelHdrSize + P.tagSize) :
    cryptoLayer3Decrypt evp P' ctx' q n = cryptoLayer3Decrypt evp P ctx q n ∧
      (cryptoLayer3Decrypt evp P ctx q n).1 = ↑(ethHeaderSize + ihl) := by
  have hth : P'.tunnelHdrSize = P.tunnelHdrSize := by unfold CryptoParams.tunnelHdrSize; rw [hns]
  have htsz : P'.tagSize = P.tagSize := by unfold CryptoParams.tagSize; rw [hmode, hmode']
  have henc : cipherLen P' n (ethHeaderSize + ihl + P.tunnelHdrSize) =
      cipherLen P n (ethHeaderSize + ihl + P.tunnelHdrSize) := by unfold cipherLen; rw [htsz]
  have hopen : ∀ (R : CryptoParams) (c : PacketCryptoCtx) (x : UInt8) (packet : Packet),
      R.mode = .gcm → R.tagSize = P.tagSize →
      openTunnel evp R c keyOrder (layer3Verify R x) packet n (ethHeaderSize + ihl)
        (ethHeaderSize + ihl + P.tunnelHdrSize) = (true, packet) := fun R c x packet hR ht =>
    openTunnel_empty hR (by omega) (by unfold layer3Verify; rw [hR])
  unfold cryptoLayer3Decrypt
  rw [hhdr, hhdr']
  simp only [hns, hth, htsz, henc, hopen P ctx _ _ hmode rfl, hopen P' ctx' _ _ hmode' htsz, if_true,
    true_and]
  exact congrArg Nat.cast (by omega)

end

/-! ## The results -/

/-- A decoder returns `-1`, the length that it was given, or that length without header and tag. -/
def ReturnsLength (decrypt : DecryptFn) : Prop :=
  ∀ P ctx pkt pktLen, (decrypt P ctx pkt pktLen).1 = -1 ∨ (decrypt P ctx pkt pktLen).1 = pktLen ∨
    (decrypt P ctx pkt pktLen).1 = ↑(pktLen - (P.tunnelHdrSize + P.tagSize))

theorem returnsLength_l3 (evp : Evp) : ReturnsLength (cryptoLayer3Decrypt evp) := by
  intro P ctx q n
  unfold cryptoLayer3Decrypt
  cases hhdr : layer3DecryptHeader P ctx q n with
  | error r => exact (layer3DecryptHeader_error hhdr).imp_right .inl
  | ok ihl =>
    simp only
    split_ifs
    · exact .inr (.inr rfl)
    · exact .inl rfl

theorem returnsLength_l4 (evp : Evp) : ReturnsLength (cryptoLayer4Decrypt evp) := by
  intro P ctx q n
  unfold cryptoLayer4Decrypt
  cases hhdr : layer4DecryptHeader P ctx q n with
  | error r => exact (layer4DecryptHeader_error hhdr).imp_right .inl
  | ok hdr =>
    obtain ⟨l3Off, ihl⟩ := hdr
    obtain ⟨-, -, -, -, -, -, hle, -⟩ := layer4DecryptHeader_eq_ok_iff.mp hhdr
    simp only
    split_ifs with hopen
    · have htag := le_of_openTunnel hopen
      refine .inr (.inr (congrArg Nat.cast ?_))
      unfold cipherLen
      omega
    · exact .inl rfl

theorem attemptDecrypt_of_failure {decrypt : DecryptFn} {P : CryptoParams} {cp : CryptoPolicy}
    {ctx : PacketCryptoCtx} {pkt : Packet} {n : ℕ}
    (h : (decrypt (cryptoApplyFromPolicy P cp) ctx pkt n).1 = -1 ∨
      (decrypt (cryptoApplyFromPolicy P cp) ctx pkt n).1 = n) :
    (attemptDecrypt decrypt P cp ctx pkt n).newLen = none := by
  unfold attemptDecrypt
  exact if_neg (by omega)

theorem attemptDecrypt_of_success {decrypt : DecryptFn} {P : CryptoParams} {cp : CryptoPolicy}
    {ctx : PacketCryptoCtx} {pkt : Packet} {n m : ℕ}
    (h : (decrypt (cryptoApplyFromPolicy P cp) ctx pkt n).1 = m) (hm : m < n) :
    (attemptDecrypt decrypt P cp ctx pkt n).newLen = some m := by
  unfold attemptDecrypt
  simp only [h]
  exact if_pos (by omega)

section

variable {decrypt : DecryptFn} {accept : CryptoPolicy → Bool} {action : ℤ} {policyId : UInt8}
  {P : CryptoParams} {pkt : Packet} {n : ℕ} (hdec : ReturnsLength decrypt)
include hdec

theorem attemptDecrypt_len {cp : CryptoPolicy} {ctx : PacketCryptoCtx} {m : ℕ}
    (h : (attemptDecrypt decrypt P cp ctx pkt n).newLen = some m) :
    m = n - (cp.nonceSize + 2 + (cryptoApplyFromPolicy P cp).tagSize) := by
  have hdec := hdec (cryptoApplyFromPolicy P cp) ctx pkt n
  unfold attemptDecrypt at h
  simp only at h
  split_ifs at h with hlt
  cases h
  rcases hdec with e | e | e
  · omega
  · omega
  · rw [e]
    rfl

theorem decryptWithTables_len {dctx : CryptoDispatchCtx}
    (h : (decryptWithTables decrypt accept dctx action policyId P pkt n).ret = 0) :
    ∃ cp P', accept cp = true ∧ (decryptWithTables decrypt accept dctx action policyId P pkt n).len =
      n - (cp.nonceSize + 2 + (cryptoApplyFromPolicy P' cp).tagSize) := by
  obtain ⟨cp, _, P', _, haccept, hm⟩ := decryptWithTables_eq_zero h
  exact ⟨cp, P', haccept, attemptDecrypt_len hdec hm⟩

end

theorem verifyDecryptedPayload_of_head {payload : List UInt8} {proto : UInt8}
    (hlen : 4 ≤ payload.length) (hhead : payload.getD 0 0 ≠ 0) :
    verifyDecryptedPayload payload proto = true := by
  have hword : wordAt payload 0 ≠ 0 := by
    have hne : (payload.getD 0 0).toNat ≠ 0 := fun h =>
      hhead (UInt8.toNat_inj.mp (h.trans UInt8.toNat_zero.symm))
    unfold wordAt
    omega
  unfold verifyDecryptedPayload
  rw [if_neg (by omega : ¬ payload.length < 4)]
  split_ifs
  · simp [hword]
  · rfl

end NetEncryptor

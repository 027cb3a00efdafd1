import NetEncryptor.Core.Runtime
import NetEncryptor.Crypto.Dispatch
import NetEncryptor.Crypto.Layer2

/-!
# Decrypting with the tables of the policies

`crypto_decrypt_packet_auto_by_action`: the policy id of a received frame selects a policy and its
context, first in the tables of the running configuration and then, during the grace period, in
those of the previous one.  Both attempts work in place on the frame.

A frame in which no policy is found is returned as it is, and counts as a success.
-/

namespace NetEncryptor

/-- `struct crypto_dispatch_ctx`.  The policies of a table are its active ones. -/
structure CryptoDispatchCtx where
  baseCtx : PacketCryptoCtx
  current : PolicyRuntime
  prev : PolicyRuntime
  prevGraceActive : Bool

/-- `crypto_apply_default_from_cfg`, without the process-wide encrypt layer. -/
def cryptoApplyDefaultFromCfg (P : CryptoParams) (cfg : AppConfig) : CryptoParams :=
  { P with
    mode := cfg.cryptoMode
    aesBits := cfg.aesBits
    nonceSize := cfg.nonceSize
    fakeProtocol := if cfg.encryptLayer = 3 then cfg.fakeProtocol else P.fakeProtocol
    policyId := 0 }

/-- The index of the policy; `none` stands for `-1`.  An index outside the table is not used. -/
def lookupPolicyIndex (t : PolicyRuntime) (action : ℤ) (policyId : UInt8) : Option ℕ :=
  let scan := (t.active.take maxCryptoPolicies).findIdx? fun cp =>
    cp.action == action && cp.idByte == policyId
  if t.active = [] then none
  else if 0 ≤ action ∧ action ≤ actionEncryptL4 then
    match t.indexByActionId action policyId with
    | some pi => if pi < t.active.length then some pi else scan
    | none => scan
  else scan

/-- What `crypto_decrypt_packet_auto_by_action` leaves: its value, the frame, `*pkt_len` and the
thread's parameters. -/
structure AutoDecrypt where
  ret : ℤ
  packet : Packet
  len : ℕ
  params : CryptoParams

/-- The parameters and the frame after an attempt, and the new length if it succeeded. -/
structure DecryptAttempt where
  params : CryptoParams
  packet : Packet
  newLen : Option ℕ

/-- A decoder, from parameters, key context, frame and length. -/
abbrev DecryptFn := CryptoParams → PacketCryptoCtx → Packet → ℕ → ℤ × Packet

/-- Decrypt under a policy; only a smaller length counts as a success. -/
def attemptDecrypt (decrypt : DecryptFn) (P : CryptoParams) (cp : CryptoPolicy)
    (ctx : PacketCryptoCtx) (pkt : Packet) (pktLen : ℕ) : DecryptAttempt :=
  let P := cryptoApplyFromPolicy P cp
  let r := decrypt P ctx pkt pktLen
  ⟨P, r.2, if 0 ≤ r.1 ∧ r.1 < pktLen then some r.1.toNat else none⟩

/-- Decrypt with the policy that a table has for the id, if it is ready and accepted. -/
def decryptWithTable (decrypt : DecryptFn) (accept : CryptoPolicy → Bool) (t : PolicyRuntime)
    (action : ℤ) (policyId : UInt8) (P : CryptoParams) (pkt : Packet) (pktLen : ℕ) :
    DecryptAttempt :=
  match lookupPolicyIndex t action policyId with
  | none => ⟨P, pkt, none⟩
  | some pi =>
    match t.active[pi]? with
    | none => ⟨P, pkt, none⟩
    | some cp =>
      if t.ready pi && accept cp then attemptDecrypt decrypt P cp (t.ctx pi) pkt pktLen
      else ⟨P, pkt, none⟩

/-- Decrypt with the current table and, during the grace period, with the previous one. -/
def decryptWithTables (decrypt : DecryptFn) (accept : CryptoPolicy → Bool)
    (dctx : CryptoDispatchCtx) (action : ℤ) (policyId : UInt8) (P : CryptoParams) (pkt : Packet)
    (pktLen : ℕ) : AutoDecrypt :=
  let r := decryptWithTable decrypt accept dctx.current action policyId P pkt pktLen
  match r.newLen with
  | some n => ⟨0, r.packet, n, r.params⟩
  | none =>
    if dctx.prevGraceActive = true ∧ dctx.prev.active ≠ [] then
      let r := decryptWithTable decrypt accept dctx.prev action policyId r.params r.packet pktLen
      match r.newLen with
      | some n => ⟨0, r.packet, n, r.params⟩
      | none => ⟨-1, r.packet, pktLen, r.params⟩
    else ⟨-1, r.packet, pktLen, r.params⟩

section

variable (evp : Evp)

/-- The decoder of a layer, which is also the number of the action. -/
def decryptOfLayer (layer : ℤ) : DecryptFn := fun P ctx pkt pktLen =>
  if layer = 2 then cryptoLayer2Decrypt evp P ctx pkt pktLen
  else if layer = 3 then cryptoLayer3Decrypt evp P ctx pkt pktLen
  else if layer = 4 then cryptoLayer4Decrypt evp P ctx pkt pktLen
  else (-1, pkt)

/-- `packet_decrypt`, with the process-wide encrypt layer. -/
def packetDecrypt (encryptLayer : ℤ) : DecryptFn := decryptOfLayer evp encryptLayer

/-- The last loop: try the ready policies of the action in turn, restoring the frame after a
failure. -/
def decryptByScan (dctx : CryptoDispatchCtx) (action : ℤ) (scratchSz : ℕ) :
    List CryptoPolicy → ℕ → CryptoParams → Packet → ℕ → AutoDecrypt
  | [], _, P, pkt, pktLen => ⟨-1, pkt, pktLen, P⟩
  | cp :: cps, pi, P, pkt, pktLen =>
    if cp.action ≠ action ∨ dctx.current.ready pi = false then
      decryptByScan dctx action scratchSz cps (pi + 1) P pkt pktLen
    else if scratchSz < pktLen then ⟨-1, pkt, pktLen, P⟩
    else
      let r := attemptDecrypt (decryptOfLayer evp action) P cp (dctx.current.ctx pi) pkt pktLen
      match r.newLen with
      | some n => ⟨0, r.packet, n, r.params⟩
      | none =>
        decryptByScan dctx action scratchSz cps (pi + 1) r.params (r.packet.copy 0 pkt 0 pktLen)
          pktLen

/-- The layer-4 policy has the nonce size that the extractor found. -/
def acceptNonceSize (nonceSize : ℕ) (cp : CryptoPolicy) : Bool :=
  decide (0 < cp.nonceSize) && cp.nonceSize == nonceSize

/-- `P` holds the thread's parameters. -/
def cryptoDecryptPacketAutoByAction (P : CryptoParams) (cryptoEnabled : Bool) (cfg : AppConfig)
    (dctx : CryptoDispatchCtx) (action : ℤ) (pkt : Packet) (pktLen scratchSz : ℕ) : AutoDecrypt :=
  if cryptoEnabled = false then ⟨-1, pkt, pktLen, P⟩
  else if cfg.policies = [] then
    let P := cryptoApplyDefaultFromCfg P cfg
    let r := packetDecrypt evp cfg.encryptLayer P dctx.baseCtx pkt pktLen
    if r.1 < 0 then ⟨-1, r.2, pktLen, P⟩ else ⟨0, r.2, r.1.toNat, P⟩
  else if action = actionEncryptL3 then
    match cryptoL3ExtractPolicyId P cfg pkt pktLen with
    | none => ⟨0, pkt, pktLen, P⟩
    | some policyId =>
      decryptWithTables (cryptoLayer3Decrypt evp) (fun _ => true) dctx actionEncryptL3 policyId P pkt
        pktLen
  else if action = actionEncryptL4 then
    match cryptoEthIpv4Offset pkt pktLen with
    | none => ⟨0, pkt, pktLen, P⟩
    | some l3Off =>
      if ihlAt pkt l3Off < 20 ∨ pktLen < l3Off + ihlAt pkt l3Off + 8 ∨
          (pkt (l3Off + 9) ≠ 6 ∧ pkt (l3Off + 9) ≠ 17) ∨
          pktLen < l3Off + ihlAt pkt l3Off + 4 then ⟨0, pkt, pktLen, P⟩
      else
        match cryptoL4ExtractPolicyIdIpv4 cfg pkt pktLen with
        | none => ⟨0, pkt, pktLen, P⟩
        | some (policyId, nonceSize) =>
          decryptWithTables (cryptoLayer4Decrypt evp) (acceptNonceSize nonceSize) dctx
            actionEncryptL4 policyId P pkt pktLen
  else
    decryptByScan evp dctx action scratchSz (cfg.policies.take maxCryptoPolicies) 0 P pkt pktLen

end

/-! ## Attempts -/

section

variable {decrypt : DecryptFn} {accept : CryptoPolicy → Bool} {action : ℤ} {policyId : UInt8}
  {P : CryptoParams} {pkt : Packet} {pktLen : ℕ}

theorem attemptDecrypt_lt {cp : CryptoPolicy} {ctx : PacketCryptoCtx} {n : ℕ}
    (h : (attemptDecrypt decrypt P cp ctx pkt pktLen).newLen = some n) : n < pktLen := by
  unfold attemptDecrypt at h
  simp only at h
  split_ifs at h with hlt
  cases h
  omega

theorem decryptWithTable_eq_some {t : PolicyRuntime} {n : ℕ}
    (h : (decryptWithTable decrypt accept t action policyId P pkt pktLen).newLen = some n) :
    ∃ cp ctx, accept cp = true ∧ (attemptDecrypt decrypt P cp ctx pkt pktLen).newLen = some n := by
  unfold decryptWithTable at h
  split at h
  · cases h
  split at h
  · cases h
  split at h
  · rename_i cp _ hok
    exact ⟨cp, _, (Bool.and_eq_true_iff.mp hok).2, h⟩
  · cases h

theorem decryptWithTables_eq_zero {dctx : CryptoDispatchCtx}
    (h : (decryptWithTables decrypt accept dctx action policyId P pkt pktLen).ret = 0) :
    ∃ cp ctx P' pkt', accept cp = true ∧ (attemptDecrypt decrypt P' cp ctx pkt' pktLen).newLen =
      some (decryptWithTables decrypt accept dctx action policyId P pkt pktLen).len := by
  unfold decryptWithTables at h ⊢
  simp only at h ⊢
  cases hcur : (decryptWithTable decrypt accept dctx.current action policyId P pkt pktLen).newLen with
  | some n =>
    obtain ⟨cp, ctx, haccept, hn⟩ := decryptWithTable_eq_some hcur
    exact ⟨cp, ctx, P, pkt, haccept, hn⟩
  | none =>
    rw [hcur] at h
    simp only at h ⊢
    split_ifs at h ⊢ with hgrace
    · generalize decryptWithTable decrypt accept dctx.current action policyId P pkt pktLen = r at h ⊢
      cases hprev : (decryptWithTable decrypt accept dctx.prev action policyId r.params r.packet
        pktLen).newLen with
      | some n =>
        obtain ⟨cp, ctx, haccept, hn⟩ := decryptWithTable_eq_some hprev
        exact ⟨cp, ctx, r.params, r.packet, haccept, hn⟩
      | none =>
        rw [hprev] at h
        cases h
    · cases h

theorem decryptWithTables_lt {dctx : CryptoDispatchCtx}
    (h : (decryptWithTables decrypt accept dctx action policyId P pkt pktLen).ret = 0) :
    (decryptWithTables decrypt accept dctx action policyId P pkt pktLen).len < pktLen := by
  obtain ⟨_, _, _, _, -, hn⟩ := decryptWithTables_eq_zero h
  exact attemptDecrypt_lt hn

end

section

variable {evp : Evp} {P : CryptoParams} {cfg : AppConfig} {dctx : CryptoDispatchCtx} {pkt : Packet}
  {pktLen scratchSz : ℕ} (hcfg : cfg.policies ≠ [])
include hcfg

theorem cryptoDecryptPacketAutoByAction_l3 :
    cryptoDecryptPacketAutoByAction evp P true cfg dctx actionEncryptL3 pkt pktLen scratchSz =
      match cryptoL3ExtractPolicyId P cfg pkt pktLen with
      | none => ⟨0, pkt, pktLen, P⟩
      | some policyId =>
        decryptWithTables (cryptoLayer3Decrypt evp) (fun _ => true) dctx actionEncryptL3 policyId P
          pkt pktLen := by
  unfold cryptoDecryptPacketAutoByAction
  rw [if_neg (by decide), if_neg hcfg, if_pos rfl]

/-- The layer-4 branch.  The extractor repeats the tests that are made before it. -/
theorem cryptoDecryptPacketAutoByAction_l4 :
    cryptoDecryptPacketAutoByAction evp P true cfg dctx actionEncryptL4 pkt pktLen scratchSz =
      match cryptoL4ExtractPolicyIdIpv4 cfg pkt pktLen with
      | none => ⟨0, pkt, pktLen, P⟩
      | some (policyId, nonceSize) =>
        decryptWithTables (cryptoLayer4Decrypt evp) (acceptNonceSize nonceSize) dctx actionEncryptL4
          policyId P pkt pktLen := by
  unfold cryptoDecryptPacketAutoByAction
  rw [if_neg (by decide), if_neg hcfg, if_neg (by decide), if_pos rfl]
  cases hoff : cryptoEthIpv4Offset pkt pktLen with
  | none =>
    have hnone : cryptoL4ExtractPolicyIdIpv4 cfg pkt pktLen = none := by
      unfold cryptoL4ExtractPolicyIdIpv4
      rw [hoff]
    rw [hnone]
  | some l3Off =>
    simp only
    split_ifs with htests
    · have hnone : cryptoL4ExtractPolicyIdIpv4 cfg pkt pktLen = none := by
        unfold cryptoL4ExtractPolicyIdIpv4
        rw [hoff]
        simp only
        split_ifs with h₁ h₂ h₃ h₄ <;> try rfl
        -- the tests of the extractor all pass
        rcases htests with h | h | h | h
        · exact absurd (.inl h) h₂
        · exact absurd (.inr h) h₂
        · exact absurd h h₃
        · omega
      rw [hnone]
    · rfl

end

end NetEncryptor

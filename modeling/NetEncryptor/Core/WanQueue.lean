import NetEncryptor.Core.FragTable
import NetEncryptor.Core.Recognition
import NetEncryptor.Core.SplitRoundTrip
import NetEncryptor.Core.Worker
import NetEncryptor.Crypto.AutoDecrypt

/-!
# The receive pipeline

The two stages of `wan_queue_thread_l3l4` that every received frame goes through, at layer 3 and
then at layer 4.  A stage takes a frame that it recognises as a fragment to the reassembly and gives
any other one to `crypto_decrypt_packet_auto_by_action`.

Nothing marks a frame as plaintext: a stage leaves it alone when the extractor of its layer finds no
policy in it.  `plaintext_transparent_iff` says which plaintext frames these are.
-/

namespace NetEncryptor

/-- What becomes of a frame in a stage: it goes on, it waits for its second fragment, or it is
dropped. -/
inductive StageOutcome
  | forward (pkt : Packet) (pktLen : ℕ)
  | wait
  | drop

/-- What a stage leaves: the frame, the thread's parameters and the fragment table. -/
structure StageResult where
  outcome : StageOutcome
  params : CryptoParams
  table : FragTable

/-- What a stage finds: its fragment table, what `get_time_ns` and `prev_policy_grace_active`
return, and what the reassembly buffer on the stack holds. -/
structure StageInput where
  table : FragTable
  now : ℕ
  graceActive : Bool
  reassBuf : Packet

section

variable (evp : Evp) (fwd : Forwarder) (baseCtx : PacketCryptoCtx) (prev : PolicyRuntime)

/-- The dispatch context that `decrypt_packet_auto_by_action` makes. -/
def dispatchCtx (graceActive : Bool) : CryptoDispatchCtx where
  baseCtx := baseCtx
  current := { fwd.runtime with active := fwd.cfg.policies }
  prev := prev
  prevGraceActive := graceActive

/-- The entry of an index table, if its policy is ready. -/
def readyEntry (t : PolicyRuntime) (action : ℤ) (policyId : UInt8) :
    Option (CryptoPolicy × PacketCryptoCtx) :=
  match t.indexByActionId action policyId with
  | none => none
  | some pi => if t.ready pi then (t.active[pi]?).map fun cp => (cp, t.ctx pi) else none

/-- The tail of the two `forwarder_resolve` functions: the context for a policy id and the
parameters that the thread has then; `none` stands for `NULL`. -/
def resolveDecryptCtx (accept : CryptoPolicy → Bool) (graceActive : Bool) (P : CryptoParams)
    (action : ℤ) (policyId : UInt8) : Option (CryptoParams × PacketCryptoCtx) :=
  let dctx := dispatchCtx fwd baseCtx prev graceActive
  match (readyEntry dctx.current action policyId).filter fun e => accept e.1 with
  | some e => some (cryptoApplyFromPolicy P e.1, e.2)
  | none =>
    if graceActive then
      ((readyEntry dctx.prev action policyId).filter fun e => accept e.1).map fun e =>
        (cryptoApplyFromPolicy P e.1, e.2)
    else none

def forwarderResolveL3DecryptCtx (graceActive : Bool) (P : CryptoParams) (pkt : Packet)
    (pktLen : ℕ) : Option (CryptoParams × PacketCryptoCtx) :=
  if fwd.cfg.policies = [] then some (cryptoApplyDefaultFromCfg P fwd.cfg, baseCtx)
  else
    match cryptoL3ExtractPolicyId P fwd.cfg pkt pktLen with
    | none => none
    | some policyId =>
      resolveDecryptCtx fwd baseCtx prev (fun _ => true) graceActive P actionEncryptL3 policyId

def forwarderResolveL4DecryptCtx (graceActive : Bool) (P : CryptoParams) (pkt : Packet)
    (pktLen : ℕ) : Option (CryptoParams × PacketCryptoCtx) :=
  if fwd.cfg.policies = [] then some (cryptoApplyDefaultFromCfg P fwd.cfg, baseCtx)
  else
    match cryptoL4ExtractPolicyIdIpv4 fwd.cfg pkt pktLen with
    | none => none
    | some (policyId, nonceSize) =>
      resolveDecryptCtx fwd baseCtx prev (acceptNonceSize nonceSize) graceActive P actionEncryptL4
        policyId

/-- `sizeof(decrypt_scratch)`. -/
def decryptScratchSize : ℕ := 8192

/-- A stage on a fragment: decrypt it with the context that was resolved and put it into the
table. -/
def fragmentStage
    (decryptFragment : CryptoParams → PacketCryptoCtx → Packet → ℕ → Option DecryptedFragment)
    (reassemble : Reassembler) (resolved : Option (CryptoParams × PacketCryptoCtx))
    (input : StageInput) (P : CryptoParams) (pkt : Packet) (pktLen : ℕ) : StageResult :=
  match resolved with
  | none => ⟨.drop, P, input.table⟩
  | some (P, ctx) =>
    match decryptFragment P ctx pkt pktLen with
    | none => ⟨.drop, P, input.table⟩
    | some d =>
      let r := reassemble input.table input.now d.packet d.len d.pktId d.fragIndex input.reassBuf 0
      if r.ret = 0 then ⟨.wait, P, r.table⟩
      else if r.ret ≠ 1 then ⟨.drop, P, r.table⟩
      else ⟨.forward (d.packet.copy 0 r.outBuf 0 r.outLen) r.outLen, P, r.table⟩

/-- A stage on a frame that is no fragment. -/
def wholeStage (action : ℤ) (input : StageInput) (P : CryptoParams) (pkt : Packet) (pktLen : ℕ) :
    StageResult :=
  let r := cryptoDecryptPacketAutoByAction evp P fwd.cryptoEnabled fwd.cfg
    (dispatchCtx fwd baseCtx prev input.graceActive) action pkt pktLen decryptScratchSize
  if r.ret ≠ 0 then ⟨.drop, r.params, input.table⟩
  else ⟨.forward r.packet r.len, r.params, input.table⟩

/-- The layer-3 stage of `wan_queue_thread_l3l4`.  The index of the policy that it keeps for the pin
table of TCP flows is left out. -/
def wanStageL3 (input : StageInput) (P : CryptoParams) (pkt : Packet) (pktLen : ℕ) : StageResult :=
  match fragIsFragment P fwd.cfg pkt pktLen with
  | some _ =>
    fragmentStage (cryptoLayer3DecryptFragment evp) fragTryReassemble
      (forwarderResolveL3DecryptCtx fwd baseCtx prev input.graceActive P pkt pktLen) input P pkt
      pktLen
  | none => wholeStage evp fwd baseCtx prev actionEncryptL3 input P pkt pktLen

/-- The layer-4 stage of `wan_queue_thread_l3l4`. -/
def wanStageL4 (input : StageInput) (P : CryptoParams) (pkt : Packet) (pktLen : ℕ) : StageResult :=
  match fragIsFragmentL4 P fwd.cfg pkt pktLen with
  | some _ =>
    fragmentStage (cryptoLayer4DecryptFragment evp) fragTryReassembleL4
      (forwarderResolveL4DecryptCtx fwd baseCtx prev input.graceActive P pkt pktLen) input P pkt
      pktLen
  | none => wholeStage evp fwd baseCtx prev actionEncryptL4 input P pkt pktLen

/-- Both stages, which are skipped when encryption is off. -/
def wanStages (input₃ input₄ : StageInput) (P : CryptoParams) (pkt : Packet) (pktLen : ℕ) :
    StageOutcome :=
  if fwd.cryptoEnabled then
    let r := wanStageL3 evp fwd baseCtx prev input₃ P pkt pktLen
    match r.outcome with
    | .forward pkt pktLen => (wanStageL4 evp fwd baseCtx prev input₄ r.params pkt pktLen).outcome
    | .wait => .wait
    | .drop => .drop
  else .forward pkt pktLen

end

/-! ## Named policies -/

section

variable {P : CryptoParams} {cfg : AppConfig} {pkt : Packet} {pktLen : ℕ}

variable (P cfg pkt pktLen) in
/-- The frame has the thread's layer-3 marker and room for the header that the thread used last, and
the id of some layer-3 policy stands behind a nonce of its size. -/
def NamedAtL3 : Prop :=
  pkt ipv4ProtoOff = l3Marker P ∧
    ethHeaderSize + ihlAt pkt ethHeaderSize + P.tunnelHdrSize ≤ pktLen ∧
    ∃ cp ∈ cfg.policies.take maxCryptoPolicies,
      isL3TunnelOf cp pkt pktLen (ethHeaderSize + ihlAt pkt ethHeaderSize) = true

variable (cfg pkt pktLen) in
/-- The frame has eight bytes behind the IP header, and behind its ports and a nonce of its size
stands the id of some layer-4 policy, followed by one of the two magic bytes. -/
def NamedAtL4 : Prop :=
  ethHeaderSize + ihlAt pkt ethHeaderSize + 8 ≤ pktLen ∧
    ∃ cp ∈ cfg.policies.take maxCryptoPolicies,
      isL4TunnelOf cp pkt pktLen (ethHeaderSize + ihlAt pkt ethHeaderSize + l4WirePortLen) = true

instance : Decidable (NamedAtL3 P cfg pkt pktLen) := inferInstanceAs (Decidable (_ ∧ _))

instance : Decidable (NamedAtL4 cfg pkt pktLen) := inferInstanceAs (Decidable (_ ∧ _))

variable (hp : TcpUdpFrame pkt pktLen)
include hp

theorem cryptoL3ExtractPolicyId_ne_none_iff :
    cryptoL3ExtractPolicyId P cfg pkt pktLen ≠ none ↔ NamedAtL3 P cfg pkt pktLen := by
  have h₂₀ := hp.ihl_ge
  have hth : P.tunnelHdrSize = P.nonceSize + 2 := rfl
  rw [cryptoL3ExtractPolicyId_eq, NamedAtL3]
  by_cases hlen : ethHeaderSize + ihlAt pkt ethHeaderSize + P.tunnelHdrSize ≤ pktLen
  · rw [if_pos hlen, ne_eq, Option.map_eq_none_iff]
    unfold l3PolicyOf
    by_cases hproto : pkt ipv4ProtoOff = l3Marker P
    · rw [if_pos ⟨hp.ipv4, h₂₀, by omega, hproto⟩, List.find?_eq_none]
      push Not
      exact ⟨fun ⟨cp, hcp, h⟩ => ⟨hproto, hlen, cp, hcp, h⟩, fun ⟨_, _, h⟩ => h⟩
    · rw [if_neg fun h => hproto h.2.2.2]
      exact iff_of_false (fun h => h rfl) fun h => hproto h.1
  · rw [if_neg hlen]
    exact iff_of_false (fun h => h rfl) fun h => hlen h.2.1

theorem cryptoL4ExtractPolicyIdIpv4_ne_none_iff :
    cryptoL4ExtractPolicyIdIpv4 cfg pkt pktLen ≠ none ↔ NamedAtL4 cfg pkt pktLen := by
  have h₂₀ := hp.ihl_ge
  have heth : ethHeaderSize = 14 := rfl
  have hport : l4WirePortLen = 4 := rfl
  have hproto : ¬ (pkt (ethHeaderSize + 9) ≠ 6 ∧ pkt (ethHeaderSize + 9) ≠ 17) := fun h =>
    hp.proto.elim h.1 h.2
  unfold cryptoL4ExtractPolicyIdIpv4 NamedAtL4
  rw [hp.ethIpv4Offset]
  simp only
  rw [if_neg (by have := hp.ihl_le; omega)]
  by_cases hlen : ethHeaderSize + ihlAt pkt ethHeaderSize + 8 ≤ pktLen
  · rw [if_neg (by omega), if_neg hproto, if_neg (by omega), ne_eq, Option.map_eq_none_iff,
      List.find?_eq_none]
    push Not
    exact ⟨fun h => ⟨hlen, h⟩, fun h => h.2⟩
  · rw [if_pos (.inr (by omega))]
    exact iff_of_false (fun h => h rfl) fun h => hlen h.1

theorem fragIsFragment_eq_none (h : ¬ NamedAtL3 P cfg pkt pktLen) :
    fragIsFragment P cfg pkt pktLen = none := by
  rw [fragIsFragment_eq]
  split_ifs with hlooks
  · obtain ⟨-, hproto, cp, hcp, htest⟩ := hlooks
    have hfake : P.fakeProtocol ≠ 0 := by
      rw [← hproto]
      rcases hp.proto with e | e <;> rw [e] <;> decide
    unfold fragTagAt
    rw [if_pos]
    by_contra hlen
    refine h ⟨?_, by omega, cp, hcp, ?_⟩
    · unfold l3Marker
      rw [if_neg hfake, hproto]
    · unfold isFragmentL3Under isTunnelFragmentUnder at htest
      unfold isL3TunnelOf
      simp only [Bool.and_eq_true] at htest ⊢
      exact ⟨htest.1.1, htest.2⟩
  · rfl

omit hp in
theorem fragIsFragmentL4_eq_none (h : ¬ NamedAtL4 cfg pkt pktLen) :
    fragIsFragmentL4 P cfg pkt pktLen = none := by
  have hport : l4WirePortLen = 4 := rfl
  have hft : fragTagSize = 4 := rfl
  rw [fragIsFragmentL4_eq]
  split_ifs with hlooks
  · obtain ⟨-, cp, hcp, htest⟩ := hlooks
    unfold fragTagAt
    rw [if_pos]
    by_contra hlen
    refine h ⟨by omega, cp, hcp, ?_⟩
    unfold isFragmentL4Under isTunnelFragmentUnder at htest
    unfold isL4TunnelOf
    simp only [Bool.and_eq_true, Bool.or_eq_true] at htest ⊢
    exact ⟨⟨htest.1.1, .inr htest.1.2⟩, htest.2⟩
  · rfl

end

/-! ## The stages -/

/-- The frame goes on with the same length and bytes. -/
def StageOutcome.Forwards (o : StageOutcome) (pkt : Packet) (pktLen : ℕ) : Prop :=
  ∃ q, o = .forward q pktLen ∧ ∀ j < pktLen, q j = pkt j

theorem fragmentStage_ne_forward
    {decryptFragment : CryptoParams → PacketCryptoCtx → Packet → ℕ → Option DecryptedFragment}
    {reassemble : Reassembler} {resolved : Option (CryptoParams × PacketCryptoCtx)}
    {input : StageInput} {P : CryptoParams} {pkt q : Packet} {pktLen n : ℕ}
    (h : ∀ now w len pktId fragIndex out outLen,
      (reassemble input.table now w len pktId fragIndex out outLen).ret ≠ 1) :
    (fragmentStage decryptFragment reassemble resolved input P pkt pktLen).outcome ≠
      .forward q n := by
  unfold fragmentStage
  split
  · exact StageOutcome.noConfusion
  split
  · exact StageOutcome.noConfusion
  simp only
  split
  · exact StageOutcome.noConfusion
  · rw [if_pos (h _ _ _ _ _ _ _)]
    exact StageOutcome.noConfusion

section

variable {evp : Evp} {fwd : Forwarder} {baseCtx : PacketCryptoCtx} {prev : PolicyRuntime}
  {input : StageInput} {P : CryptoParams} {pkt : Packet} {pktLen : ℕ}
  (hon : fwd.cryptoEnabled = true) (hcfg : fwd.cfg.policies ≠ [])
include hon hcfg

theorem wanStageL3_eq (hp : TcpUdpFrame pkt pktLen) (h : ¬ NamedAtL3 P fwd.cfg pkt pktLen) :
    wanStageL3 evp fwd baseCtx prev input P pkt pktLen = ⟨.forward pkt pktLen, P, input.table⟩ := by
  have hnone := not_not.mp (mt (cryptoL3ExtractPolicyId_ne_none_iff hp).mp h)
  unfold wanStageL3 wholeStage
  rw [fragIsFragment_eq_none hp h, hon]
  simp only [cryptoDecryptPacketAutoByAction_l3 hcfg, hnone]
  rfl

theorem wanStageL4_eq (hp : TcpUdpFrame pkt pktLen) (h : ¬ NamedAtL4 fwd.cfg pkt pktLen) :
    wanStageL4 evp fwd baseCtx prev input P pkt pktLen = ⟨.forward pkt pktLen, P, input.table⟩ := by
  have hnone := not_not.mp (mt (cryptoL4ExtractPolicyIdIpv4_ne_none_iff hp).mp h)
  unfold wanStageL4 wholeStage
  rw [fragIsFragmentL4_eq_none h, hon]
  simp only [cryptoDecryptPacketAutoByAction_l4 hcfg, hnone]
  rfl

variable (hempty : input.table = fragTableInit)
include hempty

theorem wanStageL3_lt (hex : cryptoL3ExtractPolicyId P fwd.cfg pkt pktLen ≠ none) {q : Packet}
    {n : ℕ} (h : (wanStageL3 evp fwd baseCtx prev input P pkt pktLen).outcome = .forward q n) :
    n < pktLen := by
  obtain ⟨policyId, hid⟩ := Option.ne_none_iff_exists'.mp hex
  unfold wanStageL3 at h
  split at h
  · exact absurd h (fragmentStage_ne_forward fun _ _ _ _ _ _ _ => by
      rw [hempty]
      exact SplitLayer.reassemble_empty_ret .l3)
  · unfold wholeStage at h
    rw [hon, cryptoDecryptPacketAutoByAction_l3 hcfg, hid] at h
    simp only at h
    split at h
    · cases h
    rename_i hret
    obtain ⟨-, rfl⟩ := StageOutcome.forward.inj h
    exact decryptWithTables_lt (not_not.mp hret)

theorem wanStageL4_le {q : Packet} {n : ℕ}
    (h : (wanStageL4 evp fwd baseCtx prev input P pkt pktLen).outcome = .forward q n) :
    n ≤ pktLen ∧ (cryptoL4ExtractPolicyIdIpv4 fwd.cfg pkt pktLen ≠ none → n < pktLen) := by
  unfold wanStageL4 at h
  split at h
  · exact absurd h (fragmentStage_ne_forward fun _ _ _ _ _ _ _ => by
      rw [hempty]
      exact SplitLayer.reassemble_empty_ret .l4)
  · unfold wholeStage at h
    rw [hon, cryptoDecryptPacketAutoByAction_l4 hcfg] at h
    cases hex : cryptoL4ExtractPolicyIdIpv4 fwd.cfg pkt pktLen with
    | none =>
      rw [hex] at h
      obtain ⟨-, rfl⟩ := StageOutcome.forward.inj h
      exact ⟨le_rfl, fun h => absurd rfl h⟩
    | some e =>
      rw [hex] at h
      simp only at h
      split at h
      · cases h
      rename_i hret
      obtain ⟨-, rfl⟩ := StageOutcome.forward.inj h
      have hlt := decryptWithTables_lt (not_not.mp hret)
      exact ⟨hlt.le, fun _ => hlt⟩

end

/-! ## Transparency -/

section

variable (evp : Evp) (fwd : Forwarder) (baseCtx : PacketCryptoCtx) (prev : PolicyRuntime)
  (P : CryptoParams) (pkt : Packet) (pktLen : ℕ)

/-- Both stages forward the frame unchanged, whatever they find. -/
def TransparentL3L4 : Prop :=
  ∀ input₃ input₄ : StageInput,
    (wanStages evp fwd baseCtx prev input₃ input₄ P pkt pktLen).Forwards pkt pktLen

/-- The layer-4 stage forwards the frame unchanged, whatever it finds. -/
def TransparentL4 : Prop :=
  ∀ input : StageInput,
    (wanStageL4 evp fwd baseCtx prev input P pkt pktLen).outcome.Forwards pkt pktLen

/-- A stage that finds nothing. -/
def StageInput.empty : StageInput := ⟨fragTableInit, 0, false, fun _ => 0⟩

variable {evp fwd baseCtx prev P pkt pktLen}

theorem forward_of_wanStages (hon : fwd.cryptoEnabled = true) {input₃ input₄ : StageInput}
    {q : Packet} {n : ℕ}
    (h : wanStages evp fwd baseCtx prev input₃ input₄ P pkt pktLen = .forward q n) :
    ∃ p' m, (wanStageL3 evp fwd baseCtx prev input₃ P pkt pktLen).outcome = .forward p' m ∧
      (wanStageL4 evp fwd baseCtx prev input₄
        (wanStageL3 evp fwd baseCtx prev input₃ P pkt pktLen).params p' m).outcome =
          .forward q n := by
  unfold wanStages at h
  rw [if_pos hon] at h
  simp only at h
  split at h
  · rename_i p' m hout
    exact ⟨p', m, hout, h⟩
  all_goals cases h

theorem not_named_of_forward (hon : fwd.cryptoEnabled = true) (hcfg : fwd.cfg.policies ≠ [])
    (hp : TcpUdpFrame pkt pktLen) {q : Packet}
    (h : (wanStageL4 evp fwd baseCtx prev StageInput.empty P pkt pktLen).outcome =
      .forward q pktLen) : ¬ NamedAtL4 fwd.cfg pkt pktLen := fun h₄ => by
  have hlt := (wanStageL4_le hon hcfg rfl h).2
    ((cryptoL4ExtractPolicyIdIpv4_ne_none_iff hp).mpr h₄)
  omega

theorem not_named_of_transparent (hon : fwd.cryptoEnabled = true) (hcfg : fwd.cfg.policies ≠ [])
    (hp : TcpUdpFrame pkt pktLen) (h : TransparentL3L4 evp fwd baseCtx prev P pkt pktLen) :
    ¬ NamedAtL3 P fwd.cfg pkt pktLen ∧ ¬ NamedAtL4 fwd.cfg pkt pktLen := by
  obtain ⟨q, hq, -⟩ := h StageInput.empty StageInput.empty
  obtain ⟨p', n, h₃, h₄⟩ := forward_of_wanStages hon hq
  have hle := (wanStageL4_le hon hcfg rfl h₄).1
  have hnamed₃ : ¬ NamedAtL3 P fwd.cfg pkt pktLen := fun h' => by
    have hlt := wanStageL3_lt hon hcfg rfl ((cryptoL3ExtractPolicyId_ne_none_iff hp).mpr h') h₃
    omega
  -- a frame in which no layer-3 policy is named reaches the second stage unchanged
  rw [wanStageL3_eq hon hcfg hp hnamed₃] at h₃ h₄
  obtain ⟨rfl, rfl⟩ := StageOutcome.forward.inj h₃
  exact ⟨hnamed₃, not_named_of_forward hon hcfg hp h₄⟩

/-- **Transparency.** A plaintext frame passes both stages unchanged exactly when no layer-3 policy
and no layer-4 policy is named in it, and a frame that the layer-3 stage has recovered passes the
layer-4 stage exactly when no layer-4 policy is. -/
theorem plaintext_transparent_iff (hon : fwd.cryptoEnabled = true) (hcfg : fwd.cfg.policies ≠ [])
    (hp : TcpUdpFrame pkt pktLen) :
    (TransparentL3L4 evp fwd baseCtx prev P pkt pktLen ↔
      ¬ NamedAtL3 P fwd.cfg pkt pktLen ∧ ¬ NamedAtL4 fwd.cfg pkt pktLen) ∧
    (TransparentL4 evp fwd baseCtx prev P pkt pktLen ↔ ¬ NamedAtL4 fwd.cfg pkt pktLen) := by
  refine ⟨⟨not_named_of_transparent hon hcfg hp, fun ⟨h₃, h₄⟩ input₃ input₄ => ?_⟩,
    fun h h₄ => ?_, fun h₄ input => ?_⟩
  · unfold wanStages
    rw [if_pos hon, wanStageL3_eq hon hcfg hp h₃]
    simp only [wanStageL4_eq hon hcfg hp h₄]
    exact ⟨pkt, rfl, fun _ _ => rfl⟩
  · obtain ⟨q, hq, -⟩ := h StageInput.empty
    exact not_named_of_forward hon hcfg hp hq h₄
  · rw [wanStageL4_eq hon hcfg hp h₄]
    exact ⟨pkt, rfl, fun _ _ => rfl⟩

end

/-- A forwarder with a policy that encrypts TCP flows at layer 4 and one that sends them in
clear. -/
def mixedForwarder : Forwarder :=
  let key := Key.repeated 1
  let policies := [{ samplePolicy actionEncryptL4 with key := key },
    { samplePolicy actionBypass with id := 8, dstPortFrom := 443, dstPortTo := 443 }]
  { sampleForwarder key with
    cfg := { sampleL3Config key with policies := policies }
    runtime := (rebuildCryptoRuntime (fun _ _ => Key.zero) (fun _ => true) PolicyRuntime.start
      policies).runtime }

theorem transparentL3L4_ackFrame :
    TransparentL3L4 (sampleEvp sampleKeystream) mixedForwarder PacketCryptoCtx.empty
        PolicyRuntime.start (sampleParams .ctr) ackFrame 54 ∧
      TransparentL4 (sampleEvp sampleKeystream) mixedForwarder PacketCryptoCtx.empty
        PolicyRuntime.start (sampleParams .ctr) ackFrame 54 := by
  have hon : mixedForwarder.cryptoEnabled = true := rfl
  have hcfg : mixedForwarder.cfg.policies ≠ [] := by decide
  have hp : TcpUdpFrame ackFrame 54 := tcpUdpFrame_ackFrame le_rfl
  constructor
  · exact (plaintext_transparent_iff hon hcfg hp).1.mpr (by decide)
  · exact (plaintext_transparent_iff hon hcfg hp).2.mpr (by decide)

/-- A TCP acknowledgement with the checksum `0x07A5`: a policy id and the layer-4 magic. -/
def checksumFrame : Packet :=
  packetOf [2, 0, 0, 0, 0, 2, 2, 0, 0, 0, 0, 1, 8, 0, 0x45, 0, 0, 40, 18, 52, 64, 0, 64, 6, 20, 154,
    10, 0, 0, 1, 10, 0, 0, 2, 195, 80, 1, 187, 0, 0, 203, 31, 0, 0, 0, 2, 0x50, 0x10, 4, 0, 0x07,
    0xA5, 0, 0]

theorem not_transparent_checksumFrame :
    (mixedForwarder.cryptoEnabled = true ∧ mixedForwarder.runtime.ready 0 = true ∧
      TcpUdpFrame checksumFrame 54 ∧ Ipv4HeaderOk checksumFrame ethHeaderSize ∧
      checksumFrame.be16 50 = cryptoCalcTcpChecksum (checksumFrame.shift 14) 20
        ((checksumFrame.put16 50 0).shift 34) 20) ∧
    ¬ TransparentL3L4 (sampleEvp sampleKeystream) mixedForwarder PacketCryptoCtx.empty
        PolicyRuntime.start (sampleParams .ctr) checksumFrame 54 := by
  have hp : TcpUdpFrame checksumFrame 54 := ⟨by decide, by decide, by decide, by decide⟩
  have hip : Ipv4HeaderOk checksumFrame ethHeaderSize :=
    ⟨by decide, by unfold neRxIpv4HeaderCsumOk; rw [OnesComplement.fold16_eq]; decide⟩
  have hck : checksumFrame.be16 50 = cryptoCalcTcpChecksum (checksumFrame.shift 14) 20
      ((checksumFrame.put16 50 0).shift 34) 20 := by decide
  refine ⟨⟨rfl, by decide, hp, hip, hck⟩, fun h => ?_⟩
  exact absurd (not_named_of_transparent rfl (by decide) hp h).2 (by decide)

end NetEncryptor

import NetEncryptor.Base.Runs
import NetEncryptor.Core.Worker
import NetEncryptor.Crypto.AutoDecrypt

/-!
# The layer that a frame is decrypted at

A thread applies a policy and then calls `packet_decrypt`.  Mode, key length, nonce size and policy
id are its own; the layer, by which `packet_decrypt` chooses the decoder, is shared with all other
threads.  `l2Dispatch_iff` says when the decoder is that of the policy.
-/

namespace NetEncryptor

/-! ## Applying parameters -/

/-- The argument of `crypto_apply_from_policy` or of `crypto_apply_default_from_cfg`. -/
inductive ParamSource
  | policy (cp : CryptoPolicy)
  | default (cfg : AppConfig)

/-- The thread's own parameters. -/
def ParamSource.params (P : CryptoParams) : ParamSource → CryptoParams
  | .policy cp => cryptoApplyFromPolicy P cp
  | .default cfg => cryptoApplyDefaultFromCfg P cfg

/-- The value for `packet_crypto_set_encrypt_layer`, if it is called. -/
def ParamSource.setsLayer : ParamSource → Option ℤ
  | .policy cp =>
    if cp.action = actionEncryptL2 then some 2
    else if cp.action = actionEncryptL3 then some 3
    else if cp.action = actionEncryptL4 then some 4
    else none
  | .default cfg => some cfg.encryptLayer

/-! ## `decrypt_packet_auto_l2` -/

/-- A call of `packet_decrypt`, behind the parameters that have been applied for it. -/
structure DecryptCall where
  source : ParamSource
  ctx : PacketCryptoCtx
  pkt : Packet
  pktLen : ℕ

/-- What `decrypt_packet_auto_l2` is called with. -/
structure AutoL2Args where
  cryptoEnabled : Bool
  cfg : AppConfig
  dctx : CryptoDispatchCtx
  pkt : Packet
  pktLen : ℕ

/-- It returns at once, or applies parameters and calls `packet_decrypt`. -/
inductive AutoL2
  | done (ret : ℤ)
  | call (c : DecryptCall)

/-- The layer-2 policy that a table has for the id, if its context is ready. -/
def readyL2Policy (t : PolicyRuntime) (policies : List CryptoPolicy) (policyId : UInt8) :
    Option (CryptoPolicy × PacketCryptoCtx) :=
  match t.indexByActionId actionEncryptL2 policyId with
  | none => none
  | some pi =>
    match policies[pi]? with
    | none => none
    | some cp => if t.ready pi then some (cp, t.ctx pi) else none

/-- The part before `packet_decrypt`. -/
def decryptPacketAutoL2 (P : CryptoParams) (args : AutoL2Args) : AutoL2 :=
  let policyId := args.pkt 13
  if args.cryptoEnabled = false then .done (-1)
  else if P.fakeEthertypeIpv4 = 0 ∨ args.pkt 12 ≠ (P.fakeEthertypeIpv4 >>> 8).toUInt8 then .done 0
  else if args.cfg.policies = [] then
    .call ⟨.default args.cfg, args.dctx.baseCtx, args.pkt, args.pktLen⟩
  else
    match readyL2Policy args.dctx.current args.cfg.policies policyId with
    | some (cp, ctx) => .call ⟨.policy cp, ctx, args.pkt, args.pktLen⟩
    | none =>
      if args.dctx.prevGraceActive then
        match readyL2Policy args.dctx.prev args.dctx.prev.active policyId with
        | some (cpPrev, ctx) => .call ⟨.policy cpPrev, ctx, args.pkt, args.pktLen⟩
        | none => .done (-1)
      else .done (-1)

/-! ## The threads -/

/-- The layer that the threads share, and what each has for itself: its parameters, the call of
`packet_decrypt` that comes next, and what the last one returned. -/
structure LayerState (ι : Type) where
  encryptLayer : ℤ
  params : ι → CryptoParams
  call : ι → Option DecryptCall
  result : ι → Option (ℤ × Packet)

def LayerState.start {ι : Type} (encryptLayer : ℤ) (params : ι → CryptoParams) : LayerState ι :=
  ⟨encryptLayer, params, fun _ => none, fun _ => none⟩

inductive LayerAction (ι : Type)
  /-- The thread applies parameters. -/
  | apply (i : ι) (source : ParamSource)
  /-- The thread calls `packet_decrypt` outside `decrypt_packet_auto_l2`. -/
  | packetDecrypt (i : ι) (ctx : PacketCryptoCtx) (pkt : Packet) (pktLen : ℕ)
  /-- `decrypt_packet_auto_l2` applies parameters. -/
  | autoL2 (i : ι) (args : AutoL2Args)
  /-- It calls `packet_decrypt`. -/
  | autoL2Decrypt (i : ι)

section

variable {ι : Type} [DecidableEq ι]

def LayerState.apply (s : LayerState ι) (i : ι) (source : ParamSource) : LayerState ι :=
  { s with
    encryptLayer := source.setsLayer.getD s.encryptLayer
    params := Function.update s.params i (source.params (s.params i)) }

/-- The thread's call returns. -/
def LayerState.decrypt (evp : Evp) (s : LayerState ι) (i : ι) (ctx : PacketCryptoCtx)
    (pkt : Packet) (pktLen : ℕ) : LayerState ι :=
  { s with
    call := Function.update s.call i none
    result := Function.update s.result i
      (some (packetDecrypt evp s.encryptLayer (s.params i) ctx pkt pktLen)) }

/-- A thread whose call comes next does nothing else. -/
def layerStep (evp : Evp) (s : LayerState ι) : LayerAction ι → Option (LayerState ι)
  | .apply i source => if (s.call i).isSome then none else some (s.apply i source)
  | .packetDecrypt i ctx pkt pktLen =>
    if (s.call i).isSome then none else some (s.decrypt evp i ctx pkt pktLen)
  | .autoL2 i args =>
    if (s.call i).isSome then none
    else
      match decryptPacketAutoL2 (s.params i) args with
      | .done ret => some { s with result := Function.update s.result i (some (ret, args.pkt)) }
      | .call c =>
        some { s.apply i c.source with call := Function.update s.call i (some c) }
  | .autoL2Decrypt i =>
    match s.call i with
    | none => none
    | some c => some (s.decrypt evp i c.ctx c.pkt c.pktLen)

/-- What the action stores in the shared layer. -/
def LayerState.stores (s : LayerState ι) : LayerAction ι → Option ℤ
  | .apply _ source => source.setsLayer
  | .autoL2 i args =>
    match decryptPacketAutoL2 (s.params i) args with
    | .done _ => none
    | .call c => c.source.setsLayer
  | .packetDecrypt _ _ _ _ | .autoL2Decrypt _ => none

def layerDecoder (evp : Evp) : Option EncryptLayer → DecryptFn
  | some .l2 => cryptoLayer2Decrypt evp
  | some .l3 => cryptoLayer3Decrypt evp
  | some .l4 => cryptoLayer4Decrypt evp
  | none => fun _ _ pkt _ => (-1, pkt)

theorem packetDecrypt_eq (evp : Evp) (encryptLayer : ℤ) :
    packetDecrypt evp encryptLayer = layerDecoder evp (EncryptLayer.ofAction encryptLayer) := by
  funext P ctx pkt pktLen
  unfold packetDecrypt decryptOfLayer EncryptLayer.ofAction
  split_ifs <;> first | rfl | contradiction

theorem ofAction_eq_l2 {layer : ℤ} : EncryptLayer.ofAction layer = some .l2 ↔ layer = 2 := by
  unfold EncryptLayer.ofAction actionEncryptL2
  split_ifs with h <;> simp [h]

/-- The call is for a policy that encrypts at layer 2. -/
def DecryptCall.ForL2 (c : DecryptCall) : Prop :=
  ∃ cp, c.source = .policy cp ∧ cp.action = actionEncryptL2

theorem DecryptCall.ForL2.setsLayer {c : DecryptCall} (h : c.ForL2) :
    c.source.setsLayer = some 2 := by
  obtain ⟨cp, hsource, haction⟩ := h
  rw [hsource]
  exact if_pos haction

/-! ## Steps -/

variable {evp : Evp} {s s' : LayerState ι} {a : LayerAction ι} {i : ι} {c : DecryptCall}

/-- **What a step does** to the shared layer, and where a thread's next call comes from. -/
theorem layerStep_spec (h : layerStep evp s a = some s') :
    s'.encryptLayer = (s.stores a).getD s.encryptLayer ∧
      ∀ i c, s'.call i = some c → s.call i = some c ∨ s.stores a = c.source.setsLayer := by
  have hdecrypt : ∀ j ctx pkt pktLen i c,
      (s.decrypt evp j ctx pkt pktLen).call i = some c → s.call i = some c := by
    intro j ctx pkt pktLen i c hcall
    change Function.update s.call j none i = some c at hcall
    by_cases hij : i = j
    · rw [hij, Function.update_self] at hcall
      cases hcall
    · rwa [Function.update_of_ne hij] at hcall
  cases a with
  | apply j source =>
    simp only [layerStep] at h
    split_ifs at h
    cases h
    exact ⟨rfl, fun i c hcall => .inl hcall⟩
  | packetDecrypt j ctx pkt pktLen =>
    simp only [layerStep] at h
    split_ifs at h
    cases h
    exact ⟨rfl, fun i c hcall => .inl (hdecrypt _ _ _ _ i c hcall)⟩
  | autoL2 j args =>
    simp only [layerStep] at h
    split_ifs at h
    simp only [LayerState.stores]
    cases hauto : decryptPacketAutoL2 (s.params j) args with
    | done ret =>
      rw [hauto] at h
      cases h
      exact ⟨rfl, fun i c hcall => .inl hcall⟩
    | call c' =>
      rw [hauto] at h
      cases h
      refine ⟨rfl, fun i c hcall => ?_⟩
      by_cases hij : i = j
      · rw [hij] at hcall
        simp only [Function.update_self] at hcall
        cases hcall
        exact .inr rfl
      · simp only [Function.update_of_ne hij] at hcall
        exact .inl hcall
  | autoL2Decrypt j =>
    simp only [layerStep] at h
    split at h
    · cases h
    · cases h
      exact ⟨rfl, fun i c hcall => .inl (hdecrypt _ _ _ _ i c hcall)⟩

/-! ## The last store -/

/-- The last action that stored a layer, by whatever thread, stored this one. -/
def LastStored (evp : Evp) (layer : ℤ) (s : LayerState ι) (as : List (LayerAction ι)) : Prop :=
  Runs.Since (layerStep evp) (fun s a => s.stores a = some layer) (fun s a => s.stores a = none) s as

section

variable {encryptLayer : ℤ} {params : ι → CryptoParams} {as : List (LayerAction ι)}

/-- Either the shared layer is the one stored last, or none has been stored, and no thread has a
call for layer 2. -/
def LayerHistory (evp : Evp) (s₀ : LayerState ι) (as : List (LayerAction ι))
    (s : LayerState ι) : Prop :=
  (∀ layer, s.encryptLayer = layer ↔ LastStored evp layer s₀ as) ∨
    (∀ layer, ¬ LastStored evp layer s₀ as) ∧ ∀ i c, s.call i = some c → ¬ c.ForL2

theorem layerHistory_run
    (hrun : Runs.run (layerStep evp) (LayerState.start encryptLayer params) as = some s) :
    LayerHistory evp (.start encryptLayer params) as s := by
  refine Runs.history (.inr ⟨fun _ => Runs.Since.not_nil, fun _ _ h => by cases h⟩) ?_ hrun
  intro as t a t' ht hist ha
  obtain ⟨hlayer, hcall⟩ := layerStep_spec ha
  have hlast : ∀ layer, LastStored evp layer (.start encryptLayer params) (as ++ [a]) ↔
      t.stores a = some layer ∨
        LastStored evp layer (.start encryptLayer params) as ∧ t.stores a = none :=
    fun layer => Runs.Since.concat_iff ht ha
  cases hstores : t.stores a with
  | some stored =>
    rw [hstores] at hlayer
    refine .inl fun layer => ?_
    rw [hlast, hstores, hlayer]
    simp
  | none =>
    rw [hstores] at hlayer
    replace hlayer : t'.encryptLayer = t.encryptLayer := hlayer
    rcases hist with hist | ⟨hnone, hcalls⟩
    · refine .inl fun layer => ?_
      rw [hlast, hstores, hlayer, hist]
      simp
    · refine .inr ⟨fun layer h => ?_, fun i c hc hl2 => ?_⟩
      · rcases (hlast layer).mp h with h | h
        · rw [hstores] at h
          cases h
        · exact hnone layer h.1
      · rcases hcall i c hc with h | h
        · exact hcalls i c h hl2
        · rw [hstores, hl2.setsLayer] at h
          cases h

/-- **Layer dispatch.** When `packet_decrypt` is called for a layer-2 policy, it runs the decoder of
layer 2 exactly if the layer that was stored last, by whatever thread, is 2. -/
theorem l2Dispatch_iff
    (hrun : Runs.run (layerStep evp) (LayerState.start encryptLayer params) as = some s)
    (hcall : s.call i = some c) (hl2 : c.ForL2) :
    EncryptLayer.ofAction s.encryptLayer = some .l2 ↔
      LastStored evp 2 (.start encryptLayer params) as := by
  rw [ofAction_eq_l2]
  rcases layerHistory_run hrun with hist | ⟨-, hcalls⟩
  · exact hist 2
  · exact absurd hl2 (hcalls i c hcall)

/-! ## Undisturbed calls -/

/-- Another layer is stored only while no other thread has a call for layer 2. -/
def Undisturbed (s : LayerState ι) (a : LayerAction ι) : Prop :=
  ∀ layer ∈ s.stores a, layer ≠ 2 → ∀ i c, s.call i = some c → ¬ c.ForL2

/-- **Undisturbed calls** run the decoder of layer 2. -/
theorem l2Dispatch_of_undisturbed
    (hmeet : Runs.StepsMeet (layerStep evp) Undisturbed (.start encryptLayer params) as)
    (hrun : Runs.run (layerStep evp) (LayerState.start encryptLayer params) as = some s)
    (hcall : s.call i = some c) (hl2 : c.ForL2) :
    EncryptLayer.ofAction s.encryptLayer = some .l2 := by
  rw [ofAction_eq_l2]
  refine Runs.invariant (I := fun s : LayerState ι => ∀ i c, s.call i = some c → c.ForL2 →
    s.encryptLayer = 2) ?_ (fun _ _ h => by cases h) hmeet hrun i c hcall hl2
  intro t a t' ht hcond ha i c hc hl2
  obtain ⟨hlayer, hcalls⟩ := layerStep_spec ha
  rw [hlayer]
  rcases hcalls i c hc with h | h
  · cases hstores : t.stores a with
    | none => exact ht i c h hl2
    | some stored =>
      by_contra hne
      exact hcond stored hstores hne i c h hl2
  · rw [h, hl2.setsLayer]
    rfl

end

end

/-! ## Two threads -/

/-- The only policy of the configuration. -/
def layer2Policy : CryptoPolicy := { samplePolicy actionEncryptL2 with key := Key.repeated 1 }

/-- A frame with the marker of layer 2 and the id of that policy. -/
def layer2Args : AutoL2Args where
  cryptoEnabled := true
  cfg := { AppConfig.empty with policies := [layer2Policy] }
  dctx :=
    { baseCtx := PacketCryptoCtx.empty
      current := (rebuildCryptoRuntime (fun _ _ => Key.zero) (fun _ => true) PolicyRuntime.start
        [layer2Policy]).runtime
      prev := PolicyRuntime.start
      prevGraceActive := false }
  pkt i := if i = 12 then 0x88 else 7
  pktLen := 64

/-- The other one of two threads applies a layer-3 policy, for a frame of its own. -/
def otherApply : LayerAction Bool := .apply true (.policy (samplePolicy actionEncryptL3))

def twoDecrypters : LayerState Bool := .start 0 fun _ => sampleParams .gcm

/-- The call that `decrypt_packet_auto_l2` makes for the frame. -/
def layer2Call : DecryptCall where
  source := .policy layer2Policy
  ctx := layer2Args.dctx.current.ctx 0
  pkt := layer2Args.pkt
  pktLen := 64

theorem l2Dispatch_otherFirst :
    ∃ s, Runs.run (layerStep (sampleEvp [])) twoDecrypters [otherApply, .autoL2 false layer2Args] = some s ∧
      s.call false = some layer2Call ∧ EncryptLayer.ofAction s.encryptLayer = some .l2 := by
  obtain ⟨s, hrun, hcall⟩ : ∃ s,
      Runs.run (layerStep (sampleEvp [])) twoDecrypters [otherApply, .autoL2 false layer2Args] = some s ∧
        s.call false = some layer2Call := ⟨_, rfl, rfl⟩
  refine ⟨s, hrun, hcall, (l2Dispatch_iff hrun hcall ⟨layer2Policy, rfl, rfl⟩).mpr ?_⟩
  exact ⟨[otherApply], .autoL2 false layer2Args, [], _, _, rfl, rfl, rfl, rfl, trivial⟩

theorem not_l2Dispatch_otherBetween :
    ∃ s, Runs.run (layerStep (sampleEvp [])) twoDecrypters [.autoL2 false layer2Args, otherApply] = some s ∧
      s.call false = some layer2Call ∧ layer2Call.ForL2 ∧
      EncryptLayer.ofAction s.encryptLayer = some .l3 :=
  ⟨_, rfl, rfl, ⟨layer2Policy, rfl, rfl⟩, rfl⟩

end NetEncryptor

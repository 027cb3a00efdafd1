import NetEncryptor.Core.Flow
import NetEncryptor.Core.Fragment
import NetEncryptor.Core.Runtime

/-!
# The transmit decision

What `worker_thread` hands to the WAN queue for one job: the policy of the frame, the choice
between bypass, encryption and drop, the split of a long frame, and the TCP pins afterwards.  The
encoders and the split functions are parameters, whose every answer counts.  The choice of the WAN,
the counters, the log, the flush of the queues and the release of the received buffer are left out.
-/

namespace NetEncryptor

/-- The layer that a policy encrypts at. -/
inductive EncryptLayer
  | l2
  | l3
  | l4
  deriving DecidableEq

/-- `POLICY_ACTION_ENCRYPT_L2`, `_L3` and `_L4`. -/
def EncryptLayer.ofAction (action : ℤ) : Option EncryptLayer :=
  if action = actionEncryptL2 then some .l2
  else if action = actionEncryptL3 then some .l3
  else if action = actionEncryptL4 then some .l4
  else none

theorem CryptoPolicy.encrypts_iff_ofAction {cp : CryptoPolicy} :
    cp.Encrypts ↔ EncryptLayer.ofAction cp.action ≠ none := by
  unfold CryptoPolicy.Encrypts EncryptLayer.ofAction
  split_ifs with h₂ h₃ h₄
  · simp [h₂]
  · simp [h₃]
  · simp [h₄]
  · simp [h₂, h₃, h₄]

/-- `frag_need_split_l2`, `frag_need_split` and `frag_need_split_l4`. -/
def EncryptLayer.NeedSplit (P : CryptoParams) (pktLen : ℕ) : EncryptLayer → Prop
  | .l2 => fragNeedSplitL2 P pktLen
  | .l3 => fragNeedSplit P pktLen
  | .l4 => fragNeedSplitL4 P pktLen

instance (P : CryptoParams) (pktLen : ℕ) (layer : EncryptLayer) :
    Decidable (layer.NeedSplit P pktLen) := by
  cases layer <;> unfold EncryptLayer.NeedSplit <;> infer_instance

abbrev Frame := Packet × ℕ

/-- The encoders and the split functions of the three layers, each from the context, the thread's
parameters and a frame. -/
structure Encryptors where
  /-- `crypto_layer2_encrypt`, `crypto_layer3_encrypt` and `crypto_layer4_encrypt`: the value
  returned and the packet. -/
  encrypt : EncryptLayer → PacketCryptoCtx → CryptoParams → Packet → ℕ → ℤ × Packet
  /-- `frag_split_and_encrypt_l2`, `frag_split_and_encrypt` and `frag_split_and_encrypt_l4`: the
  two fragments; `none` stands for a value other than `0`. -/
  split : EncryptLayer → PacketCryptoCtx → CryptoParams → Packet → ℕ → Option (Frame × Frame)

/-- The state that a job is processed in. -/
structure Forwarder where
  cfg : AppConfig
  wanCount : ℕ
  cryptoEnabled : Bool
  cryptoLayer : ℤ
  encryptLayer : ℤ
  runtime : PolicyRuntime
  pins : TcpPolicyPins
  /-- `arp_cache_lookup` in `g_wan_arp`. -/
  wanArp : ℕ → UInt32 → Option Mac
  /-- `if_mac` of `g_wan_arp`. -/
  wanIfMac : ℕ → Mac
  /-- The parameters of the worker thread. -/
  params : CryptoParams

/-- A job: the frame, the interface that it came from, and the time. -/
structure PacketJob where
  pkt : Packet
  pktLen : ℕ
  localIdx : ℤ
  /-- What `select_wan_idx_for_packet` or `select_wan_idx_nonip_flow` returned. -/
  wanIdx : ℤ
  /-- What `tcp_policy_pin_now_sec` returned. -/
  now : ℕ

/-! ## Link addresses -/

/-- `none` stands for `-1`.  A WAN without a peer address keeps the frame's addresses. -/
def setWanL2Addrs (fwd : Forwarder) (wanIdx : ℕ) (pkt : Packet) : Option Packet :=
  if fwd.wanCount ≤ wanIdx then none
  else
    let dstIp := ((fwd.cfg.wans[wanIdx]?).map WanConfig.dstIp).getD 0
    if dstIp = 0 then some pkt
    else
      match fwd.wanArp wanIdx dstIp with
      | none => none
      | some dstMac => some ((pkt.write 0 dstMac.val).write 6 (fwd.wanIfMac wanIdx).val)

/-- The index of the WAN that is used. -/
def PacketJob.wan (fwd : Forwarder) (job : PacketJob) : ℕ :=
  if job.wanIdx < 0 ∨ fwd.wanCount ≤ job.wanIdx then 0 else job.wanIdx.toNat

/-! ## The policy of a frame -/

/-- The policy of a flow as an index, and the pins after the lookup. -/
def policyForFlow (fwd : Forwarder) (job : PacketJob) (t : FlowTuple) : Option ℤ × TcpPolicyPins :=
  let pinned :=
    if t.protocol = ipprotoTcp then
      tcpPolicyPinLookup fwd.cryptoEnabled fwd.cfg fwd.runtime.ready fwd.pins job.now t
    else (none, fwd.pins)
  match pinned.1 with
  | some pi => (some pi, pinned.2)
  | none => (cryptoSelectPolicyForLocal fwd.cfg job.localIdx t, pinned.2)

/-- `g_policy_crypto_ctx_ready` of the policy, if there is a place for it. -/
def Forwarder.CtxReady (fwd : Forwarder) (pi : ℤ) : Prop :=
  0 ≤ pi ∧ pi < maxCryptoPolicies ∧ fwd.runtime.ready pi.toNat = true

instance (fwd : Forwarder) (pi : ℤ) : Decidable (fwd.CtxReady pi) :=
  inferInstanceAs (Decidable (_ ∧ _))

/-- `bypass_crypto` for a flow with a policy. -/
def BypassCrypto (fwd : Forwarder) (cp : CryptoPolicy) (pi : ℤ) : Prop :=
  cp.action = actionBypass ∨ ¬ fwd.CtxReady pi

instance (fwd : Forwarder) (cp : CryptoPolicy) (pi : ℤ) : Decidable (BypassCrypto fwd cp pi) :=
  inferInstanceAs (Decidable (_ ∨ _))

/-- The pins once the policy of a flow is chosen. -/
def pinPolicy (fwd : Forwarder) (job : PacketJob) (t : FlowTuple) (cp : CryptoPolicy) (pi : ℤ)
    (pins : TcpPolicyPins) : TcpPolicyPins :=
  if t.protocol = ipprotoTcp ∧ 0 ≤ pi ∧ pi < fwd.cfg.policies.length ∧ pi < maxCryptoPolicies ∧
      (cp.action = actionBypass ∨ ¬ BypassCrypto fwd cp pi) then
    tcpPolicyPinSet fwd.cryptoEnabled pins job.now t pi
  else pins

/-- A frame with `FIN` or `RST` ends the connection. -/
def unpinEnded (fwd : Forwarder) (job : PacketJob) (t : FlowTuple) (pins : TcpPolicyPins) :
    TcpPolicyPins :=
  if t.protocol = ipprotoTcp ∧
      (tcpIpv4TcpFlags job.pkt job.pktLen).any (fun flags => flags &&& 0x05 != 0) = true then
    tcpPolicyPinRemove fwd.cryptoEnabled pins t
  else pins

/-! ## A job -/

/-- The frame as it came, with the addresses of the link. -/
def sendPlain (fwd : Forwarder) (job : PacketJob) : List Frame :=
  match setWanL2Addrs fwd (job.wan fwd) job.pkt with
  | none => []
  | some pkt => [(pkt, job.pktLen)]

/-- The addresses of the link on both fragments. -/
def sendFragments (fwd : Forwarder) (wanIdx : ℕ) (f₁ f₂ : Frame) : Option (List Frame) :=
  match setWanL2Addrs fwd wanIdx f₁.1 with
  | none => none
  | some p₁ =>
    match setWanL2Addrs fwd wanIdx f₂.1 with
    | none => none
    | some p₂ => some [(p₁, f₁.2), (p₂, f₂.2)]

/-- What is sent for a policy with a context; `none` when the job is dropped. -/
def sendEncrypted (E : Encryptors) (fwd : Forwarder) (job : PacketJob) (cp : CryptoPolicy)
    (useCtx : PacketCryptoCtx) : Option (List Frame) :=
  let P := cryptoApplyFromPolicy fwd.params cp
  match setWanL2Addrs fwd (job.wan fwd) job.pkt with
  | none => none
  | some pkt =>
    match EncryptLayer.ofAction cp.action with
    | none => none
    | some layer =>
      if layer.NeedSplit P job.pktLen then
        match E.split layer useCtx P pkt job.pktLen with
        | none => none
        | some (f₁, f₂) => sendFragments fwd (job.wan fwd) f₁ f₂
      else
        let r := E.encrypt layer useCtx P pkt job.pktLen
        if r.1 < 0 then none else some [(r.2, r.1.toNat)]

/-- The buffers handed to `interface_send_batch_queue`, in order, and the pins afterwards. -/
structure Transmission where
  sent : List Frame
  pins : TcpPolicyPins

/-- One round of `worker_thread`. -/
def workerThread (E : Encryptors) (fwd : Forwarder) (job : PacketJob) : Transmission :=
  if fwd.cryptoEnabled = false then ⟨sendPlain fwd job, fwd.pins⟩
  else
    match parseFlow job.pkt job.pktLen with
    | none => ⟨sendPlain fwd job, fwd.pins⟩
    | some t =>
      let chosen := policyForFlow fwd job t
      match chosen.1 with
      | none => ⟨if fwd.cfg.policies = [] then sendPlain fwd job else [], chosen.2⟩
      | some pi =>
        match atIndex? fwd.cfg.policies pi with
        | none => ⟨[], chosen.2⟩
        | some cp =>
          let pins := pinPolicy fwd job t cp pi chosen.2
          if BypassCrypto fwd cp pi then ⟨sendPlain fwd job, pins⟩
          else
            match sendEncrypted E fwd job cp (fwd.runtime.ctx pi.toNat) with
            | none => ⟨[], pins⟩
            | some frames => ⟨frames, unpinEnded fwd job t pins⟩

/-! ## Failing closed -/

/-- The frame is what an encoder or a split function made of the job for the policy. -/
def IsEncrypted (E : Encryptors) (fwd : Forwarder) (job : PacketJob) (cp : CryptoPolicy) (pi : ℤ)
    (f : Frame) : Prop :=
  let P := cryptoApplyFromPolicy fwd.params cp
  let ctx := fwd.runtime.ctx pi.toNat
  ∃ layer pkt, EncryptLayer.ofAction cp.action = some layer ∧
    setWanL2Addrs fwd (job.wan fwd) job.pkt = some pkt ∧
    (E.encrypt layer ctx P pkt job.pktLen = (↑f.2, f.1) ∨
      ∃ f₁ f₂ f₀ : Frame, E.split layer ctx P pkt job.pktLen = some (f₁, f₂) ∧
        (f₀ = f₁ ∨ f₀ = f₂) ∧ setWanL2Addrs fwd (job.wan fwd) f₀.1 = some f.1 ∧ f₀.2 = f.2)

/-- Whatever the encoders do, only their outputs are sent. -/
def FailClosed (fwd : Forwarder) (job : PacketJob) (cp : CryptoPolicy) (pi : ℤ) : Prop :=
  ∀ E : Encryptors, ∀ f ∈ (workerThread E fwd job).sent, IsEncrypted E fwd job cp pi f

section

variable {E : Encryptors} {fwd : Forwarder} {job : PacketJob} {t : FlowTuple} {cp : CryptoPolicy}
  {pi : ℤ}

theorem workerThread_of_policy (hcrypto : fwd.cryptoEnabled = true)
    (hflow : parseFlow job.pkt job.pktLen = some t) (hpi : (policyForFlow fwd job t).1 = some pi)
    (hcp : atIndex? fwd.cfg.policies pi = some cp) :
    (workerThread E fwd job).sent =
      if BypassCrypto fwd cp pi then sendPlain fwd job
      else (sendEncrypted E fwd job cp (fwd.runtime.ctx pi.toNat)).getD [] := by
  rw [workerThread, if_neg (by simp [hcrypto])]
  simp only [hflow, hpi, hcp]
  split_ifs with hbypass
  · rfl
  · cases sendEncrypted E fwd job cp (fwd.runtime.ctx pi.toNat) <;> rfl

theorem sendFragments_eq_some {wanIdx : ℕ} {f₁ f₂ : Frame} {frames : List Frame}
    (h : sendFragments fwd wanIdx f₁ f₂ = some frames) {f : Frame} (hf : f ∈ frames) :
    ∃ f₀, (f₀ = f₁ ∨ f₀ = f₂) ∧ setWanL2Addrs fwd wanIdx f₀.1 = some f.1 ∧ f₀.2 = f.2 := by
  unfold sendFragments at h
  split at h
  · cases h
  · rename_i p₁ h₁
    split at h
    · cases h
    · rename_i p₂ h₂
      obtain rfl := Option.some.inj h
      rcases List.mem_pair.mp hf with rfl | rfl
      · exact ⟨f₁, .inl rfl, h₁, rfl⟩
      · exact ⟨f₂, .inr rfl, h₂, rfl⟩

/-- **The encrypting branch** sends outputs of the encoders only. -/
theorem sendEncrypted_isEncrypted {frames : List Frame}
    (h : sendEncrypted E fwd job cp (fwd.runtime.ctx pi.toNat) = some frames) {f : Frame}
    (hf : f ∈ frames) : IsEncrypted E fwd job cp pi f := by
  simp only [sendEncrypted] at h
  split at h
  · cases h
  rename_i pkt hpkt
  split at h
  · cases h
  rename_i layer hlayer
  refine ⟨layer, pkt, hlayer, hpkt, ?_⟩
  split_ifs at h with hsplit hneg
  · -- a long frame
    split at h
    · cases h
    rename_i f₁ f₂ hf₁₂
    obtain ⟨f₀, hf₀, haddr, hlen⟩ := sendFragments_eq_some h hf
    exact .inr ⟨f₁, f₂, f₀, hf₁₂, hf₀, haddr, hlen⟩
  · obtain rfl := Option.some.inj h
    obtain rfl := List.mem_singleton.mp hf
    exact .inl (Prod.ext (Int.toNat_of_nonneg (not_lt.mp hneg)).symm rfl)

/-- Encoders that always fail. -/
def Encryptors.failing : Encryptors where
  encrypt _ _ _ pkt _ := (-1, pkt)
  split _ _ _ _ _ := none

theorem not_isEncrypted_failing {f : Frame} : ¬ IsEncrypted .failing fwd job cp pi f := by
  rintro ⟨layer, pkt, -, -, h | ⟨f₁, f₂, f₀, h, -⟩⟩
  · have := congrArg Prod.fst h
    simp only [Encryptors.failing] at this
    omega
  · cases h

theorem not_bypassCrypto_iff (henc : cp.Encrypts) : ¬ BypassCrypto fwd cp pi ↔ fwd.CtxReady pi := by
  have hact : cp.action ≠ actionBypass := by
    unfold CryptoPolicy.Encrypts actionEncryptL2 actionEncryptL3 actionEncryptL4 at henc
    unfold actionBypass
    omega
  simp [BypassCrypto, hact]

/-- **The transmit decision.** A flow whose policy encrypts fails closed exactly if the policy has
its context ready, or the frame cannot be sent at all because the WAN peer's link address is not
known. -/
theorem failClosed_iff (hcrypto : fwd.cryptoEnabled = true)
    (hflow : parseFlow job.pkt job.pktLen = some t) (hpi : (policyForFlow fwd job t).1 = some pi)
    (hcp : atIndex? fwd.cfg.policies pi = some cp) (henc : cp.Encrypts) :
    FailClosed fwd job cp pi ↔
      fwd.CtxReady pi ∨ setWanL2Addrs fwd (job.wan fwd) job.pkt = none := by
  unfold FailClosed
  simp only [workerThread_of_policy hcrypto hflow hpi hcp]
  by_cases hready : fwd.CtxReady pi
  · refine ⟨fun _ => .inl hready, fun _ E f hf => ?_⟩
    rw [if_neg ((not_bypassCrypto_iff henc).mpr hready)] at hf
    cases hs : sendEncrypted E fwd job cp (fwd.runtime.ctx pi.toNat) with
    | none => simp [hs] at hf
    | some frames => exact sendEncrypted_isEncrypted hs (by simpa [hs] using hf)
  · have hbypass : BypassCrypto fwd cp pi := by
      by_contra h
      exact hready ((not_bypassCrypto_iff henc).mp h)
    simp only [if_pos hbypass, hready, false_or, sendPlain]
    cases hpkt : setWanL2Addrs fwd (job.wan fwd) job.pkt with
    | none => simp
    | some pkt =>
      refine iff_of_false (fun h => ?_) (by simp)
      exact not_isEncrypted_failing (h .failing (pkt, job.pktLen) (by simp))

theorem ctxReady_rebuild_iff {hmac : Hmac} {getCtx : ℕ → Bool} {old : PolicyRuntime}
    (hruntime : fwd.runtime = (rebuildCryptoRuntime hmac getCtx old fwd.cfg.policies).runtime)
    (hcp : atIndex? fwd.cfg.policies pi = some cp) :
    fwd.CtxReady pi ↔ pi < maxCryptoPolicies ∧ GetsCtx getCtx old cp pi.toNat := by
  unfold atIndex? at hcp
  split_ifs at hcp with h₀
  rw [Forwarder.CtxReady, hruntime, rebuildCryptoRuntime_ready_iff]
  refine ⟨?_, fun ⟨hmax, hgets⟩ => ⟨h₀, hmax, cp, ?_, hgets⟩⟩
  · rintro ⟨-, hmax, cp', hcp', hgets⟩
    rw [List.getElem?_take_of_lt (by omega), hcp] at hcp'
    exact ⟨hmax, Option.some.inj hcp' ▸ hgets⟩
  · rw [List.getElem?_take_of_lt (by omega), hcp]

theorem selectPass_atIndex {cfg : AppConfig} {anyPass : Bool} {indices : List ℤ}
    (h : selectPass cfg t anyPass indices = some pi) : ∃ cp, atIndex? cfg.policies pi = some cp := by
  have hfound := List.find?_some h
  cases hcp : atIndex? cfg.policies pi with
  | none => simp [hcp] at hfound
  | some cp => exact ⟨cp, rfl⟩

/-- **A chosen policy is one of the configuration**, pinned or selected. -/
theorem policyForFlow_atIndex (h : (policyForFlow fwd job t).1 = some pi) :
    ∃ cp, atIndex? fwd.cfg.policies pi = some cp := by
  have selected (h : cryptoSelectPolicyForLocal fwd.cfg job.localIdx t = some pi) :
      ∃ cp, atIndex? fwd.cfg.policies pi = some cp := by
    unfold cryptoSelectPolicyForLocal at h
    split at h
    · cases h
    unfold configSelectCryptoPolicy at h
    split at h
    · cases h
    split at h
    · rename_i hpass
      exact selectPass_atIndex (Option.some.inj h ▸ hpass)
    · exact selectPass_atIndex h
  simp only [policyForFlow] at h
  split at h
  · rename_i pi' hpinned
    obtain rfl := Option.some.inj h
    split_ifs at hpinned
    obtain ⟨-, cp, hcp, -⟩ := tcpPolicyPinLookup_usable hpinned
    exact ⟨cp, hcp⟩
  · exact selected h

end

/-! ## A forwarder with one policy -/

/-- A WAN that keeps the frame's addresses. -/
def sampleWan : WanConfig where
  ifname := "wan0"
  dstIp := 0
  srcMac := Mac.zero
  dstMac := Mac.zero
  windowSize := 1
  umemMb := 64
  ringSize := 2048
  batchSize := 32
  frameSize := 4096
  queueCount := 1

def sampleLocal : LocalConfig where
  ifname := "lan0"
  ip := 0
  netmask := 0
  network := 0
  srcMac := Mac.zero
  dstMac := Mac.zero
  umemMb := 64
  ringSize := 2048
  batchSize := 32
  frameSize := 4096
  queueCount := 1

/-- One profile whose only policy encrypts every TCP flow at layer 3 under the given key. -/
def sampleL3Config (key : Key) : AppConfig :=
  { AppConfig.empty with
    locals := [sampleLocal]
    wans := [sampleWan]
    cryptoEnabled := true
    profiles := [⟨1, "p", true, [0], [(0, 1)], [0]⟩]
    policies := [{ samplePolicy actionEncryptL3 with key := key }] }

/-- The forwarder that a first rebuild from this configuration leaves. -/
def sampleForwarder (key : Key) : Forwarder where
  cfg := sampleL3Config key
  wanCount := 1
  cryptoEnabled := true
  cryptoLayer := 3
  encryptLayer := 3
  runtime := (rebuildCryptoRuntime (fun _ _ => Key.zero) (fun _ => true) PolicyRuntime.start
    (sampleL3Config key).policies).runtime
  pins := ChainTable.empty
  wanArp _ _ := none
  wanIfMac _ := Mac.zero
  params := sampleParams .ctr

/-- The TCP acknowledgement from the first LAN interface. -/
def sampleJob : PacketJob := ⟨ackFrame, 54, 0, 0, 1⟩

def ackFlow : FlowTuple := ⟨0x0100000a, 0x0200000a, 50000, 443, 6⟩

theorem parseFlow_ackFrame : parseFlow ackFrame 54 = some ackFlow := by decide

theorem policyForFlow_sampleJob (key : Key) :
    (policyForFlow (sampleForwarder key) sampleJob ackFlow).1 = some 0 := by rfl

theorem failClosed_ackFrame :
    FailClosed (sampleForwarder ⟨List.replicate 32 1, rfl⟩) sampleJob
      { samplePolicy actionEncryptL3 with key := ⟨List.replicate 32 1, rfl⟩ } 0 :=
  (failClosed_iff rfl parseFlow_ackFrame (policyForFlow_sampleJob _) rfl (.inr (.inl rfl))).mpr
    (.inl (by decide))

/-- A policy without a key has no context, and its flow is sent in clear. -/
theorem not_failClosed_zeroKey :
    (policyForFlow (sampleForwarder Key.zero) sampleJob ackFlow).1 = some 0 ∧
      (samplePolicy actionEncryptL3).Encrypts ∧
      (∀ E, (workerThread E (sampleForwarder Key.zero) sampleJob).sent = [(ackFrame, 54)]) ∧
      ¬ FailClosed (sampleForwarder Key.zero) sampleJob (samplePolicy actionEncryptL3) 0 := by
  have hsent : ∀ E, (workerThread E (sampleForwarder Key.zero) sampleJob).sent =
      [(ackFrame, 54)] := fun _ => rfl
  refine ⟨policyForFlow_sampleJob _, .inr (.inl rfl), hsent, fun h => ?_⟩
  refine not_isEncrypted_failing (h .failing (ackFrame, 54) ?_)
  rw [hsent]
  exact List.mem_singleton.mpr rfl

end NetEncryptor

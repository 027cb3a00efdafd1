import NetEncryptor.Core.LanState
import NetEncryptor.Db.Merge

/-!
# Hot reload

`forwarder_reload_config` puts a configuration with the same interfaces in the place of the running
one.  The new configuration comes from the database, which has nothing of what was learned about
the LAN: `picksKept_iff` says that every frame from the WAN is still given to the same interface
exactly if nothing was learned.
-/

namespace NetEncryptor

def sameTopology (a b : AppConfig) : Prop :=
  a.locals.map LocalConfig.ifname = b.locals.map LocalConfig.ifname ∧
    a.wans.map WanConfig.ifname = b.wans.map WanConfig.ifname

instance (a b : AppConfig) : Decidable (sameTopology a b) := inferInstanceAs (Decidable (_ ∧ _))

def cryptoRuntimeChanged (a b : AppConfig) : Prop :=
  a.cryptoEnabled ≠ b.cryptoEnabled ∨ a.encryptLayer ≠ b.encryptLayer ∨
    a.cryptoMode ≠ b.cryptoMode ∨ a.aesBits ≠ b.aesBits ∨ a.nonceSize ≠ b.nonceSize ∨
    a.fakeEthertypeIpv4 ≠ b.fakeEthertypeIpv4 ∨ a.fakeProtocol ≠ b.fakeProtocol ∨
    a.policies.length ≠ b.policies.length ∨
    ¬ List.Forall₂ sameCryptoPolicy (a.policies.take maxCryptoPolicies)
      (b.policies.take maxCryptoPolicies)

instance (a b : AppConfig) : Decidable (cryptoRuntimeChanged a b) :=
  inferInstanceAs (Decidable (_ ∨ _))

theorem policies_of_not_cryptoRuntimeChanged {a b : AppConfig} (h : ¬ cryptoRuntimeChanged a b) :
    a.cryptoEnabled = b.cryptoEnabled ∧
      b.policies.take maxCryptoPolicies = a.policies.take maxCryptoPolicies := by
  simp only [cryptoRuntimeChanged, not_or, not_not] at h
  refine ⟨h.1, ?_⟩
  have hall := h.2.2.2.2.2.2.2.2
  unfold sameCryptoPolicy at hall
  rw [List.forall₂_eq_eq_eq] at hall
  exact hall.symm

def forwardingRuntimeChanged (a b : AppConfig) : Prop :=
  a.profiles.length ≠ b.profiles.length ∨ a.wans.length ≠ b.wans.length ∨
    a.locals.length ≠ b.locals.length

instance (a b : AppConfig) : Decidable (forwardingRuntimeChanged a b) :=
  inferInstanceAs (Decidable (_ ∨ _))

/-- Every interface has `FORWARDER_XSK_QUEUE_COUNT` queues. -/
def setQueueCounts (cfg : AppConfig) : AppConfig :=
  { cfg with
    locals := cfg.locals.map fun loc => { loc with queueCount := 1 }
    wans := cfg.wans.map fun wan => { wan with queueCount := 1 } }

/-- The forwarder with a new configuration, `none` for `-1`.  The settings that are local to the
calling thread are left out. -/
def forwarderReloadConfig (hmac : Hmac) (getCtx : ℕ → Bool) (fwd : Forwarder) (cfg : AppConfig) :
    Option Forwarder :=
  if ¬ sameTopology fwd.cfg cfg then none
  else if ¬ cryptoRuntimeChanged fwd.cfg cfg ∧ ¬ forwardingRuntimeChanged fwd.cfg cfg then
    some { fwd with cfg := cfg }
  else
    let needCryptoReload := cryptoRuntimeChanged fwd.cfg cfg
    let cfg := setQueueCounts cfg
    let fwd :=
      { fwd with
        cfg := cfg
        cryptoEnabled := cfg.cryptoEnabled
        cryptoLayer := cfg.encryptLayer }
    if cfg.cryptoEnabled = true ∧ needCryptoReload then
      let r := rebuildCryptoRuntime hmac getCtx fwd.runtime cfg.policies
      some { fwd with
        runtime := r.runtime
        encryptLayer := cfg.encryptLayer
        params :=
          { fwd.params with
            fakeEthertypeIpv4 :=
              if r.hasEncryptL2 then cfg.fakeEthertypeIpv4 else fwd.params.fakeEthertypeIpv4 }
        pins := ChainTable.empty }
    else some fwd

/-- The three ways that `forwarder_reload_config` can take. -/
inductive ReloadKind
  /-- Other interfaces: nothing happens. -/
  | rejected
  /-- Nothing that the packet threads depend on has changed: the pointer is stored. -/
  | unpaused
  /-- The packet threads are stopped first. -/
  | paused
  deriving DecidableEq

def reloadKind (running cfg : AppConfig) : ReloadKind :=
  if ¬ sameTopology running cfg then .rejected
  else if ¬ cryptoRuntimeChanged running cfg ∧ ¬ forwardingRuntimeChanged running cfg then .unpaused
  else .paused

/-- What the slot of the new configuration holds after the reload. -/
def ReloadKind.loaded (kind : ReloadKind) (cfg : AppConfig) : AppConfig :=
  match kind with
  | .paused => setQueueCounts cfg
  | .unpaused | .rejected => cfg

/-- Every frame from the WAN goes to the same interface as before. -/
def PicksKept (fwd fwd' : Forwarder) : Prop :=
  ∀ (pkt : Packet) (pktLen : ℕ) (destIp : UInt32),
    (forwarderRxPickLocal fwd' pkt pktLen destIp).1 = (forwarderRxPickLocal fwd pkt pktLen destIp).1

/-- The receive path finds nothing learned: no peer in bridge mode, and otherwise no netmask and no
network on the first interface. -/
def NothingLearned (cfg : AppConfig) : Prop :=
  if configWanBridgeMode cfg = true then
    ∀ loc ∈ cfg.locals, macIsValidPeer loc.dstMac = false
  else ∀ loc ∈ cfg.locals.head?, loc.netmask = 0 ∧ loc.network = 0

instance (cfg : AppConfig) : Decidable (NothingLearned cfg) :=
  inferInstanceAs (Decidable (ite _ _ _))

section

variable {hmac : Hmac} {getCtx : ℕ → Bool} {fwd fwd' : Forwarder} {cfg : AppConfig}

/-- **A reload takes the interfaces of the new configuration**, whichever way it takes. -/
theorem forwarderReloadConfig_eq_some (h : forwarderReloadConfig hmac getCtx fwd cfg = some fwd') :
    sameTopology fwd.cfg cfg ∧ (fwd'.cfg = cfg ∨ fwd'.cfg = setQueueCounts cfg) := by
  simp only [forwarderReloadConfig] at h
  split_ifs at h with htop hsame hcrypto
  · cases h
    exact ⟨htop, .inl rfl⟩
  all_goals
    cases h
    exact ⟨htop, .inr rfl⟩

theorem reloadKind_eq_rejected {running : AppConfig} :
    reloadKind running cfg = .rejected ↔ ¬ sameTopology running cfg := by
  unfold reloadKind
  split_ifs with htop <;> simp [htop]

/-- **The kind of a reload** decides whether it is accepted and what configuration it leaves. -/
theorem forwarderReloadConfig_cfg :
    (forwarderReloadConfig hmac getCtx fwd cfg).map Forwarder.cfg =
      if reloadKind fwd.cfg cfg = .rejected then none
      else some ((reloadKind fwd.cfg cfg).loaded cfg) := by
  by_cases htop : sameTopology fwd.cfg cfg
  · rw [if_neg (mt reloadKind_eq_rejected.mp (not_not.mpr htop))]
    simp only [forwarderReloadConfig, reloadKind, if_neg (not_not.mpr htop)]
    split_ifs <;> rfl
  · rw [if_pos (reloadKind_eq_rejected.mpr htop), forwarderReloadConfig, if_pos htop]
    rfl

theorem setQueueCounts_unlearned (h : ∀ loc ∈ cfg.locals, loc.Unlearned) :
    ∀ loc ∈ (setQueueCounts cfg).locals, loc.Unlearned := by
  intro loc hloc
  obtain ⟨loc', hloc', rfl⟩ := List.mem_map.mp hloc
  exact h loc' hloc'

theorem configWanBridgeMode_setQueueCounts :
    configWanBridgeMode (setQueueCounts cfg) = configWanBridgeMode cfg := by
  unfold configWanBridgeMode setQueueCounts
  rw [List.any_map]
  rfl

theorem reload_unlearned (hnew : ∀ loc ∈ cfg.locals, loc.Unlearned)
    (h : forwarderReloadConfig hmac getCtx fwd cfg = some fwd') :
    (∀ loc ∈ fwd'.cfg.locals, loc.Unlearned) ∧
      configWanBridgeMode fwd'.cfg = configWanBridgeMode cfg ∧
      fwd'.cfg.locals.length = fwd.cfg.locals.length := by
  obtain ⟨htop, hcfg⟩ := forwarderReloadConfig_eq_some h
  have hlen : cfg.locals.length = fwd.cfg.locals.length := by
    have := congrArg List.length htop.1
    rw [List.length_map, List.length_map] at this
    exact this.symm
  rcases hcfg with hcfg | hcfg
  · rw [hcfg]
    exact ⟨hnew, rfl, hlen⟩
  · rw [hcfg]
    refine ⟨setQueueCounts_unlearned hnew, configWanBridgeMode_setQueueCounts, ?_⟩
    rw [setQueueCounts, List.length_map]
    exact hlen

/-! ## A running forwarder has learned -/

theorem not_nothingLearned_of_bridgeMacPrepare {saved : List (ℕ × Mac)}
    {firstPacket : ℕ → Option Mac} {cfg' : AppConfig} (hcfg : ∀ loc ∈ cfg.locals, loc.Unlearned)
    (h : bridgeMacPrepare saved firstPacket cfg = some cfg') (hne : cfg'.locals ≠ [])
    (hbridge : configWanBridgeMode cfg' = true) : ¬ NothingLearned cfg' := by
  have hvalid : PeersValid cfg := fun loc hloc =>
    .inr (macIsZero_iff.mpr (hcfg loc hloc).2.2.2)
  obtain ⟨loc, hloc⟩ := List.exists_mem_of_ne_nil _ hne
  intro hnothing
  rw [NothingLearned, if_pos hbridge] at hnothing
  have := bridgeMacPrepare_learned hvalid h loc hloc
  rw [hnothing loc hloc] at this
  cases this

theorem not_nothingLearned_of_fill {loc : LocalConfig} {ip : UInt32} {netmask : Option UInt32}
    (hfirst : cfg.locals.head? = some (localConfigFillIpv4FromIface loc (some ip) netmask))
    (hmask : netmask ≠ some 0) (hbridge : ¬ configWanBridgeMode cfg = true) :
    ¬ NothingLearned cfg := by
  intro hnothing
  rw [NothingLearned, if_neg hbridge] at hnothing
  have hzero : netmask.getD 0xffffffff = 0 := (hnothing _ hfirst).1
  cases netmask with
  | none => cases hzero
  | some mask => exact hmask (congrArg some hzero)

/-! ## The pick of a configuration without learned fields -/

theorem localForMac_unlearned {locals : List LocalConfig} (h : ∀ loc ∈ locals, loc.Unlearned)
    (mac : Mac) : localForMac locals mac = none := by
  refine localForMac_none_iff.mpr (fun loc hloc => ?_) mac
  rw [(h loc hloc).2.2.2]
  rfl

theorem configFindLocalForIp_unlearned (h : ∀ loc ∈ cfg.locals, loc.Unlearned) (destIp : UInt32) :
    configFindLocalForIp cfg destIp = if cfg.locals = [] then none else some 0 := by
  unfold configFindLocalForIp
  cases hl : cfg.locals with
  | nil => rfl
  | cons loc locs =>
    obtain ⟨-, hmask, hnet, -⟩ := h loc (by rw [hl]; exact List.mem_cons_self)
    rw [List.findIdx?_cons, hmask, hnet, UInt32.and_zero]
    rfl

theorem mask_eq_zero {mask net : UInt32} (h : ∀ ip : UInt32, ip ≠ 0 → ip &&& mask = net) :
    mask = 0 ∧ net = 0 := by
  have h₁ : 1 &&& mask = net := h 1 (by decide)
  have h₂ : 2 &&& mask = net := h 2 (by decide)
  have hall : mask = net := by
    have := h (-1) (by decide)
    rwa [UInt32.neg_one_and] at this
  have hmask : mask = 0 := by
    calc mask = 1 &&& mask := by rw [h₁, hall]
      _ = 1 &&& (2 &&& mask) := by rw [h₂, hall]
      _ = (1 &&& 2) &&& mask := (UInt32.and_assoc _ _ _).symm
      _ = 0 := UInt32.zero_and
  exact ⟨hmask, hall ▸ hmask⟩

theorem configFindLocalForIp_zero_iff :
    (∀ destIp : UInt32, destIp ≠ 0 →
        configFindLocalForIp cfg destIp = if cfg.locals = [] then none else some 0) ↔
      ∀ loc ∈ cfg.locals.head?, loc.netmask = 0 ∧ loc.network = 0 := by
  unfold configFindLocalForIp
  cases hl : cfg.locals with
  | nil => simp
  | cons loc locs =>
    simp only [List.findIdx?_cons, List.head?_cons, Option.mem_def, Option.some.injEq, forall_eq',
      reduceCtorEq, if_false]
    refine ⟨fun h => mask_eq_zero fun ip hip => ?_, fun ⟨hmask, hnet⟩ ip _ => ?_⟩
    · have := h ip hip
      split_ifs at this with hmatch
      · exact beq_iff_eq.mp hmatch
      · simp at this
    · rw [hmask, hnet, UInt32.and_zero]
      rfl

/-! ## Reloading -/

theorem etherDhost_write (mac : Mac) : etherDhost (Buffer.write (fun _ => 0) 0 mac.val) = mac :=
  Subtype.ext (Buffer.slice_write_self _ 0 mac.property)

/-- **Hot reload.** A reload to a configuration from the database keeps the pick of every frame
exactly if nothing was learned about the LAN. -/
theorem picksKept_iff {profiles : List ProfileRows} (hbuild : buildMergedConfig profiles = some cfg)
    (hreload : forwarderReloadConfig hmac getCtx fwd cfg = some fwd')
    (hmode : configWanBridgeMode cfg = configWanBridgeMode fwd.cfg) :
    PicksKept fwd fwd' ↔ NothingLearned fwd.cfg := by
  obtain ⟨hnew, hmode', hlen⟩ := reload_unlearned (buildMergedConfig_unlearned hbuild).2 hreload
  rw [hmode] at hmode'
  have hnil : fwd'.cfg.locals = [] ↔ fwd.cfg.locals = [] := by
    rw [← List.length_eq_zero_iff, hlen, List.length_eq_zero_iff]
  unfold PicksKept NothingLearned
  by_cases hbridge : configWanBridgeMode fwd.cfg = true
  · rw [if_pos hbridge, ← localForMac_none_iff]
    simp only [forwarderRxPickLocal_bridge hbridge, forwarderRxPickLocal_bridge (hmode'.trans hbridge),
      localForMac_unlearned hnew, ite_self]
    refine ⟨fun h mac => ?_, fun h pkt pktLen _ => by rw [h, ite_self]⟩
    -- the frame to this address
    have := h (Buffer.write (fun _ => 0) 0 mac.val) 14 0
    rw [if_neg (by omega), etherDhost_write] at this
    exact this.symm
  · have hbridge' : ¬ configWanBridgeMode fwd'.cfg = true := by rwa [hmode']
    rw [if_neg hbridge, ← configFindLocalForIp_zero_iff]
    simp only [forwarderRxPickLocal_ip hbridge, forwarderRxPickLocal_ip hbridge',
      configFindLocalForIp_unlearned hnew, hnil]
    refine ⟨fun h ip hip => ?_, fun h pkt pktLen ip => ?_⟩
    · have := h (fun _ => 0) 0 ip
      rw [if_neg hip, if_neg hip] at this
      exact this.symm
    · split_ifs with hip hl
      · rfl
      · have := h ip hip
        rw [if_pos hl] at this
        exact this.symm
      · have := h ip hip
        rw [if_neg hl] at this
        exact this.symm

end

/-! ## A bridge with one LAN interface -/

/-- A profile with one LAN interface, a WAN without peer address and no policy. -/
def bridgeProfile : ProfileRows := ⟨1, "p", ["lan0"], [⟨"wan0", 0, 1⟩], []⟩

def bridgeConfig : AppConfig := (buildMergedConfig [bridgeProfile]).getD AppConfig.empty

theorem buildMergedConfig_bridgeProfile : buildMergedConfig [bridgeProfile] = some bridgeConfig := by
  rfl

/-- The forwarder that runs with a configuration without policies. -/
def plainForwarder (cfg : AppConfig) : Forwarder where
  cfg := cfg
  wanCount := 1
  cryptoEnabled := false
  cryptoLayer := 0
  encryptLayer := 0
  runtime := PolicyRuntime.start
  pins := ChainTable.empty
  wanArp _ _ := none
  wanIfMac _ := Mac.zero
  params := sampleParams .ctr

/-- The address that the TCP acknowledgement is sent to. -/
def samplePeer : Mac := ⟨[2, 0, 0, 0, 0, 2], rfl⟩

/-- The bridge once it has heard that peer on its LAN interface. -/
def learnedBridge : AppConfig :=
  (bridgeMacPrepare [] (fun _ => some samplePeer) bridgeConfig).getD AppConfig.empty

theorem picksKept_bridgeConfig :
    PicksKept (plainForwarder bridgeConfig) (plainForwarder bridgeConfig) := by
  have hreload : forwarderReloadConfig (fun _ _ => Key.zero) (fun _ => true)
      (plainForwarder bridgeConfig) bridgeConfig = some (plainForwarder bridgeConfig) := rfl
  exact (picksKept_iff buildMergedConfig_bridgeProfile hreload rfl).mpr (by decide)

/-- A bridge that has learned its peer loses it in a reload to the very configuration that it
started from, and the peer's frames are dropped. -/
theorem not_picksKept_learnedBridge :
    bridgeMacPrepare [] (fun _ => some samplePeer) bridgeConfig = some learnedBridge ∧
      forwarderReloadConfig (fun _ _ => Key.zero) (fun _ => true) (plainForwarder learnedBridge)
        bridgeConfig = some (plainForwarder bridgeConfig) ∧
      (forwarderRxPickLocal (plainForwarder learnedBridge) ackFrame 54 0).1 = some 0 ∧
      (forwarderRxPickLocal (plainForwarder bridgeConfig) ackFrame 54 0).1 = none ∧
      ¬ PicksKept (plainForwarder learnedBridge) (plainForwarder bridgeConfig) := by
  have before : (forwarderRxPickLocal (plainForwarder learnedBridge) ackFrame 54 0).1 = some 0 := by
    rfl
  have after : (forwarderRxPickLocal (plainForwarder bridgeConfig) ackFrame 54 0).1 = none := by
    rfl
  refine ⟨rfl, rfl, before, after, fun h => ?_⟩
  have := h ackFrame 54 0
  rw [before, after] at this
  cases this

end NetEncryptor

import NetEncryptor.Core.Grace
import NetEncryptor.Crypto.Layer2Fragment

/-!
# The WAN filter and layer-2 policies

`xdp_wan_redirect_prog` gives the forwarder a layer-2 frame only if the entry of `wan_config_map`
is not zero.  `interface_init_wan_rx` writes the entry, `forwarder_reload_config` does not:
`keepsUp_iff` says that a process whose first layer-2 policy comes with a reload never gets the
frames of that policy.
-/

namespace NetEncryptor

/-! ## The kernel program -/

/-- What becomes of a frame: the kernel gets it, or the socket of the forwarder. -/
inductive XdpAction
  | pass
  | redirect
  deriving DecidableEq

def neL2MarkerByte : UInt8 := 0x88

/-- `fake4` is the entry of `wan_config_map`. -/
def xdpWanRedirectProg (fake4 : UInt16) (data : Packet) (len : ℕ) : XdpAction :=
  if len < ethHeaderSize then .pass
  else if data.be16 12 = 0x0806 then .pass
  else if data.be16 12 = 0x0800 then
    if len < ethHeaderSize + 20 then .pass
    else if data (ethHeaderSize + 9) = 1 then .pass
    else .redirect
  else if data.be16 12 = 0x86dd then .pass
  else if fake4 ≠ 0 ∧ data 12 = neL2MarkerByte then .redirect
  else .pass

/-- A frame that one of the two layer-2 encoders makes with the fake ethertype `0x88b5`. -/
inductive Layer2Output : Packet → ℕ → Prop
  | whole (evp : Evp) (P : CryptoParams) (ctx : PacketCryptoCtx) (counter len : ℕ) (p : Packet)
      (hns : P.NonceSizeOk) (hfake : P.fakeEthertypeIpv4 = 0x88b5)
      (h : len < (cryptoLayer2Encrypt evp P ctx counter p len).1) :
      Layer2Output (cryptoLayer2Encrypt evp P ctx counter p len).2
        (cryptoLayer2Encrypt evp P ctx counter p len).1.toNat
  | fragment (evp : Evp) (P : CryptoParams) (ctx : PacketCryptoCtx) (counter n pktId outMax : ℕ)
      (p plain outBuf : Packet) (fragIndex : UInt8) (f : Packet × ℕ)
      (hns : P.NonceSizeOk) (hfake : P.fakeEthertypeIpv4 = 0x88b5)
      (h : cryptoLayer2EncryptFragmentSingle evp P ctx counter p plain n pktId fragIndex outBuf
        outMax = some f) : Layer2Output f.1 f.2

theorem fakeMarker_eq {P : CryptoParams} (h : P.fakeEthertypeIpv4 = 0x88b5) :
    fakeMarker P = neL2MarkerByte := by
  unfold fakeMarker
  rw [h]
  rfl

theorem Layer2Output.marker {frame : Packet} {len : ℕ} (h : Layer2Output frame len) :
    frame 12 = neL2MarkerByte ∧ ethHeaderSize ≤ len := by
  cases h with
  | whole evp P ctx counter len p hns hfake h =>
    obtain ⟨hlen, hframe⟩ := cryptoLayer2Encrypt_frame hns h
    have hmin : ethHeaderSize + 8 ≤ len := hframe.min_le
    rw [hlen, hframe.marker, fakeMarker_eq hfake]
    exact ⟨rfl, by omega⟩
  | fragment evp P ctx counter n pktId outMax p plain outBuf fragIndex f hns hfake h =>
    obtain ⟨hlen, hframe⟩ := cryptoLayer2EncryptFragmentSingle_frame hns h
    rw [hlen, hframe.marker, fakeMarker_eq hfake, l2FragEncStartOffset]
    exact ⟨rfl, by omega⟩

/-- **The filter.** The frames of the layer-2 encoders are redirected exactly if the entry is not
zero: an ethertype with the marker in its first byte is none of those that are looked for before. -/
theorem Layer2Output.redirect_iff {frame : Packet} {len : ℕ} (h : Layer2Output frame len)
    {fake4 : UInt16} : xdpWanRedirectProg fake4 frame len = .redirect ↔ fake4 ≠ 0 := by
  obtain ⟨hmarker, hlen⟩ := h.marker
  have hval : (frame 12).toNat = 0x88 := by rw [hmarker]; rfl
  have htype : frame.be16 12 = 0x88 * 256 + (frame 13).toNat := by
    unfold Buffer.be16
    rw [hval]
  unfold xdpWanRedirectProg
  rw [if_neg (by omega), if_neg (by omega), if_neg (by omega)]
  have hipv6 : ¬ frame.be16 12 = 0x86dd := by
    have := (frame 13).toNat_lt
    omega
  rw [if_neg hipv6]
  split_ifs with hif
  · exact iff_of_true rfl hif.1
  · refine iff_of_false (fun h => by cases h) fun hne => hif ⟨hne, hmarker⟩

/-! ## Starting and reloading -/

/-- The forwarder, and `wan_config_map[0]` of every WAN interface. -/
structure WanFilter where
  fwd : Forwarder
  wanConfigMap : ℕ → UInt16

/-- What `interface_init_wan_rx` leaves in the map, which is loaded with zeros.  `updated` says
whether the map was found and `bpf_map_update_elem` returned `0`. -/
def interfaceInitWanRx (updated : Bool) (fakeEthertypeIpv4 : UInt16) : UInt16 :=
  if fakeEthertypeIpv4 ≠ 0 ∧ updated = true then fakeEthertypeIpv4 else 0

/-- What `forwarder_init` meets: the time, the result of `packet_crypto_init` for the base context,
the cipher contexts that can be made, and the maps that can be updated. -/
structure InitEnv where
  now : ℕ
  baseOk : Bool
  getCtx : ℕ → Bool
  mapUpdated : ℕ → Bool

section

variable (hmac : Hmac)

/-- `has_encrypt_l2` of `forwarder_init`. -/
def initHasEncryptL2 (env : InitEnv) (s : GraceState) (cfg : AppConfig) : Bool :=
  cfg.cryptoEnabled &&
    (rebuildCryptoRuntime hmac env.getCtx s.fwd.runtime cfg.policies).hasEncryptL2

/-- The fake ethertype has a default. -/
def setDefaultFakeEthertype (hasEncryptL2 : Bool) (cfg : AppConfig) : AppConfig :=
  if hasEncryptL2 = true ∧ cfg.fakeEthertypeIpv4 = 0 then { cfg with fakeEthertypeIpv4 := 0x88b5 }
  else cfg

/-- `forwarder_init` in a process whose tables are those of `s`, `none` for `-1`.  Sockets, address
caches and the learning of addresses are left out. -/
def forwarderInit (env : InitEnv) (s : GraceState) (cfg : AppConfig) : Option WanFilter :=
  if cfg.cryptoEnabled = true ∧ env.baseOk = false then none
  else
    let hasEncryptL2 := initHasEncryptL2 hmac env s cfg
    let fwd := (initPolicyTables hmac env.getCtx s cfg env.now env.baseOk).fwd
    let cfg := setDefaultFakeEthertype hasEncryptL2 fwd.cfg
    let fake := if hasEncryptL2 then cfg.fakeEthertypeIpv4 else fwd.params.fakeEthertypeIpv4
    let wanFake4 := if fwd.cryptoEnabled && hasEncryptL2 then cfg.fakeEthertypeIpv4 else 0
    some
      { fwd :=
          { fwd with
            cfg := cfg
            wanCount := cfg.wans.length
            pins := ChainTable.empty
            params := { fwd.params with fakeEthertypeIpv4 := fake } }
        wanConfigMap := fun i =>
          if i < cfg.wans.length then interfaceInitWanRx (env.mapUpdated i) wanFake4 else 0 }

/-- A call of `forwarder_reload_config`, with the cipher contexts that can be made. -/
structure ReloadCall where
  cfg : AppConfig
  getCtx : ℕ → Bool

/-- `forwarder_reload_config` pushes the filters of the LAN side; no map of the WAN side is
written. -/
def reloadStep (s : WanFilter) (a : ReloadCall) : Option WanFilter :=
  (forwarderReloadConfig hmac a.getCtx s.fwd a.cfg).map fun fwd => { s with fwd := fwd }

end

/-- Crypto is on, and the active configuration has a layer-2 policy that is ready. -/
def WanFilter.L2Active (s : WanFilter) : Prop :=
  s.fwd.cryptoEnabled = true ∧ ∃ pi cp, s.fwd.cfg.policies[pi]? = some cp ∧
    cp.action = actionEncryptL2 ∧ s.fwd.runtime.ready pi = true

/-- With a layer-2 policy every WAN interface has its entry, and redirects the layer-2 frames. -/
def WanFilter.KeepsUp (s : WanFilter) : Prop :=
  s.L2Active → ∀ i < s.fwd.wanCount, s.wanConfigMap i ≠ 0 ∧
    ∀ frame len, Layer2Output frame len →
      xdpWanRedirectProg (s.wanConfigMap i) frame len = .redirect

/-- `forwarder_init` finds a layer-2 policy that gets a context. -/
def StartsWithL2 (env : InitEnv) (s : GraceState) (cfg : AppConfig) : Prop :=
  cfg.cryptoEnabled = true ∧ GetsL2Ctx env.getCtx s.fwd.runtime cfg.policies

/-- The reload brings a layer-2 policy that gets a context: crypto is on, its settings or policies
are not those of the running configuration, and such a policy is among them. -/
def BringsL2 (s : WanFilter) (a : ReloadCall) : Prop :=
  a.cfg.cryptoEnabled = true ∧ cryptoRuntimeChanged s.fwd.cfg a.cfg ∧
    GetsL2Ctx a.getCtx s.fwd.runtime a.cfg.policies

/-- The switch is that of the configuration, and while crypto is on only places of the policy table
are ready. -/
structure WanFilter.Settled (s : WanFilter) : Prop where
  switch : s.fwd.cryptoEnabled = s.fwd.cfg.cryptoEnabled
  ready_lt : s.fwd.cryptoEnabled = true →
    ∀ pi, s.fwd.runtime.ready pi = true → pi < maxCryptoPolicies

section

variable {hmac : Hmac} {env : InitEnv} {s₀ : GraceState} {s s' t : WanFilter} {a : ReloadCall}
  {cfg : AppConfig} {reloads : List ReloadCall}

theorem WanFilter.keepsUp_iff_of_entry (h : ∃ i < s.fwd.wanCount, s.wanConfigMap i = 0) :
    s.KeepsUp ↔ ¬ s.L2Active := by
  obtain ⟨i, hi, hzero⟩ := h
  exact ⟨fun hkeeps hactive => (hkeeps hactive i hi).1 hzero, fun h hactive => absurd hactive h⟩

theorem WanFilter.keepsUp_of_entries (h : ∀ i < s.fwd.wanCount, s.wanConfigMap i ≠ 0) :
    s.KeepsUp :=
  fun _ i hi => ⟨h i hi, fun _ _ hframe => hframe.redirect_iff.mpr (h i hi)⟩

/-! ## The tables after a rebuild -/

theorem rebuildCryptoRuntime_ready_lt {getCtx : ℕ → Bool} {old : PolicyRuntime}
    {policies : List CryptoPolicy} {pi : ℕ}
    (h : (rebuildCryptoRuntime hmac getCtx old policies).runtime.ready pi = true) :
    pi < maxCryptoPolicies := by
  obtain ⟨cp, hcp, -⟩ := rebuildCryptoRuntime_ready_iff.mp h
  have := (List.getElem?_eq_some_iff.mp hcp).1
  rw [List.length_take] at this
  omega

theorem exists_readyL2_iff {getCtx : ℕ → Bool} {old : PolicyRuntime}
    {policies : List CryptoPolicy} :
    (∃ pi cp, policies[pi]? = some cp ∧ cp.action = actionEncryptL2 ∧
        (rebuildCryptoRuntime hmac getCtx old policies).runtime.ready pi = true) ↔
      GetsL2Ctx getCtx old policies := by
  constructor
  · rintro ⟨pi, cp, hcp, hl2, hready⟩
    obtain ⟨cp', hcp', hget⟩ := rebuildCryptoRuntime_ready_iff.mp hready
    have hlt := rebuildCryptoRuntime_ready_lt hready
    have hsame : (policies.take maxCryptoPolicies)[pi]? = policies[pi]? :=
      List.getElem?_take_of_lt hlt
    obtain rfl : cp = cp' := Option.some.inj (hcp.symm.trans (hsame.symm.trans hcp'))
    exact ⟨pi, cp, hcp', hl2, hget⟩
  · rintro ⟨pi, cp, hcp, hl2, hget⟩
    have hlt := (List.getElem?_eq_some_iff.mp hcp).1
    rw [List.length_take] at hlt
    have hsame : (policies.take maxCryptoPolicies)[pi]? = policies[pi]? :=
      List.getElem?_take_of_lt (by omega)
    exact ⟨pi, cp, hsame.symm.trans hcp, hl2,
      rebuildCryptoRuntime_ready_iff.mpr ⟨cp, hcp, hget⟩⟩

/-! ## One step -/

theorem initHasEncryptL2_iff :
    initHasEncryptL2 hmac env s₀ cfg = true ↔ StartsWithL2 env s₀ cfg := by
  rw [initHasEncryptL2, Bool.and_eq_true_iff, rebuildCryptoRuntime_hasEncryptL2_iff]
  rfl

theorem setDefaultFakeEthertype_spec {hasEncryptL2 : Bool} :
    let cfg' := setDefaultFakeEthertype hasEncryptL2 cfg
    (hasEncryptL2 = true → cfg'.fakeEthertypeIpv4 ≠ 0) ∧ cfg'.wans = cfg.wans ∧
      cfg'.policies = cfg.policies ∧ cfg'.cryptoEnabled = cfg.cryptoEnabled := by
  simp only [setDefaultFakeEthertype]
  split_ifs with hzero
  · have hdefault : (0x88b5 : UInt16) ≠ 0 := by decide
    exact ⟨fun _ => hdefault, rfl, rfl, rfl⟩
  · exact ⟨fun hl2 hfake => hzero ⟨hl2, hfake⟩, rfl, rfl, rfl⟩

theorem interfaceInitWanRx_ne_zero {updated : Bool} {fake : UInt16} :
    interfaceInitWanRx updated fake ≠ 0 ↔ fake ≠ 0 ∧ updated = true := by
  unfold interfaceInitWanRx
  split_ifs with hif
  · exact iff_of_true hif.1 hif
  · exact iff_of_false (fun h => h rfl) hif

theorem initPolicyTables_fwd (hbase : ¬ (cfg.cryptoEnabled = true ∧ env.baseOk = false)) :
    let fwd := (initPolicyTables hmac env.getCtx s₀ cfg env.now env.baseOk).fwd
    fwd.cfg = setQueueCounts cfg ∧ fwd.cryptoEnabled = cfg.cryptoEnabled ∧
      (cfg.cryptoEnabled = true → fwd.runtime =
        (rebuildCryptoRuntime hmac env.getCtx s₀.fwd.runtime cfg.policies).runtime) := by
  have hcfg : (setQueueCounts cfg).cryptoEnabled = cfg.cryptoEnabled := rfl
  simp only [initPolicyTables, snapshotPolicies, hcfg]
  by_cases hon : cfg.cryptoEnabled = true
  · have hbase' : ¬ env.baseOk = false := fun hb => hbase ⟨hon, hb⟩
    rw [if_neg (by rw [hon]; exact Bool.noConfusion), if_neg hbase']
    split_ifs <;> exact ⟨rfl, rfl, fun _ => rfl⟩
  · rw [if_pos (Bool.not_eq_true _ ▸ hon)]
    exact ⟨rfl, rfl, fun hon' => absurd hon' hon⟩

/-- **The start.** The entries that it writes, and whether it leaves a layer-2 policy. -/
theorem forwarderInit_spec (h : forwarderInit hmac env s₀ cfg = some s) :
    s.Settled ∧ s.fwd.wanCount = cfg.wans.length ∧
      (s.L2Active ↔ StartsWithL2 env s₀ cfg) ∧
      ∀ i < cfg.wans.length,
        s.wanConfigMap i ≠ 0 ↔ StartsWithL2 env s₀ cfg ∧ env.mapUpdated i = true := by
  by_cases hbase : cfg.cryptoEnabled = true ∧ env.baseOk = false
  · rw [forwarderInit, if_pos hbase] at h
    cases h
  simp only [forwarderInit, if_neg hbase] at h
  obtain ⟨hcfg, hon, htables⟩ := @initPolicyTables_fwd hmac env s₀ cfg hbase
  have hl2 := @initHasEncryptL2_iff hmac env s₀ cfg
  generalize (initPolicyTables hmac env.getCtx s₀ cfg env.now env.baseOk).fwd = fwd at *
  generalize initHasEncryptL2 hmac env s₀ cfg = hasL2 at *
  obtain ⟨hfake, hwans, hpolicies, hswitch⟩ :=
    @setDefaultFakeEthertype_spec (setQueueCounts cfg) hasL2
  rw [hcfg] at h
  generalize setDefaultFakeEthertype hasL2 (setQueueCounts cfg) = cfg' at *
  have hlen : cfg'.wans.length = cfg.wans.length := by
    rw [hwans]
    exact List.length_map _
  obtain rfl := (Option.some.inj h).symm
  refine ⟨⟨hon.trans hswitch.symm, fun hon' pi hready => ?_⟩, hlen, ?_, fun i hi => ?_⟩
  · rw [htables (hon.symm.trans hon')] at hready
    exact rebuildCryptoRuntime_ready_lt hready
  · show fwd.cryptoEnabled = true ∧ (∃ pi cp, cfg'.policies[pi]? = some cp ∧ _ ∧
      fwd.runtime.ready pi = true) ↔ _
    rw [hon, hpolicies]
    refine and_congr_right fun hon' => ?_
    rw [htables hon']
    exact exists_readyL2_iff
  · show (if i < cfg'.wans.length then _ else (0 : UInt16)) ≠ 0 ↔ _
    rw [if_pos (by rwa [hlen]), interfaceInitWanRx_ne_zero, ← hl2, hon]
    refine and_congr_left fun _ => ?_
    cases hasL2 with
    | false => simp
    | true =>
      have hon' : cfg.cryptoEnabled = true := (hl2.mp rfl).1
      rw [hon', Bool.and_self, if_pos rfl]
      exact iff_of_true (hfake rfl) rfl

theorem l2Active_of_not_cryptoRuntimeChanged (fwd : Forwarder) (map : ℕ → UInt16) (hs : s.Settled)
    (hsame : ¬ cryptoRuntimeChanged s.fwd.cfg cfg)
    (hcfg : fwd.cfg = cfg ∨ fwd.cfg = setQueueCounts cfg)
    (hon : fwd.cryptoEnabled = cfg.cryptoEnabled) (hruntime : fwd.runtime = s.fwd.runtime) :
    (WanFilter.mk fwd map).Settled ∧ ((WanFilter.mk fwd map).L2Active ↔ s.L2Active) := by
  obtain ⟨hswitch, htake⟩ := policies_of_not_cryptoRuntimeChanged hsame
  have hfields : fwd.cfg.cryptoEnabled = cfg.cryptoEnabled ∧ fwd.cfg.policies = cfg.policies := by
    rcases hcfg with hcfg | hcfg <;> rw [hcfg] <;> exact ⟨rfl, rfl⟩
  have hon' : fwd.cryptoEnabled = s.fwd.cryptoEnabled := by rw [hon, hs.switch, hswitch]
  refine ⟨⟨hon.trans hfields.1.symm, fun h pi hready => ?_⟩, ?_⟩
  · exact hs.ready_lt (hon'.symm.trans h) pi (hruntime ▸ hready)
  · unfold WanFilter.L2Active
    simp only [hon', hruntime, hfields.2]
    refine and_congr_right fun h => exists_congr fun pi => exists_congr fun cp => ?_
    rw [← and_assoc, ← and_assoc]
    refine and_congr_left fun hready => ?_
    have hlt := hs.ready_lt h pi hready
    rw [← List.getElem?_take_of_lt hlt, htake, List.getElem?_take_of_lt hlt]

/-- **A reload.** The entries stay, and a layer-2 policy is active after it if the reload brings one
or leaves one in place. -/
theorem reloadStep_spec (hs : s.Settled) (h : reloadStep hmac s a = some s') :
    s'.Settled ∧ s'.fwd.wanCount = s.fwd.wanCount ∧ s'.wanConfigMap = s.wanConfigMap ∧
      (s'.L2Active ↔ BringsL2 s a ∨ ¬ cryptoRuntimeChanged s.fwd.cfg a.cfg ∧ s.L2Active) := by
  obtain ⟨fwd, hfwd, rfl⟩ := Option.map_eq_some_iff.mp h
  have htop : sameTopology s.fwd.cfg a.cfg := (forwarderReloadConfig_eq_some hfwd).1
  simp only [forwarderReloadConfig, if_neg (not_not.mpr htop)] at hfwd
  by_cases hchanged : cryptoRuntimeChanged s.fwd.cfg a.cfg
  · simp only [hchanged, not_true, false_and, if_false, and_true] at hfwd
    by_cases hon : a.cfg.cryptoEnabled = true
    · rw [if_pos (show (setQueueCounts a.cfg).cryptoEnabled = true from hon)] at hfwd
      obtain rfl := (Option.some.inj hfwd).symm
      refine ⟨⟨rfl, fun _ pi hready => rebuildCryptoRuntime_ready_lt hready⟩, rfl, rfl, ?_⟩
      have hiff : BringsL2 s a ↔ GetsL2Ctx a.getCtx s.fwd.runtime a.cfg.policies :=
        ⟨fun h => h.2.2, fun h => ⟨hon, hchanged, h⟩⟩
      rw [or_iff_left fun h => h.1 hchanged, hiff, ← @exists_readyL2_iff hmac]
      exact and_iff_right hon
    · rw [if_neg (show ¬ (setQueueCounts a.cfg).cryptoEnabled = true from hon)] at hfwd
      obtain rfl := (Option.some.inj hfwd).symm
      refine ⟨⟨rfl, fun hon' => absurd hon' hon⟩, rfl, rfl, ?_⟩
      refine iff_of_false (fun h => hon h.1) ?_
      rintro (h | h)
      · exact hon h.1
      · exact h.1 hchanged
  · have hbrings : ¬ BringsL2 s a := fun h => hchanged h.2.1
    rw [or_iff_right hbrings, and_iff_right hchanged]
    simp only [hchanged, not_false_eq_true, true_and, and_false, if_false] at hfwd
    split_ifs at hfwd with hforwarding
    · obtain rfl := (Option.some.inj hfwd).symm
      have hkeep := l2Active_of_not_cryptoRuntimeChanged
        { s.fwd with
          cfg := setQueueCounts a.cfg
          cryptoEnabled := a.cfg.cryptoEnabled
          cryptoLayer := a.cfg.encryptLayer } s.wanConfigMap hs hchanged (.inr rfl) rfl rfl
      exact ⟨hkeep.1, rfl, rfl, hkeep.2⟩
    · obtain rfl := (Option.some.inj hfwd).symm
      have hon := hs.switch.trans (policies_of_not_cryptoRuntimeChanged hchanged).1
      have hkeep := l2Active_of_not_cryptoRuntimeChanged { s.fwd with cfg := a.cfg }
        s.wanConfigMap hs hchanged (.inl rfl) hon rfl
      exact ⟨hkeep.1, rfl, rfl, hkeep.2⟩

/-! ## Runs -/

/-- **The filter and layer-2 policies.** In a run of reloads the filter keeps up exactly if the start
has written the entries of all WAN interfaces, or neither the start nor a reload brings a layer-2
policy. -/
theorem keepsUp_iff (hinit : forwarderInit hmac env s₀ cfg = some s)
    (hrun : Runs.run (reloadStep hmac) s reloads = some t) :
    Runs.Always (reloadStep hmac) WanFilter.KeepsUp s reloads ↔
      (∀ i < cfg.wans.length, StartsWithL2 env s₀ cfg ∧ env.mapUpdated i = true) ∨
        ¬ StartsWithL2 env s₀ cfg ∧
          Runs.StepsMeet (reloadStep hmac) (fun s a => ¬ BringsL2 s a) s reloads := by
  obtain ⟨hsettled, hcount, hactive, hentries⟩ := forwarderInit_spec hinit
  by_cases hall : ∀ i < cfg.wans.length, StartsWithL2 env s₀ cfg ∧ env.mapUpdated i = true
  · refine iff_of_true ?_ (.inl hall)
    let I : WanFilter → Prop := fun s' => s'.Settled ∧ s'.fwd.wanCount = s.fwd.wanCount ∧
      s'.wanConfigMap = s.wanConfigMap
    refine Runs.always_of_invariant (I := I) (fun s₁ a s₂ hs₁ hstep => ?_) (fun s₁ hs₁ => ?_)
      ⟨hsettled, rfl, rfl⟩
    · obtain ⟨hs₂, hcount₂, hmap₂, -⟩ := reloadStep_spec hs₁.1 hstep
      exact ⟨hs₂, hcount₂.trans hs₁.2.1, hmap₂.trans hs₁.2.2⟩
    · refine WanFilter.keepsUp_of_entries fun i hi => ?_
      rw [hs₁.2.1, hcount] at hi
      rw [hs₁.2.2]
      exact (hentries i hi).mpr (hall i hi)
  · rw [or_iff_right hall]
    push Not at hall
    obtain ⟨i, hi, hnot⟩ := hall
    let I : WanFilter → Prop := fun s' => s'.Settled ∧ ∃ i < s'.fwd.wanCount, s'.wanConfigMap i = 0
    have hI : I s := by
      refine ⟨hsettled, i, by rwa [hcount], ?_⟩
      by_contra hne
      obtain ⟨hstart, hup⟩ := (hentries i hi).mp hne
      exact hnot hstart hup
    have hstep : ∀ s₁ a s₂, I s₁ → s₁.KeepsUp → reloadStep hmac s₁ a = some s₂ →
        I s₂ ∧ (s₂.KeepsUp ↔ ¬ BringsL2 s₁ a) := by
      rintro s₁ a s₂ ⟨hs₁, hzero₁⟩ hkeeps h₂
      obtain ⟨hs₂, hcount₂, hmap₂, hiff⟩ := reloadStep_spec hs₁ h₂
      have hzero₂ : ∃ i < s₂.fwd.wanCount, s₂.wanConfigMap i = 0 := by rwa [hcount₂, hmap₂]
      have hoff : ¬ s₁.L2Active := (WanFilter.keepsUp_iff_of_entry hzero₁).mp hkeeps
      refine ⟨⟨hs₂, hzero₂⟩, ?_⟩
      rw [WanFilter.keepsUp_iff_of_entry hzero₂, hiff, or_iff_left fun h => hoff h.2]
    by_cases hstart : StartsWithL2 env s₀ cfg
    · refine iff_of_false (fun h => ?_) fun h => h.1 hstart
      exact (WanFilter.keepsUp_iff_of_entry hI.2).mp h.start (hactive.mpr hstart)
    · have hkeeps : s.KeepsUp :=
        (WanFilter.keepsUp_iff_of_entry hI.2).mpr fun h => hstart (hactive.mp h)
      rw [Runs.always_iff_stepsMeet hstep hI hkeeps hrun]
      exact (and_iff_right hstart).symm

end

/-! ## The first layer-2 policy comes with a reload -/

/-- The configuration of the sample, with its policy at layer 2. -/
def l2Reload : ReloadCall where
  cfg :=
    { sampleL3Config (Key.repeated 1) with
      policies := [{ samplePolicy actionEncryptL2 with key := Key.repeated 1 }] }
  getCtx _ := true

def sampleInitEnv : InitEnv where
  now := 1000
  baseOk := true
  getCtx _ := true
  mapUpdated _ := true

/-- The acknowledgement, encrypted at layer 2. -/
def ackFrameL2 : ℤ × Packet :=
  cryptoLayer2Encrypt (sampleEvp sampleKeystream) (sampleParams .ctr) (sampleCtx Key.zero) 0 ackFrame 54

theorem layer2Output_ackFrameL2 : Layer2Output ackFrameL2.2 ackFrameL2.1.toNat :=
  .whole _ _ _ _ _ _ (by decide) rfl (by decide)

theorem keepsUp_startedWithL2 :
    ∃ s t, forwarderInit (fun _ _ => Key.zero) sampleInitEnv GraceState.start l2Reload.cfg = some s ∧
      Runs.run (reloadStep fun _ _ => Key.zero) s [l2Reload] = some t ∧
      Runs.Always (reloadStep fun _ _ => Key.zero) WanFilter.KeepsUp s [l2Reload] := by
  have hstart : StartsWithL2 sampleInitEnv GraceState.start l2Reload.cfg :=
    ⟨rfl, 0, _, rfl, rfl, by decide, .inr rfl⟩
  refine ⟨_, _, rfl, rfl, ?_⟩
  exact (@keepsUp_iff _ sampleInitEnv GraceState.start _ _ l2Reload.cfg _ rfl rfl).mpr
    (.inl fun i _ => ⟨hstart, rfl⟩)

/-- A process that starts with a layer-3 policy and gets the layer-2 policy by a reload leaves its
frames to the kernel. -/
theorem not_keepsUp_l2Reload :
    ∃ s t, forwarderInit (fun _ _ => Key.zero) sampleInitEnv GraceState.start
        (sampleL3Config (Key.repeated 1)) = some s ∧
      Runs.run (reloadStep fun _ _ => Key.zero) s [l2Reload] = some t ∧
      t.L2Active ∧ t.fwd.wanCount = 1 ∧ t.wanConfigMap 0 = 0 ∧
      xdpWanRedirectProg (t.wanConfigMap 0) ackFrameL2.2 ackFrameL2.1.toNat = .pass ∧
      ¬ Runs.Always (reloadStep fun _ _ => Key.zero) WanFilter.KeepsUp s [l2Reload] := by
  have hactive : ∀ t : WanFilter, t.fwd.cryptoEnabled = true →
      t.fwd.cfg.policies[0]? = some { samplePolicy actionEncryptL2 with key := Key.repeated 1 } →
      t.fwd.runtime.ready 0 = true → t.L2Active := fun t hon hcp hready => ⟨hon, 0, _, hcp, rfl, hready⟩
  refine ⟨_, _, rfl, rfl, hactive _ rfl rfl rfl, rfl, rfl, ?_, fun h => ?_⟩
  · cases hpass : xdpWanRedirectProg 0 ackFrameL2.2 ackFrameL2.1.toNat with
    | pass => exact hpass
    | redirect => exact absurd rfl (layer2Output_ackFrameL2.redirect_iff.mp hpass)
  · have hkeeps := h [l2Reload] [] _ rfl rfl
    exact (hkeeps (hactive _ rfl rfl rfl) 0 Nat.one_pos).1 rfl

end NetEncryptor

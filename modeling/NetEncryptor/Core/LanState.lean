import NetEncryptor.Core.Worker

/-!
# What is learned about the LAN

Before the forwarder runs, it fills in what the database does not have: in bridge mode
`bridge_mac_prepare` learns the address of the peer behind every LAN interface, otherwise
`local_config_fill_ipv4_from_iface` reads the interface's IPv4 address and netmask.  A frame from
the WAN goes to the LAN interface that `forwarder_rx_pick_local` finds by these fields.
-/

namespace NetEncryptor

/-! ## Addresses -/

def macIsZero (mac : Mac) : Bool := mac.val.all (· == 0)

def macIsBroadcast (mac : Mac) : Bool := mac.val.all (· == 0xff)

def macIsMulticast (mac : Mac) : Bool := mac.val.headD 0 &&& 0x01 != 0

def macIsValidPeer (mac : Mac) : Bool :=
  !macIsZero mac && !macIsBroadcast mac && !macIsMulticast mac

theorem macIsZero_iff {mac : Mac} : macIsZero mac = true ↔ mac = Mac.zero := by
  unfold macIsZero Mac.zero
  rw [List.all_eq_true, Subtype.ext_iff, List.eq_replicate_iff]
  simp [mac.property]

theorem macIsZero_of_validPeer {mac : Mac} (h : macIsValidPeer mac = true) :
    macIsZero mac = false := by
  unfold macIsValidPeer at h
  simp only [Bool.and_eq_true, Bool.not_eq_true'] at h
  exact h.1.1

/-- A WAN without a peer address makes a bridge. -/
def configWanBridgeMode (cfg : AppConfig) : Bool := cfg.wans.any fun wan => wan.dstIp == 0

/-! ## Learning -/

/-- `none` stands for `-1`. -/
def macSetPeer (cfg : AppConfig) (li : ℕ) (mac : Mac) : Option AppConfig :=
  if li < cfg.locals.length ∧ macIsValidPeer mac = true then
    some { cfg with locals := cfg.locals.modify li fun loc => { loc with dstMac := mac } }
  else none

/-- `mac_load_from_file` and `mac_load_from_preload_env`: the entries are the lines that name an
interface and an address. -/
def macLoad (cfg : AppConfig) (entries : List (ℕ × Mac)) : AppConfig :=
  entries.foldl (fun cfg e => (macSetPeer cfg e.1 e.2).getD cfg) cfg

/-- Wait for traffic of a peer that is not known yet, from interface `li` on.  `firstPacket` is
what `mac_wait_first_packet` returned for an interface. -/
def macLearn (firstPacket : ℕ → Option Mac) : ℕ → ℕ → AppConfig → Option AppConfig
  | 0, _, cfg => some cfg
  | n + 1, li, cfg =>
    match cfg.locals[li]? with
    | none => some cfg
    | some loc =>
      if macIsZero loc.dstMac = false then macLearn firstPacket n (li + 1) cfg
      else
        match firstPacket li with
        | none => none
        | some mac =>
          match macSetPeer cfg li mac with
          | none => none
          | some cfg => macLearn firstPacket n (li + 1) cfg

/-- `bridge_mac_prepare` in a process that has not learned yet; the interfaces' own addresses and
the file that is saved are left out. -/
def bridgeMacPrepare (saved : List (ℕ × Mac)) (firstPacket : ℕ → Option Mac) (cfg : AppConfig) :
    Option AppConfig :=
  macLearn firstPacket cfg.locals.length 0 (macLoad cfg saved)

/-- `ifAddr` and `ifNetmask` are what the interface answered. -/
def localConfigFillIpv4FromIface (loc : LocalConfig) (ifAddr ifNetmask : Option UInt32) :
    LocalConfig :=
  match ifAddr with
  | none => loc
  | some ip =>
    let netmask := ifNetmask.getD 0xffffffff
    { loc with ip := ip, netmask := netmask, network := ip &&& netmask }

/-! ## The pick -/

def etherDhost (pkt : Packet) : Mac := ⟨pkt.slice 0 6, by simp [Buffer.slice]⟩

/-- `fakeEthertypeIpv4` is what `packet_crypto_get_fake_ethertype_ipv4` returned. -/
def bridgeWanRxNormalizeEthIpv4 (fakeEthertypeIpv4 : UInt16) (pkt : Packet) (pktLen : ℕ) : Packet :=
  let ihl := ihlAt pkt ethHeaderSize
  let tot := pkt.be16 (ethHeaderSize + 2)
  let fake4 := if fakeEthertypeIpv4 = 0 then 0x88b5 else fakeEthertypeIpv4
  if pktLen < 14 + 20 then pkt
  else if pkt.be16 12 = 0x0800 ∨ pkt.be16 12 = 0x8100 then pkt
  else if (pkt ethHeaderSize).toNat / 16 ≠ 4 ∨ ihl < 20 ∨ pktLen < 14 + ihl then pkt
  else if tot < ihl ∨ pktLen < 14 + tot then pkt
  else if ¬ neRxIpv4HeaderCsumOk (pkt.shift ethHeaderSize) ihl then pkt
  else if pkt 12 ≠ (fake4 >>> 8).toUInt8 then pkt
  else pkt.put16 12 0x0800

/-- The interface whose peer has an address; `none` stands for `-1`. -/
def localForMac (locals : List LocalConfig) (mac : Mac) : Option ℕ :=
  if macIsValidPeer mac = true then
    locals.findIdx? fun loc => !macIsZero loc.dstMac && mac == loc.dstMac
  else none

/-- `none` stands for `-1`. -/
def bridgeMacLocalForDmac (cfg : AppConfig) (pkt : Packet) (pktLen : ℕ) : Option ℕ :=
  if pktLen < 14 then none else localForMac cfg.locals (etherDhost pkt)

/-- The interface, `none` for `-1`, and the frame that is left. -/
def forwarderRxPickLocal (fwd : Forwarder) (pkt : Packet) (pktLen : ℕ) (destIp : UInt32) :
    Option ℕ × Packet :=
  if configWanBridgeMode fwd.cfg = true then
    let pkt := bridgeWanRxNormalizeEthIpv4 fwd.params.fakeEthertypeIpv4 pkt pktLen
    (bridgeMacLocalForDmac fwd.cfg pkt pktLen, pkt)
  else if destIp = 0 then (none, pkt)
  else (configFindLocalForIp fwd.cfg destIp, pkt)

/-! ## Properties -/

theorem bridgeWanRxNormalizeEthIpv4_eq (fake : UInt16) (pkt : Packet) (pktLen : ℕ) :
    bridgeWanRxNormalizeEthIpv4 fake pkt pktLen = pkt ∨
      bridgeWanRxNormalizeEthIpv4 fake pkt pktLen = pkt.put16 12 0x0800 := by
  simp only [bridgeWanRxNormalizeEthIpv4]
  repeat' split
  all_goals first | exact .inl rfl | exact .inr rfl

theorem etherDhost_normalize (fake : UInt16) (pkt : Packet) (pktLen : ℕ) :
    etherDhost (bridgeWanRxNormalizeEthIpv4 fake pkt pktLen) = etherDhost pkt := by
  rcases bridgeWanRxNormalizeEthIpv4_eq fake pkt pktLen with h | h
  · rw [h]
  · rw [h]
    exact Subtype.ext (Buffer.slice_congr fun j _ hj => Buffer.put16_of_ne (by omega) (by omega))

theorem forwarderRxPickLocal_bridge {fwd : Forwarder} (h : configWanBridgeMode fwd.cfg = true)
    (pkt : Packet) (pktLen : ℕ) (destIp : UInt32) :
    (forwarderRxPickLocal fwd pkt pktLen destIp).1 =
      if pktLen < 14 then none else localForMac fwd.cfg.locals (etherDhost pkt) := by
  rw [forwarderRxPickLocal, if_pos h]
  simp only [bridgeMacLocalForDmac, etherDhost_normalize]

theorem forwarderRxPickLocal_ip {fwd : Forwarder} (h : ¬ configWanBridgeMode fwd.cfg = true)
    (pkt : Packet) (pktLen : ℕ) (destIp : UInt32) :
    (forwarderRxPickLocal fwd pkt pktLen destIp).1 =
      if destIp = 0 then none else configFindLocalForIp fwd.cfg destIp := by
  rw [forwarderRxPickLocal, if_neg h]
  split_ifs <;> rfl

/-- **A peer is found** exactly if its address is that of an interface's peer. -/
theorem localForMac_eq_none {locals : List LocalConfig} {mac : Mac} :
    localForMac locals mac = none ↔
      (macIsValidPeer mac = true → ∀ loc ∈ locals, loc.dstMac ≠ mac) := by
  unfold localForMac
  by_cases hvalid : macIsValidPeer mac = true
  · rw [if_pos hvalid, List.findIdx?_eq_none_iff]
    have hzero := macIsZero_of_validPeer hvalid
    refine ⟨fun h _ loc hloc heq => ?_, fun h loc hloc => ?_⟩
    · have := h loc hloc
      simp [heq, hzero] at this
    · have hne : (mac == loc.dstMac) = false := beq_eq_false_iff_ne.mpr (h hvalid loc hloc).symm
      rw [hne, Bool.and_false]
  · simp [hvalid]

theorem localForMac_none_iff {locals : List LocalConfig} :
    (∀ mac, localForMac locals mac = none) ↔ ∀ loc ∈ locals, macIsValidPeer loc.dstMac = false := by
  refine ⟨fun h loc hloc => ?_, fun h mac => localForMac_eq_none.mpr fun hvalid loc hloc heq => ?_⟩
  · by_contra hvalid
    exact localForMac_eq_none.mp (h loc.dstMac) (by simpa using hvalid) loc hloc rfl
  · rw [← heq, h loc hloc] at hvalid
    cases hvalid

def PeersKnown (cfg : AppConfig) (n : ℕ) : Prop :=
  ∀ i loc, i < n → cfg.locals[i]? = some loc → macIsZero loc.dstMac = false

/-- A peer address is a valid one or zero. -/
def PeersValid (cfg : AppConfig) : Prop :=
  ∀ loc ∈ cfg.locals, macIsValidPeer loc.dstMac = true ∨ macIsZero loc.dstMac = true

theorem macSetPeer_spec {cfg cfg' : AppConfig} {li : ℕ} {mac : Mac}
    (h : macSetPeer cfg li mac = some cfg') :
    macIsValidPeer mac = true ∧ li < cfg.locals.length ∧
      cfg'.locals = cfg.locals.modify li fun loc => { loc with dstMac := mac } := by
  unfold macSetPeer at h
  split_ifs at h with hset
  cases h
  exact ⟨hset.2, hset.1, rfl⟩

theorem macSetPeer_valid {cfg cfg' : AppConfig} {li : ℕ} {mac : Mac} (hcfg : PeersValid cfg)
    (h : macSetPeer cfg li mac = some cfg') :
    PeersValid cfg' ∧ cfg'.locals.length = cfg.locals.length := by
  obtain ⟨hvalid, -, hlocals⟩ := macSetPeer_spec h
  refine ⟨fun loc hloc => ?_, by rw [hlocals, List.length_modify]⟩
  rw [hlocals] at hloc
  obtain ⟨i, hi⟩ := List.mem_iff_getElem?.mp hloc
  rw [List.getElem?_modify] at hi
  cases hold : cfg.locals[i]? with
  | none => simp [hold] at hi
  | some old =>
    have hmem : old ∈ cfg.locals := List.mem_of_getElem? hold
    by_cases hli : li = i
    · have : loc = { old with dstMac := mac } := by simpa [hold, hli, eq_comm] using hi
      subst this
      exact .inl hvalid
    · have : loc = old := by simpa [hold, hli, eq_comm] using hi
      subst this
      exact hcfg loc hmem

theorem macLoad_valid {entries : List (ℕ × Mac)} : ∀ {cfg : AppConfig}, PeersValid cfg →
    PeersValid (macLoad cfg entries) ∧
      (macLoad cfg entries).locals.length = cfg.locals.length := by
  induction entries with
  | nil => exact fun h => ⟨h, rfl⟩
  | cons e entries ih =>
    intro cfg hcfg
    rw [macLoad, List.foldl_cons]
    cases hset : macSetPeer cfg e.1 e.2 with
    | none => exact ih hcfg
    | some cfg' =>
      obtain ⟨hvalid, hlen⟩ := macSetPeer_valid hcfg hset
      obtain ⟨hvalid', hlen'⟩ := ih hvalid
      exact ⟨hvalid', hlen'.trans hlen⟩

theorem macLearn_known {firstPacket : ℕ → Option Mac} : ∀ {n li : ℕ} {cfg cfg' : AppConfig},
    PeersValid cfg → PeersKnown cfg li → cfg.locals.length ≤ li + n →
      macLearn firstPacket n li cfg = some cfg' →
        PeersValid cfg' ∧ PeersKnown cfg' cfg'.locals.length := by
  intro n
  induction n with
  | zero =>
    intro li cfg cfg' hvalid hknown hlen h
    cases h
    exact ⟨hvalid, fun i loc hi => hknown i loc (by omega)⟩
  | succ n ih =>
    intro li cfg cfg' hvalid hknown hlen h
    rw [macLearn] at h
    split at h
    · rename_i hnone
      cases h
      have := List.getElem?_eq_none_iff.mp hnone
      exact ⟨hvalid, fun i loc hi => hknown i loc (by omega)⟩
    rename_i loc hloc
    split_ifs at h with hzero
    · refine ih hvalid (fun i loc' hi hloc' => ?_) (by omega) h
      by_cases hil : i = li
      · subst hil
        rw [hloc] at hloc'
        exact Option.some.inj hloc' ▸ hzero
      · exact hknown i loc' (by omega) hloc'
    · split at h
      · cases h
      rename_i mac hmac
      split at h
      · cases h
      rename_i cfg₁ hset
      obtain ⟨hvalid₁, hlen₁⟩ := macSetPeer_valid hvalid hset
      obtain ⟨hpeer, -, hlocals⟩ := macSetPeer_spec hset
      refine ih hvalid₁ (fun i loc' hi hloc' => ?_) (by omega) h
      rw [hlocals, List.getElem?_modify] at hloc'
      by_cases hil : li = i
      · subst hil
        have : loc' = { loc with dstMac := mac } := by simpa [hloc, eq_comm] using hloc'
        subst this
        exact macIsZero_of_validPeer hpeer
      · have hold : cfg.locals[i]? = some loc' := by simpa [hil] using hloc'
        exact hknown i loc' (by omega) hold

/-- **In bridge mode every interface has learned its peer** when the forwarder starts. -/
theorem bridgeMacPrepare_learned {saved : List (ℕ × Mac)} {firstPacket : ℕ → Option Mac}
    {cfg cfg' : AppConfig} (hcfg : PeersValid cfg)
    (h : bridgeMacPrepare saved firstPacket cfg = some cfg') :
    ∀ loc ∈ cfg'.locals, macIsValidPeer loc.dstMac = true := by
  obtain ⟨hvalid, hlen⟩ : PeersValid (macLoad cfg saved) ∧
    (macLoad cfg saved).locals.length = cfg.locals.length := macLoad_valid hcfg
  have hstart : PeersKnown (macLoad cfg saved) 0 := fun i loc hi => absurd hi (by omega)
  obtain ⟨hvalid', hknown⟩ := macLearn_known hvalid hstart (by omega) h
  intro loc hloc
  obtain ⟨i, hi⟩ := List.mem_iff_getElem?.mp hloc
  have hzero := hknown i loc (List.getElem?_eq_some_iff.mp hi).1 hi
  rcases hvalid' loc hloc with hpeer | hz
  · exact hpeer
  · rw [hzero] at hz
    cases hz

end NetEncryptor

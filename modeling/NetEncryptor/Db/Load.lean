import NetEncryptor.Base.IdPool
import NetEncryptor.Core.Config

/-!
# Loading a profile

`config_load_from_db` makes a configuration of the rows that the database has for one profile.  The
rows of a query are a list, in the order of the query, and their texts have been read: a row of
`ne_policies` has the numbers, addresses and port ranges of its lists, and the key that
`ne_fill_policy_key` makes of its key text for the key length of its method.

Every encrypting row gets a wire id.  Rows of one key share an id; the first of them gets its
database id if it can be had, and else the lowest id that is unused.
-/

namespace NetEncryptor

/-! ## Rows -/

/-- An item of `src_ip` or `dst_ip`, with the inversion of its list. -/
structure CidrItem where
  any : Bool
  negate : Bool
  net : UInt32
  mask : UInt32
  deriving DecidableEq

/-- An item of `src_port` or `dst_port`. -/
structure PortItem where
  lo : ℤ
  hi : ℤ
  deriving DecidableEq

/-- A row of `ne_policies`.  A list that is missing or wrong has the one item that means any. -/
structure PolicyRow where
  id : ℤ
  priority : ℤ
  action : ℤ
  protocol : UInt8
  srcItems : List CidrItem
  dstItems : List CidrItem
  srcPortItems : List PortItem
  dstPortItems : List PortItem
  cryptoMode : CryptoMode
  aesBits : AesBits
  /-- `nonce`, if it is not null. -/
  nonce : Option ℤ
  key : Key
  items_ne : srcItems ≠ [] ∧ dstItems ≠ [] ∧ srcPortItems ≠ [] ∧ dstPortItems ≠ []

/-- A row of `ne_wan`; a missing or wrong address is `0`. -/
structure WanRow where
  ifname : String
  dstIp : UInt32
  weight : ℤ
  deriving DecidableEq

/-- What the database has for a profile. -/
structure ProfileRows where
  id : ℤ
  name : String
  /-- The interfaces of `ne_lan`. -/
  lan : List String
  wan : List WanRow
  policies : List PolicyRow

/-! ## Interfaces -/

/-- `strncpy` into `char[n + 1]`, for names in ASCII. -/
def boundedName (n : ℕ) (s : String) : String := String.ofList (s.toList.take n)

/-- `IF_NAMESIZE - 1`. -/
def ifNameLen : ℕ := 15

/-- `sizeof(p->name) - 1`. -/
def profileNameLen : ℕ := 63

def loadLocalRow (cfg : AppConfig) (ifname : String) : LocalConfig where
  ifname := boundedName ifNameLen ifname
  ip := 0
  netmask := 0
  network := 0
  srcMac := Mac.zero
  dstMac := Mac.zero
  umemMb := 2048
  ringSize := 262144
  batchSize := cfg.globalBatchSize
  frameSize := cfg.globalFrameSize
  queueCount := 1

/-- `none` stands for `-1`. -/
def loadLocalRows (cfg : AppConfig) (rows : List String) : Option AppConfig :=
  if rows = [] ∨ maxInterfaces < rows.length ∨ "" ∈ rows then none
  else some { cfg with locals := cfg.locals ++ rows.map (loadLocalRow cfg) }

def loadWanRow (cfg : AppConfig) (row : WanRow) : WanConfig where
  ifname := boundedName ifNameLen row.ifname
  dstIp := row.dstIp
  srcMac := Mac.zero
  dstMac := Mac.zero
  windowSize := 10240 * 1024
  umemMb := 256
  ringSize := 32768
  batchSize := cfg.globalBatchSize
  frameSize := cfg.globalFrameSize
  queueCount := 1

/-- `none` stands for `-1`. -/
def loadWanRows (cfg : AppConfig) (rows : List WanRow) : Option AppConfig :=
  if rows = [] ∨ maxInterfaces < rows.length ∨ (∃ row ∈ rows, row.ifname = "") then none
  else some { cfg with wans := cfg.wans ++ rows.map (loadWanRow cfg) }

/-! ## Wire ids -/

def neKeyWireMapMax : ℕ := 64

/-- `struct ne_key_wire_entry`, if it is valid. -/
structure KeyWireEntry where
  key : List UInt8
  keyLen : ℕ
  wireId : ℕ
  deriving DecidableEq

/-- The valid entries of `key_wire_map`, and `wire_id_used`. -/
structure WireIds where
  map : List KeyWireEntry
  used : Buffer Bool

/-- The id `0` is taken. -/
def WireIds.start : WireIds := ⟨[], fun i => i == 0⟩

/-- `none` stands for `-1`. -/
def allocWirePolicyId (dbRowId : ℤ) (used : Buffer Bool) : Option (ℕ × Buffer Bool) :=
  match IdPool.claim 255 used dbRowId with
  | none => none
  | some id => some (id, used.set id true)

def WireIds.find (w : WireIds) (key : Key) (keyLen : ℕ) : Option KeyWireEntry :=
  w.map.find? fun e => decide (e.keyLen = keyLen ∧ e.key = key.val.take keyLen)

/-- The id of a key, for `key_len > 0`; a new one is recorded as long as there is room. -/
def neWireIdForEncryptKey (w : WireIds) (key : Key) (keyLen : ℕ) (dbPolicyId : ℤ) :
    Option (ℕ × WireIds) :=
  match w.find key keyLen with
  | some e => some (e.wireId, w)
  | none =>
    match allocWirePolicyId dbPolicyId w.used with
    | none => none
    | some (wireId, used) =>
      let map :=
        if w.map.length < neKeyWireMapMax then w.map ++ [⟨key.val.take keyLen, keyLen, wireId⟩]
        else w.map
      some (wireId, ⟨map, used⟩)

/-! ## Policies -/

/-- `cp_base` as both kinds of rows fill it in; the addresses and ports are those of a zeroed
structure. -/
def policyBaseWith (row : PolicyRow) (id : ℤ) (cryptoMode : CryptoMode) (aesBits : AesBits)
    (nonceSize : ℕ) (key : Key) : CryptoPolicy where
  id := id
  dbId := row.id
  priority := row.priority
  action := row.action
  protocol := row.protocol
  srcPortFrom := 0
  srcPortTo := 0
  dstPortFrom := 0
  dstPortTo := 0
  srcAny := false
  dstAny := false
  srcNegate := false
  dstNegate := false
  srcNet := 0
  srcMask := 0
  dstNet := 0
  dstMask := 0
  cryptoMode := cryptoMode
  aesBits := aesBits
  nonceSize := nonceSize
  key := key

/-- The `cp_base` of a row, and the wire ids after it; `none` when there is no free id. -/
def policyBase (w : WireIds) (row : PolicyRow) : Option (CryptoPolicy × WireIds) :=
  if row.action = actionBypass then some (policyBaseWith row 0 .gcm .aes128 12 Key.zero, w)
  else
    let nonceSize := row.nonce.getD 12
    match neWireIdForEncryptKey w row.key row.aesBits.keySize row.id with
    | none => none
    | some (wireId, w) =>
      some (policyBaseWith row wireId row.cryptoMode row.aesBits
        (if nonceSize ≤ 0 then 12 else nonceSize.toNat) row.key, w)

/-- One policy for each choice of addresses and ports. -/
def expandRow (base : CryptoPolicy) (row : PolicyRow) : List CryptoPolicy :=
  row.srcItems.flatMap fun src =>
    row.dstItems.flatMap fun dst =>
      row.srcPortItems.flatMap fun sp =>
        row.dstPortItems.map fun dp =>
          { base with
            srcPortFrom := sp.lo
            srcPortTo := sp.hi
            dstPortFrom := dp.lo
            dstPortTo := dp.hi
            srcAny := src.any
            srcNegate := src.negate
            srcNet := src.net
            srcMask := src.mask
            dstAny := dst.any
            dstNegate := dst.negate
            dstNet := dst.net
            dstMask := dst.mask }

/-- The loop over the rows of `ne_policies`, from the policies that are there; `none` stands for
`-1`. -/
def loadPolicyRows : WireIds → List CryptoPolicy → List PolicyRow → Option (List CryptoPolicy)
  | _, policies, [] => some policies
  | w, policies, row :: rows =>
    match policyBase w row with
    | none => none
    | some (base, w) =>
      let policies := policies ++ expandRow base row
      if maxCryptoPolicies < policies.length then none else loadPolicyRows w policies rows

/-- `none` stands for `-1`. -/
def loadProfilesAndPolicies (cfg : AppConfig) (rows : ProfileRows) : Option AppConfig :=
  let localIndices := rows.lan.filterMap fun ifname =>
    (cfg.locals.findIdx? fun loc => loc.ifname == ifname).map Int.ofNat
  let wanIndices := rows.wan.filterMap fun row =>
    (cfg.wans.findIdx? fun wan => wan.ifname == row.ifname).map fun wi => (Int.ofNat wi, row.weight)
  match loadPolicyRows WireIds.start cfg.policies rows.policies with
  | none => none
  | some policies =>
    let count := policies.length - cfg.policies.length
    let profile : ProfileConfig :=
      { id := rows.id
        name := boundedName profileNameLen rows.name
        enabled := true
        localIndices := localIndices.take maxProfileInterfaces
        wanIndices := wanIndices.take maxProfileInterfaces
        policyIndices := (List.range' cfg.policies.length count).map Int.ofNat }
    some { cfg with profiles := cfg.profiles ++ [profile], policies := policies }

/-! ## The configuration of a profile -/

/-- The crypto settings that follow from the policies. -/
def applyCryptoDerivedFromPolicies (cfg : AppConfig) : AppConfig :=
  let has (action : ℤ) : Bool :=
    (cfg.policies.take maxCryptoPolicies).any fun cp => cp.action == action
  let hasL2 := has actionEncryptL2
  let hasL34 := has actionEncryptL3 || has actionEncryptL4
  let cfg :=
    { cfg with
      cryptoEnabled := hasL2 || hasL34
      encryptLayer := if hasL34 then 3 else if hasL2 then 2 else 0
      fakeProtocol := if hasL34 then 99 else 0
      fakeEthertypeIpv4 := if hasL2 then 0x88b5 else 0
      cryptoMode := .ctr
      aesBits := .aes128
      nonceSize := 12
      cryptoKey := Key.zero }
  match (cfg.policies.take maxCryptoPolicies).find? fun cp =>
      cp.action != actionBypass && cp.key != Key.zero with
  | none => cfg
  | some cp =>
    if cfg.cryptoEnabled then
      { cfg with
        cryptoMode := cp.cryptoMode
        aesBits := cp.aesBits
        nonceSize := if 0 < cp.nonceSize then cp.nonceSize else 12
        cryptoKey := cp.key }
    else cfg

/-- A zeroed configuration with the two global sizes. -/
def AppConfig.start : AppConfig :=
  { AppConfig.empty with globalFrameSize := 4096, globalBatchSize := 64 }

/-- `config_load_from_db` for a profile that the database has. -/
def configLoadFromDb (rows : ProfileRows) : Option AppConfig :=
  match loadLocalRows AppConfig.start rows.lan with
  | none => none
  | some cfg =>
    match loadWanRows cfg rows.wan with
    | none => none
    | some cfg =>
      match loadProfilesAndPolicies cfg rows with
      | none => none
      | some cfg =>
        let cfg := applyCryptoDerivedFromPolicies cfg
        if configValidate cfg then some cfg else none

/-! ## What is loaded -/

section

variable {cfg cfg' : AppConfig} {rows : ProfileRows}

theorem loadProfilesAndPolicies_eq_some (h : loadProfilesAndPolicies cfg rows = some cfg') :
    loadPolicyRows WireIds.start cfg.policies rows.policies = some cfg'.policies ∧
      cfg'.locals = cfg.locals ∧ cfg'.wans = cfg.wans := by
  simp only [loadProfilesAndPolicies] at h
  split at h
  · cases h
  · rename_i policies hload
    obtain rfl := Option.some.inj h
    exact ⟨hload, rfl, rfl⟩

theorem applyCryptoDerivedFromPolicies_frame (cfg : AppConfig) :
    (applyCryptoDerivedFromPolicies cfg).policies = cfg.policies ∧
      (applyCryptoDerivedFromPolicies cfg).locals = cfg.locals := by
  simp only [applyCryptoDerivedFromPolicies]
  split
  · exact ⟨rfl, rfl⟩
  · split_ifs <;> exact ⟨rfl, rfl⟩

/-- **The configuration of a profile** has the policies of its rows, and interfaces of which
nothing but the name is known. -/
theorem configLoadFromDb_eq_some (h : configLoadFromDb rows = some cfg) :
    loadPolicyRows WireIds.start [] rows.policies = some cfg.policies ∧
      cfg.locals = rows.lan.map (loadLocalRow AppConfig.start) ∧ rows.lan ≠ [] := by
  simp only [configLoadFromDb, loadLocalRows, loadWanRows] at h
  split at h
  · cases h
  rename_i c₁ hlocal
  split_ifs at hlocal with hlan
  obtain rfl := Option.some.inj hlocal
  split at h
  · cases h
  rename_i c₂ hwan
  split_ifs at hwan
  obtain rfl := Option.some.inj hwan
  split at h
  · cases h
  rename_i c₃ hprofile
  obtain ⟨hpolicies, hlocals, -⟩ := loadProfilesAndPolicies_eq_some hprofile
  obtain ⟨hpol, hloc⟩ := applyCryptoDerivedFromPolicies_frame c₃
  split_ifs at h
  obtain rfl := Option.some.inj h
  refine ⟨?_, ?_, fun hnil => hlan (.inl hnil)⟩
  · rw [hpol]
    exact hpolicies
  · rw [hloc, hlocals]
    rfl

end

end NetEncryptor

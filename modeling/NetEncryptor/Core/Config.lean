import NetEncryptor.Crypto.PacketCrypto

/-!
# The running configuration

`struct app_config` with its interfaces, profiles and policies, the validation of a configuration
and the choice of profile and policy for a packet.  The arrays with their counts are lists; the
names of the two BPF object files are left out.
-/

namespace NetEncryptor

abbrev Mac := { bytes : List UInt8 // bytes.length = 6 }

def Mac.zero : Mac := ⟨List.replicate 6 0, rfl⟩

def maxInterfaces : ℕ := 16

def maxProfiles : ℕ := 32

def maxProfileInterfaces : ℕ := 16

def maxCryptoPolicies : ℕ := 128

def policyProtoAny : UInt8 := 0

/-! ## Policies -/

/-- `POLICY_ACTION_BYPASS`.  An action is an `int`: one that the database names by a number can
have any value. -/
def actionBypass : ℤ := 0

def actionEncryptL2 : ℤ := 2

def actionEncryptL3 : ℤ := 3

def actionEncryptL4 : ℤ := 4

structure CryptoPolicy where
  id : ℤ
  dbId : ℤ
  priority : ℤ
  action : ℤ
  protocol : UInt8
  srcPortFrom : ℤ
  srcPortTo : ℤ
  dstPortFrom : ℤ
  dstPortTo : ℤ
  srcAny : Bool
  dstAny : Bool
  srcNegate : Bool
  dstNegate : Bool
  srcNet : UInt32
  srcMask : UInt32
  dstNet : UInt32
  dstMask : UInt32
  cryptoMode : CryptoMode
  aesBits : AesBits
  nonceSize : ℕ
  key : Key
  deriving DecidableEq

def CryptoPolicy.Encrypts (cp : CryptoPolicy) : Prop :=
  cp.action = actionEncryptL2 ∨ cp.action = actionEncryptL3 ∨ cp.action = actionEncryptL4

instance (cp : CryptoPolicy) : Decidable cp.Encrypts := inferInstanceAs (Decidable (_ ∨ _))

/-- A policy for every TCP flow, with the default cipher parameters. -/
def samplePolicy (action : ℤ) : CryptoPolicy where
  id := 7
  dbId := 7
  priority := 1
  action := action
  protocol := 6
  srcPortFrom := -1
  srcPortTo := -1
  dstPortFrom := -1
  dstPortTo := -1
  srcAny := true
  dstAny := true
  srcNegate := false
  dstNegate := false
  srcNet := 0
  srcMask := 0
  dstNet := 0
  dstMask := 0
  cryptoMode := .ctr
  aesBits := .aes128
  nonceSize := 12
  key := Key.zero

/-! ## Interfaces and profiles -/

structure ProfileConfig where
  id : ℤ
  name : String
  enabled : Bool
  localIndices : List ℤ
  /-- `wan_indices` with `wan_bandwidth_weight`. -/
  wanIndices : List (ℤ × ℤ)
  policyIndices : List ℤ
  deriving DecidableEq

structure LocalConfig where
  ifname : String
  ip : UInt32
  netmask : UInt32
  network : UInt32
  srcMac : Mac
  dstMac : Mac
  umemMb : UInt32
  ringSize : UInt32
  batchSize : UInt32
  frameSize : UInt32
  queueCount : ℤ
  deriving DecidableEq

structure WanConfig where
  ifname : String
  dstIp : UInt32
  srcMac : Mac
  dstMac : Mac
  windowSize : UInt32
  umemMb : UInt32
  ringSize : UInt32
  batchSize : UInt32
  frameSize : UInt32
  queueCount : ℤ
  deriving DecidableEq

structure AppConfig where
  globalFrameSize : UInt32
  globalBatchSize : UInt32
  locals : List LocalConfig
  wans : List WanConfig
  cryptoEnabled : Bool
  cryptoKey : Key
  encryptLayer : ℤ
  fakeEthertypeIpv4 : UInt16
  fakeProtocol : UInt8
  cryptoMode : CryptoMode
  nonceSize : ℕ
  aesBits : AesBits
  profiles : List ProfileConfig
  policies : List CryptoPolicy
  deriving DecidableEq

def AppConfig.empty : AppConfig where
  globalFrameSize := 0
  globalBatchSize := 0
  locals := []
  wans := []
  cryptoEnabled := false
  cryptoKey := Key.zero
  encryptLayer := 0
  fakeEthertypeIpv4 := 0
  fakeProtocol := 0
  cryptoMode := .ctr
  nonceSize := 0
  aesBits := .aes128
  profiles := []
  policies := []

/-! ## Validation -/

/-- The smallest UMEM that holds twice the ring, in `uint32_t` arithmetic. -/
def minUmemMb (ringSize frameSize : UInt32) : UInt32 := ringSize * 2 * frameSize / (1024 * 1024)

def localValid (loc : LocalConfig) : Prop :=
  loc.ifname ≠ "" ∧ loc.umemMb ≠ 0 ∧ loc.ringSize ≠ 0 ∧
    ¬ loc.umemMb < minUmemMb loc.ringSize loc.frameSize

def wanValid (wan : WanConfig) : Prop :=
  wan.ifname ≠ "" ∧ wan.umemMb ≠ 0 ∧ wan.ringSize ≠ 0 ∧ wan.windowSize ≠ 0 ∧
    ¬ wan.umemMb < minUmemMb wan.ringSize wan.frameSize

/-- `config_validate` returns `0`. -/
def configValidate (cfg : AppConfig) : Prop :=
  cfg.globalFrameSize ≠ 0 ∧ cfg.globalBatchSize ≠ 0 ∧ (∀ loc ∈ cfg.locals, localValid loc) ∧
    ∀ wan ∈ cfg.wans, wanValid wan

instance (loc : LocalConfig) : Decidable (localValid loc) := inferInstanceAs (Decidable (_ ∧ _))

instance (wan : WanConfig) : Decidable (wanValid wan) := inferInstanceAs (Decidable (_ ∧ _))

instance (cfg : AppConfig) : Decidable (configValidate cfg) := inferInstanceAs (Decidable (_ ∧ _))

/-! ## Selection -/

/-- `config_find_local_for_ip`; `none` stands for `-1`. -/
def configFindLocalForIp (cfg : AppConfig) (destIp : UInt32) : Option ℕ :=
  cfg.locals.findIdx? fun loc => destIp &&& loc.netmask == loc.network

def cidrMatchWithNegate (anyFlag negate : Bool) (ip net mask : UInt32) : Bool :=
  if anyFlag then true
  else
    let inCidr := ip &&& mask == net &&& mask
    if negate then !inCidr else inCidr

/-- A port range restricts only when both ends are there. -/
def portInRange (port : ℕ) (lo hi : ℤ) : Bool :=
  if 0 ≤ lo ∧ 0 ≤ hi then decide (lo ≤ port ∧ (port : ℤ) ≤ hi) else true

structure FlowTuple where
  srcIp : UInt32
  dstIp : UInt32
  srcPort : ℕ
  dstPort : ℕ
  protocol : UInt8
  deriving DecidableEq

def FlowTuple.swap (t : FlowTuple) : FlowTuple :=
  ⟨t.dstIp, t.srcIp, t.dstPort, t.srcPort, t.protocol⟩

def cryptoPolicyMatchPacket (cp : CryptoPolicy) (t : FlowTuple) : Bool :=
  cidrMatchWithNegate cp.srcAny cp.srcNegate t.srcIp cp.srcNet cp.srcMask &&
    cidrMatchWithNegate cp.dstAny cp.dstNegate t.dstIp cp.dstNet cp.dstMask &&
    portInRange t.srcPort cp.srcPortFrom cp.srcPortTo &&
    portInRange t.dstPort cp.dstPortFrom cp.dstPortTo &&
    (cp.protocol == policyProtoAny || cp.protocol == t.protocol)

/-- The element of a list at an `int` index, if the index is in range. -/
def atIndex? {α : Type} (l : List α) (i : ℤ) : Option α := if 0 ≤ i then l[i.toNat]? else none

/-- `config_select_profile_for_local`; `none` stands for `-1`. -/
def configSelectProfileForLocal (cfg : AppConfig) (localIdx : ℤ) : Option ℕ :=
  if localIdx < 0 ∨ cfg.locals.length ≤ localIdx then none
  else cfg.profiles.findIdx? fun p => p.enabled && p.localIndices.contains localIdx

/-- One pass over the profile's policies; `anyPass` says whether it takes the policies for any
protocol or those for a specific one. -/
def selectPass (cfg : AppConfig) (t : FlowTuple) (anyPass : Bool) (indices : List ℤ) : Option ℤ :=
  indices.find? fun pi =>
    match atIndex? cfg.policies pi with
    | none => false
    | some cp =>
      (cp.protocol == policyProtoAny) == anyPass &&
        (cryptoPolicyMatchPacket cp t || cryptoPolicyMatchPacket cp t.swap)

/-- `config_select_crypto_policy`, with the index of the policy in place of its address. -/
def configSelectCryptoPolicy (cfg : AppConfig) (profileIdx : ℕ) (t : FlowTuple) : Option ℤ :=
  match cfg.profiles[profileIdx]? with
  | none => none
  | some p =>
    match selectPass cfg t false p.policyIndices with
    | some pi => some pi
    | none => selectPass cfg t true p.policyIndices

def cryptoSelectPolicyForLocal (cfg : AppConfig) (localIdx : ℤ) (t : FlowTuple) : Option ℤ :=
  match configSelectProfileForLocal cfg localIdx with
  | none => none
  | some pi => configSelectCryptoPolicy cfg pi t

/-! ## Applying a policy -/

/-- `(uint8_t)cp->id`. -/
def CryptoPolicy.idByte (cp : CryptoPolicy) : UInt8 := UInt8.ofNat (cp.id % 256).toNat

/-- `crypto_apply_from_policy`: what it leaves in the thread's parameters.  The process-wide
encrypt layer, which only `packet_encrypt` and `packet_decrypt` read, is left out. -/
def cryptoApplyFromPolicy (P : CryptoParams) (cp : CryptoPolicy) : CryptoParams :=
  { P with
    mode := cp.cryptoMode
    aesBits := cp.aesBits
    nonceSize := cp.nonceSize
    fakeProtocol :=
      if cp.action = actionEncryptL3 then if P.fakeProtocol ≠ 0 then P.fakeProtocol else 99
      else P.fakeProtocol
    policyId := UInt8.ofNat (cp.id % 256).toNat }

@[simp] theorem cryptoApplyFromPolicy_policyId (P : CryptoParams) (cp : CryptoPolicy) :
    (cryptoApplyFromPolicy P cp).policyId = cp.idByte := rfl

@[simp] theorem cryptoApplyFromPolicy_nonceSize (P : CryptoParams) (cp : CryptoPolicy) :
    (cryptoApplyFromPolicy P cp).nonceSize = cp.nonceSize := rfl

@[simp] theorem cryptoApplyFromPolicy_mode (P : CryptoParams) (cp : CryptoPolicy) :
    (cryptoApplyFromPolicy P cp).mode = cp.cryptoMode := rfl

end NetEncryptor

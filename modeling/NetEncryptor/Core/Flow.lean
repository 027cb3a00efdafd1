import NetEncryptor.Base.ChainTable
import NetEncryptor.Core.Config
import NetEncryptor.Crypto.Ipv4

/-!
# Flows and their pins

`parse_flow` reads addresses, ports and protocol of a frame.  A TCP connection is pinned to the
policy that its first frame got: the pin table is a chained hash table whose keys are normalized,
so that both directions of a connection share an entry.  The table is taken to be initialized, and
`calloc` to succeed.
-/

namespace NetEncryptor

def ipprotoTcp : UInt8 := 6

def ipprotoUdp : UInt8 := 17

/-- A 32-bit word as the host reads it from memory, low byte first. -/
def le32 (b : Packet) (i : ℕ) : UInt32 :=
  UInt32.ofNat ((b i).toNat + 2 ^ 8 * (b (i + 1)).toNat + 2 ^ 16 * (b (i + 2)).toNat +
    2 ^ 24 * (b (i + 3)).toNat)

/-- The number that a word has in network order. -/
def ntohl (x : UInt32) : ℕ :=
  let n := x.toNat
  2 ^ 24 * (n % 256) + 2 ^ 16 * (n / 256 % 256) + 2 ^ 8 * (n / 256 / 256 % 256) +
    n / 256 / 256 / 256

def htonl (n : ℕ) : UInt32 := UInt32.ofNat (ntohl (UInt32.ofNat n))

theorem ntohl_injective {x y : UInt32} (h : ntohl x = ntohl y) : x = y := by
  have digits : ∀ n : ℕ, n = n % 256 + 256 * (n / 256 % 256) + 65536 * (n / 256 / 256 % 256) +
      16777216 * (n / 256 / 256 / 256) := fun n => by omega
  have last : ∀ z : UInt32, z.toNat / 256 / 256 / 256 < 256 := fun z => by
    have := z.toNat_lt
    omega
  have mod : ∀ n : ℕ, n % 256 < 256 := fun n => Nat.mod_lt _ (by omega)
  rw [← UInt32.toNat_inj, digits x.toNat, digits y.toNat]
  simp only [ntohl] at h
  have := last x
  have := last y
  have := mod x.toNat
  have := mod y.toNat
  have := mod (x.toNat / 256)
  have := mod (y.toNat / 256)
  have := mod (x.toNat / 256 / 256)
  have := mod (y.toNat / 256 / 256)
  generalize x.toNat % 256 = x₀, x.toNat / 256 % 256 = x₁, x.toNat / 256 / 256 % 256 = x₂,
    x.toNat / 256 / 256 / 256 = x₃ at *
  generalize y.toNat % 256 = y₀, y.toNat / 256 % 256 = y₁, y.toNat / 256 / 256 % 256 = y₂,
    y.toNat / 256 / 256 / 256 = y₃ at *
  omega

theorem ntohl_lt (x : UInt32) : ntohl x < 2 ^ 32 := by
  have := x.toNat_lt
  simp only [ntohl]
  omega

/-- `none` stands for `-1`. -/
def parseFlow (pkt : Packet) (pktLen : ℕ) : Option FlowTuple :=
  match cryptoEthIpv4Offset pkt pktLen with
  | none => none
  | some l3Off =>
    if pktLen < l3Off + 20 then none
    else
      let ipHdrLen := ihlAt pkt l3Off
      let transport := l3Off + ipHdrLen
      let protocol := pkt (l3Off + 9)
      let flow (srcPort dstPort : ℕ) : FlowTuple :=
        ⟨le32 pkt (l3Off + 12), le32 pkt (l3Off + 16), srcPort, dstPort, protocol⟩
      if ipHdrLen < 20 then none
      else if protocol = ipprotoTcp then
        if pktLen < transport + 20 then none
        else some (flow (pkt.be16 transport) (pkt.be16 (transport + 2)))
      else if protocol = ipprotoUdp then
        if pktLen < transport + 8 then none
        else some (flow (pkt.be16 transport) (pkt.be16 (transport + 2)))
      else some (flow 0 0)

/-- `tcp_ipv4_tcp_flags`; `none` stands for `-1`. -/
def tcpIpv4TcpFlags (pkt : Packet) (pktLen : ℕ) : Option UInt8 :=
  match cryptoEthIpv4Offset pkt pktLen with
  | none => none
  | some l3Off =>
    let ipHdrLen := ihlAt pkt l3Off
    if pktLen < l3Off + 20 ∨ pkt (l3Off + 9) ≠ ipprotoTcp ∨ ipHdrLen < 20 ∨
        pktLen < l3Off + ipHdrLen + 14 then none
    else some (pkt (l3Off + ipHdrLen + 13))

/-! ## The pin table -/

def tcpPolicyPinTimeoutSec : ℕ := 120

def flowTableSize : ℕ := 16384

/-- Addresses and ports of an entry. -/
structure TcpConnection where
  srcIp : UInt32
  dstIp : UInt32
  srcPort : ℕ
  dstPort : ℕ
  deriving DecidableEq

/-- `policy_pi` and `last_seen_sec` of an entry. -/
structure TcpPolicyPin where
  policyPi : ℤ
  lastSeenSec : ℕ
  deriving DecidableEq

/-- `g_tcp_policy_pins`. -/
abbrev TcpPolicyPins := ChainTable TcpConnection TcpPolicyPin

def FlowTuple.connection (t : FlowTuple) : TcpConnection := ⟨t.srcIp, t.dstIp, t.srcPort, t.dstPort⟩

def tcpPolicyPinNormalizeTuple (c : TcpConnection) : TcpConnection :=
  if ntohl c.dstIp < ntohl c.srcIp ∨ (ntohl c.srcIp = ntohl c.dstIp ∧ c.dstPort < c.srcPort) then
    ⟨c.dstIp, c.srcIp, c.dstPort, c.srcPort⟩
  else c

def tcpPolicyPinHash (c : TcpConnection) : ℕ :=
  let hash := c.srcIp ^^^ c.dstIp
  let hash := hash ^^^ (UInt32.ofNat c.srcPort <<< 16 ||| UInt32.ofNat c.dstPort)
  let hash := hash ^^^ 6
  let hash := hash ^^^ hash >>> 16
  let hash := hash * 0x85ebca6b
  let hash := hash ^^^ hash >>> 13
  let hash := hash * 0xc2b2ae35
  let hash := hash ^^^ hash >>> 16
  hash.toNat % flowTableSize

def FlowTuple.pinKey (t : FlowTuple) : TcpConnection := tcpPolicyPinNormalizeTuple t.connection

section

variable (cryptoEnabled : Bool)

/-- `now` is what `tcp_policy_pin_now_sec` returned. -/
def tcpPolicyPinSet (pins : TcpPolicyPins) (now : ℕ) (t : FlowTuple) (policyPi : ℤ) :
    TcpPolicyPins :=
  if cryptoEnabled = false ∨ policyPi < 0 ∨ maxCryptoPolicies ≤ policyPi then pins
  else ChainTable.put tcpPolicyPinHash pins t.pinKey ⟨policyPi, now⟩

def tcpPolicyPinRemove (pins : TcpPolicyPins) (t : FlowTuple) : TcpPolicyPins :=
  if cryptoEnabled = false then pins else ChainTable.erase tcpPolicyPinHash pins t.pinKey

/-- A pin can be followed: its policy is there, and it bypasses or has a context. -/
def PinUsable (cfg : AppConfig) (ready : Buffer Bool) (policyPi : ℤ) : Prop :=
  policyPi < maxCryptoPolicies ∧ ∃ cp, atIndex? cfg.policies policyPi = some cp ∧
    (cp.action = actionBypass ∨ ready policyPi.toNat = true)

instance (cfg : AppConfig) (ready : Buffer Bool) (policyPi : ℤ) :
    Decidable (PinUsable cfg ready policyPi) :=
  decidable_of_iff
    (policyPi < maxCryptoPolicies ∧ ∃ cp ∈ atIndex? cfg.policies policyPi,
      cp.action = actionBypass ∨ ready policyPi.toNat = true) Iff.rfl

/-- The index of the policy in place of its address, and the table afterwards: a pin that can be
followed is refreshed, any other one is taken out. -/
def tcpPolicyPinLookup (cfg : AppConfig) (ready : Buffer Bool) (pins : TcpPolicyPins) (now : ℕ)
    (t : FlowTuple) : Option ℤ × TcpPolicyPins :=
  if cryptoEnabled = false then (none, pins)
  else
    match ChainTable.find tcpPolicyPinHash pins t.pinKey with
    | none => (none, pins)
    | some pin =>
      if PinUsable cfg ready pin.policyPi then
        (some pin.policyPi,
          ChainTable.put tcpPolicyPinHash pins t.pinKey { pin with lastSeenSec := now })
      else (none, ChainTable.erase tcpPolicyPinHash pins t.pinKey)

/-- The age of a pin is an `uint64_t` difference. -/
def tcpPolicyPinGc (pins : TcpPolicyPins) (now : ℕ) : TcpPolicyPins :=
  if cryptoEnabled = false ∨ now = 0 then pins
  else pins.sweep fun e => decide (usub now e.2.lastSeenSec ≤ tcpPolicyPinTimeoutSec)

end

/-! ## Both directions of a connection -/

/-- **Both directions share an entry.** -/
theorem pinKey_swap (t : FlowTuple) : t.swap.pinKey = t.pinKey := by
  unfold FlowTuple.pinKey tcpPolicyPinNormalizeTuple FlowTuple.connection FlowTuple.swap
  simp only
  split_ifs with h₁ h₂ h₂
  · omega
  · rfl
  · rfl
  · have hip : ntohl t.srcIp = ntohl t.dstIp := by omega
    have hport : t.srcPort = t.dstPort := by omega
    rw [ntohl_injective hip, hport]

section

variable {cfg : AppConfig} {ready : Buffer Bool} {pins : TcpPolicyPins} {now now' : ℕ}
  {t u : FlowTuple} {policyPi : ℤ}

theorem tcpPolicyPinLookup_of_find_eq_none
    (h : ChainTable.find tcpPolicyPinHash pins t.pinKey = none) :
    (tcpPolicyPinLookup true cfg ready pins now t).1 = none := by
  rw [tcpPolicyPinLookup, if_neg (by decide), h]

theorem tcpPolicyPinLookup_of_find_eq_some {pin : TcpPolicyPin}
    (h : ChainTable.find tcpPolicyPinHash pins t.pinKey = some pin)
    (husable : PinUsable cfg ready pin.policyPi) :
    (tcpPolicyPinLookup true cfg ready pins now t).1 = some pin.policyPi := by
  rw [tcpPolicyPinLookup, if_neg (by decide), h]
  simp only [if_pos husable]

/-- **A pin is followed** by both directions of its connection as long as its policy can be. -/
theorem tcpPolicyPinLookup_set (h₀ : 0 ≤ policyPi) (husable : PinUsable cfg ready policyPi)
    (hu : u = t ∨ u = t.swap) :
    (tcpPolicyPinLookup true cfg ready (tcpPolicyPinSet true pins now t policyPi) now' u).1 =
      some policyPi := by
  have hkey : u.pinKey = t.pinKey := by
    rcases hu with rfl | rfl
    · rfl
    · exact pinKey_swap t
  have hset : ¬ (true = false ∨ policyPi < 0 ∨ (maxCryptoPolicies : ℤ) ≤ policyPi) := by
    have := husable.1
    simp only [Bool.true_eq_false, false_or]
    omega
  have hfind : ChainTable.find tcpPolicyPinHash (tcpPolicyPinSet true pins now t policyPi)
      u.pinKey = some ⟨policyPi, now⟩ := by
    rw [tcpPolicyPinSet, if_neg hset, hkey]
    exact ChainTable.find_put_self
  exact tcpPolicyPinLookup_of_find_eq_some hfind husable

theorem tcpPolicyPinLookup_remove (h : pins.Unique) :
    (tcpPolicyPinLookup true cfg ready (tcpPolicyPinRemove true pins t) now t).1 = none := by
  refine tcpPolicyPinLookup_of_find_eq_none ?_
  rw [tcpPolicyPinRemove, if_neg (by decide)]
  exact ChainTable.find_erase_self h

theorem tcpPolicyPinLookup_usable {c : Bool}
    (h : (tcpPolicyPinLookup c cfg ready pins now t).1 = some policyPi) :
    PinUsable cfg ready policyPi := by
  unfold tcpPolicyPinLookup at h
  split_ifs at h
  split at h
  · cases h
  · split_ifs at h with husable
    exact Option.some.inj h ▸ husable

end

end NetEncryptor

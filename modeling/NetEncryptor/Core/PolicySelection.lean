import NetEncryptor.Core.Config

/-!
# Which policy a flow gets

`config_select_crypto_policy` goes through a profile's policy indices twice, first for the policies
with a specific protocol, then for those with protocol ANY, and tries the tuple of the packet in
both directions.  `Accepts` says without the code when a policy takes a flow; the result is the
first index in one class or the other whose policy takes it (`configSelectCryptoPolicy_eq_some_iff`)
and does not depend on the direction of the packet (`configSelectCryptoPolicy_swap`).
-/

namespace NetEncryptor

/-! ## Accepting a flow -/

/-- One of the CIDR tests: any address, or the addresses inside the network, or those outside. -/
def CidrTakes (anyFlag negate : Bool) (ip net mask : UInt32) : Prop :=
  anyFlag = true ∨ (ip &&& mask = net &&& mask ↔ negate = false)

/-- A port range takes every port unless both of its ends are given. -/
def PortTakes (port : ℕ) (lo hi : ℤ) : Prop := 0 ≤ lo → 0 ≤ hi → lo ≤ port ∧ (port : ℤ) ≤ hi

/-- The policy takes a packet with this tuple as it stands. -/
structure AcceptsPacket (cp : CryptoPolicy) (t : FlowTuple) : Prop where
  src : CidrTakes cp.srcAny cp.srcNegate t.srcIp cp.srcNet cp.srcMask
  dst : CidrTakes cp.dstAny cp.dstNegate t.dstIp cp.dstNet cp.dstMask
  srcPort : PortTakes t.srcPort cp.srcPortFrom cp.srcPortTo
  dstPort : PortTakes t.dstPort cp.dstPortFrom cp.dstPortTo
  protocol : cp.protocol = policyProtoAny ∨ cp.protocol = t.protocol

/-- The policy takes the flow in at least one of its two directions. -/
def Accepts (cp : CryptoPolicy) (t : FlowTuple) : Prop :=
  AcceptsPacket cp t ∨ AcceptsPacket cp t.swap

theorem FlowTuple.swap_swap (t : FlowTuple) : t.swap.swap = t := rfl

theorem accepts_swap {cp : CryptoPolicy} {t : FlowTuple} : Accepts cp t.swap ↔ Accepts cp t := by
  unfold Accepts
  rw [FlowTuple.swap_swap]
  exact Or.comm

theorem cidrMatchWithNegate_iff {anyFlag negate : Bool} {ip net mask : UInt32} :
    cidrMatchWithNegate anyFlag negate ip net mask = true ↔
      CidrTakes anyFlag negate ip net mask := by
  unfold cidrMatchWithNegate CidrTakes
  cases anyFlag with
  | true => exact iff_of_true rfl (.inl rfl)
  | false => cases negate <;> simp

theorem portInRange_iff {port : ℕ} {lo hi : ℤ} :
    portInRange port lo hi = true ↔ PortTakes port lo hi := by
  unfold portInRange PortTakes
  split_ifs with h
  · rw [decide_eq_true_iff]
    exact ⟨fun hp _ _ => hp, fun hp => hp h.1 h.2⟩
  · exact iff_of_true rfl fun h₁ h₂ => absurd ⟨h₁, h₂⟩ h

theorem cryptoPolicyMatchPacket_iff {cp : CryptoPolicy} {t : FlowTuple} :
    cryptoPolicyMatchPacket cp t = true ↔ AcceptsPacket cp t := by
  unfold cryptoPolicyMatchPacket
  rw [Bool.and_eq_true, Bool.and_eq_true, Bool.and_eq_true, Bool.and_eq_true, Bool.or_eq_true,
    beq_iff_eq, beq_iff_eq, cidrMatchWithNegate_iff, cidrMatchWithNegate_iff, portInRange_iff,
    portInRange_iff]
  constructor
  · rintro ⟨⟨⟨⟨hsrc, hdst⟩, hsport⟩, hdport⟩, hproto⟩
    exact ⟨hsrc, hdst, hsport, hdport, hproto⟩
  · rintro ⟨hsrc, hdst, hsport, hdport, hproto⟩
    exact ⟨⟨⟨⟨hsrc, hdst⟩, hsport⟩, hdport⟩, hproto⟩

/-! ## One pass -/

/-- `x` is the first element of the list with the property. -/
def IsFirst {α : Type} (l : List α) (Q : α → Prop) (x : α) : Prop :=
  Q x ∧ ∃ before after, l = before ++ x :: after ∧ ∀ y ∈ before, ¬ Q y

/-- The index is in range and its policy, for any protocol or for a specific one, takes the
flow. -/
def Takes (cfg : AppConfig) (t : FlowTuple) (anyProto : Bool) (pi : ℤ) : Prop :=
  ∃ cp, atIndex? cfg.policies pi = some cp ∧ (cp.protocol = policyProtoAny ↔ anyProto = true) ∧
    Accepts cp t

section

variable {cfg : AppConfig} {t : FlowTuple} {anyPass : Bool} {pi : ℤ}

theorem takes_swap : Takes cfg t.swap anyPass pi ↔ Takes cfg t anyPass pi := by
  unfold Takes
  simp only [accepts_swap]

/-- The test that a pass makes of an index. -/
def passTest (cfg : AppConfig) (t : FlowTuple) (anyPass : Bool) (pi : ℤ) : Bool :=
  match atIndex? cfg.policies pi with
  | none => false
  | some cp =>
    (cp.protocol == policyProtoAny) == anyPass &&
      (cryptoPolicyMatchPacket cp t || cryptoPolicyMatchPacket cp t.swap)

theorem selectPass_eq (indices : List ℤ) :
    selectPass cfg t anyPass indices = indices.find? (passTest cfg t anyPass) := rfl

theorem passTest_iff : passTest cfg t anyPass pi = true ↔ Takes cfg t anyPass pi := by
  unfold passTest
  unfold Takes
  cases hcp : atIndex? cfg.policies pi with
  | none => simp
  | some cp =>
    have hclass : ((cp.protocol == policyProtoAny) == anyPass) = true ↔
        (cp.protocol = policyProtoAny ↔ anyPass = true) := by
      rw [beq_iff_eq, Bool.eq_iff_iff, beq_iff_eq]
    have hmatch : (cryptoPolicyMatchPacket cp t || cryptoPolicyMatchPacket cp t.swap) = true ↔
        Accepts cp t := by
      rw [Bool.or_eq_true, cryptoPolicyMatchPacket_iff, cryptoPolicyMatchPacket_iff]
      rfl
    simp only [Bool.and_eq_true, hclass, hmatch]
    constructor
    · intro h
      exact ⟨cp, rfl, h⟩
    · rintro ⟨cp', heq, h⟩
      obtain rfl := Option.some.inj heq
      exact h

theorem selectPass_eq_some_iff {indices : List ℤ} :
    selectPass cfg t anyPass indices = some pi ↔ IsFirst indices (Takes cfg t anyPass) pi := by
  unfold IsFirst
  rw [selectPass_eq, List.find?_eq_some_iff_append, passTest_iff]
  refine and_congr_right fun _ => exists_congr fun before => exists_congr fun after => ?_
  refine and_congr_right fun _ => forall₂_congr fun y _ => ?_
  rw [Bool.not_eq_true', ← Bool.not_eq_true, passTest_iff]

theorem selectPass_eq_none_iff {indices : List ℤ} :
    selectPass cfg t anyPass indices = none ↔ ∀ y ∈ indices, ¬ Takes cfg t anyPass y := by
  rw [selectPass_eq, List.find?_eq_none]
  refine forall₂_congr fun y _ => ?_
  rw [passTest_iff]

/-! ## Both passes -/

variable {profileIdx : ℕ} {p : ProfileConfig}

theorem configSelectCryptoPolicy_eq (hp : cfg.profiles[profileIdx]? = some p) :
    configSelectCryptoPolicy cfg profileIdx t =
      (selectPass cfg t false p.policyIndices).or (selectPass cfg t true p.policyIndices) := by
  unfold configSelectCryptoPolicy
  simp only [hp]
  cases selectPass cfg t false p.policyIndices <;> rfl

theorem configSelectCryptoPolicy_eq_some_iff (hp : cfg.profiles[profileIdx]? = some p) :
    configSelectCryptoPolicy cfg profileIdx t = some pi ↔
      IsFirst p.policyIndices (Takes cfg t false) pi ∨
        (∀ y ∈ p.policyIndices, ¬ Takes cfg t false y) ∧
          IsFirst p.policyIndices (Takes cfg t true) pi := by
  rw [configSelectCryptoPolicy_eq hp, Option.or_eq_some_iff, selectPass_eq_some_iff,
    selectPass_eq_none_iff, selectPass_eq_some_iff]

theorem configSelectCryptoPolicy_eq_none_iff (hp : cfg.profiles[profileIdx]? = some p) :
    configSelectCryptoPolicy cfg profileIdx t = none ↔
      ∀ y ∈ p.policyIndices, ¬ Takes cfg t false y ∧ ¬ Takes cfg t true y := by
  rw [configSelectCryptoPolicy_eq hp, Option.or_eq_none_iff, selectPass_eq_none_iff,
    selectPass_eq_none_iff]
  exact forall₂_and.symm

theorem selectPass_swap {indices : List ℤ} :
    selectPass cfg t.swap anyPass indices = selectPass cfg t anyPass indices := by
  apply Option.ext
  intro pi
  rw [selectPass_eq_some_iff, selectPass_eq_some_iff]
  unfold IsFirst
  simp only [takes_swap]

theorem configSelectCryptoPolicy_swap :
    configSelectCryptoPolicy cfg profileIdx t.swap = configSelectCryptoPolicy cfg profileIdx t := by
  unfold configSelectCryptoPolicy
  simp only [selectPass_swap]

theorem cryptoSelectPolicyForLocal_swap {localIdx : ℤ} :
    cryptoSelectPolicyForLocal cfg localIdx t.swap = cryptoSelectPolicyForLocal cfg localIdx t := by
  unfold cryptoSelectPolicyForLocal
  simp only [configSelectCryptoPolicy_swap]

end

/-- **Policy selection is ordered and symmetric.** For every configuration, profile and tuple, the
result is the first index of the profile's list (indices out of range are skipped) whose policy has
a specific protocol and takes the flow in one of its directions, else the first such index of a
policy for any protocol, else none; and the reversed tuple has the same result. -/
theorem policySelection_ordered_symmetric (cfg : AppConfig) (profileIdx : ℕ) (p : ProfileConfig)
    (hp : cfg.profiles[profileIdx]? = some p) (t : FlowTuple) :
    (∀ pi, configSelectCryptoPolicy cfg profileIdx t = some pi ↔
      IsFirst p.policyIndices (Takes cfg t false) pi ∨
        (∀ y ∈ p.policyIndices, ¬ Takes cfg t false y) ∧
          IsFirst p.policyIndices (Takes cfg t true) pi) ∧
    (configSelectCryptoPolicy cfg profileIdx t = none ↔
      ∀ y ∈ p.policyIndices, ¬ Takes cfg t false y ∧ ¬ Takes cfg t true y) ∧
    configSelectCryptoPolicy cfg profileIdx ⟨t.dstIp, t.srcIp, t.dstPort, t.srcPort, t.protocol⟩ =
      configSelectCryptoPolicy cfg profileIdx t :=
  ⟨fun _ => configSelectCryptoPolicy_eq_some_iff hp, configSelectCryptoPolicy_eq_none_iff hp,
    configSelectCryptoPolicy_swap⟩

/-- A profile that lists an index out of range, a policy for any protocol and one for TCP. -/
def anyThenTcpConfig : AppConfig :=
  { AppConfig.empty with
    profiles := [⟨1, "lan", true, [0], [], [5, 0, 1]⟩]
    policies := [{ samplePolicy actionEncryptL3 with protocol := 0 }, samplePolicy actionEncryptL4] }

theorem policySelection_anyThenTcp :
    configSelectCryptoPolicy anyThenTcpConfig 0 ⟨1, 2, 40000, 443, 6⟩ = some 1 ∧
      configSelectCryptoPolicy anyThenTcpConfig 0 ⟨2, 1, 443, 40000, 6⟩ = some 1 := by
  have hfound : configSelectCryptoPolicy anyThenTcpConfig 0 ⟨1, 2, 40000, 443, 6⟩ = some 1 := by
    decide
  obtain ⟨-, -, hswap⟩ := policySelection_ordered_symmetric anyThenTcpConfig 0
    ⟨1, "lan", true, [0], [], [5, 0, 1]⟩ rfl ⟨1, 2, 40000, 443, 6⟩
  exact ⟨hfound, hswap.trans hfound⟩

end NetEncryptor

import NetEncryptor.Core.PolicySelection
import NetEncryptor.Db.MergeProfiles
import NetEncryptor.Db.PolicyTexts

/-!
# Rules

A rule is a row of `ne_policies` as the schema allows it: a name for the action, the protocol and the
method, lists of CIDRs and of port ranges.  It covers a flow if it means one of its two directions,
and `ruleFor` is the rule that decides: the first one with a protocol of its own or, if there is none,
the first one for any protocol.

`select_ruleFor` says that the way of a rule through texts, items, expanded policies, the merged
configuration and the two passes of the selection leads to this.
-/

namespace NetEncryptor

open CStrings

/-! ## What a rule says -/

/-- `encryption_action_enum`. -/
inductive RuleAction where
  | l2
  | l3
  | l4
  | bypass
  deriving DecidableEq

/-- `encryption_protocol_enum`. -/
inductive RuleProto where
  | tcp
  | udp
  | icmp
  | ospf
  | any
  deriving DecidableEq

/-- `encryption_method_enum`. -/
structure RuleMethod where
  mode : CryptoMode
  bits : AesBits
  deriving DecidableEq

namespace RuleAction

def text : RuleAction → Str
  | l2 => "L2".toList
  | l3 => "L3".toList
  | l4 => "L4".toList
  | bypass => "bypass".toList

def code : RuleAction → ℤ
  | l2 => actionEncryptL2
  | l3 => actionEncryptL3
  | l4 => actionEncryptL4
  | bypass => actionBypass

theorem parseActionName_text (a : RuleAction) : parseActionName a.text = a.code := by
  cases a with
  | l2 | l3 | l4 | bypass => rfl

theorem code_eq_bypass_iff {a : RuleAction} : a.code = actionBypass ↔ a = bypass := by
  cases a with
  | l2 | l3 | l4 => exact iff_of_false (by decide) nofun
  | bypass => exact iff_of_true rfl rfl

end RuleAction

namespace RuleProto

def text : RuleProto → Str
  | tcp => "tcp".toList
  | udp => "udp".toList
  | icmp => "icmp".toList
  | ospf => "ospf".toList
  | any => "any".toList

def number : RuleProto → UInt8
  | tcp => 6
  | udp => 17
  | icmp => 1
  | ospf => 89
  | any => policyProtoAny

theorem parseProtocolName_text (p : RuleProto) : parseProtocolName (some p.text) = p.number := by
  cases p with
  | tcp | udp | icmp | ospf | any => rfl

theorem number_eq_any_iff {p : RuleProto} : p.number = policyProtoAny ↔ p = any := by
  cases p with
  | tcp | udp | icmp | ospf => exact iff_of_false (by decide) nofun
  | any => exact iff_of_true rfl rfl

end RuleProto

namespace RuleMethod

def text (m : RuleMethod) : Str :=
  match m.mode, m.bits with
  | .gcm, .aes128 => "aes-gcm-128".toList
  | .gcm, .aes256 => "aes-gcm-256".toList
  | .ctr, .aes128 => "aes-ctr-128".toList
  | .ctr, .aes256 => "aes-ctr-256".toList

theorem neParseMethod_text (m : RuleMethod) : neParseMethod (some m.text) = (m.mode, m.bits) := by
  obtain ⟨mode, bits⟩ := m
  cases mode <;> cases bits <;> rfl

end RuleMethod

/-- A row of `ne_policies`.  An empty list stands for any address or port. -/
structure Rule where
  id : ℤ
  priority : ℤ
  action : RuleAction
  proto : Option RuleProto
  src : List Cidr
  invertSrc : Bool
  dst : List Cidr
  invertDst : Bool
  srcPorts : List PortRange
  dstPorts : List PortRange
  method : Option RuleMethod
  encryptionKey : Option Str
  nonce : Option ℤ

/-- What PostgreSQL prints of a truth value. -/
def boolText (b : Bool) : Str := if b then "t".toList else "f".toList

def AddressesCover (cidrs : List Cidr) (invert : Bool) (ip : UInt32) : Prop :=
  cidrs = [] ∨ ListAccepts cidrs invert ip

def PortsCover (ranges : List PortRange) (port : ℕ) : Prop :=
  ranges = [] ∨ ∃ r ∈ ranges, r.Contains port

instance (cidrs : List Cidr) (invert : Bool) (ip : UInt32) :
    Decidable (AddressesCover cidrs invert ip) :=
  inferInstanceAs (Decidable (cidrs = [] ∨ ((∃ cidr ∈ cidrs, cidr.Contains ip) ↔ invert = false)))

instance (ranges : List PortRange) (port : ℕ) : Decidable (PortsCover ranges port) :=
  match ranges with
  | [] => .isTrue (.inl rfl)
  | r :: rs => decidable_of_iff (∃ x ∈ r :: rs, x.Contains port)
      ⟨.inr, fun h => h.resolve_left (List.cons_ne_nil _ _)⟩

namespace Rule

def texts (r : Rule) : PolicyTexts where
  id := intText r.id
  priority := intText r.priority
  action := r.action.text
  proto := r.proto.map RuleProto.text
  srcIp := cidrListText r.src
  invertSrcIp := boolText r.invertSrc
  dstIp := cidrListText r.dst
  invertDstIp := boolText r.invertDst
  srcPort := portListText r.srcPorts
  dstPort := portListText r.dstPorts
  method := r.method.map RuleMethod.text
  encryptionKey := r.encryptionKey
  nonce := r.nonce.map intText

def anyProto (r : Rule) : Bool := r.proto = none ∨ r.proto = some .any

/-- The rule is about packets with this tuple. -/
def Means (r : Rule) (t : FlowTuple) : Prop :=
  AddressesCover r.src r.invertSrc t.srcIp ∧ AddressesCover r.dst r.invertDst t.dstIp ∧
    PortsCover r.srcPorts t.srcPort ∧ PortsCover r.dstPorts t.dstPort ∧
    (r.anyProto = true ∨ r.proto.map RuleProto.number = some t.protocol)

instance (r : Rule) (t : FlowTuple) : Decidable (r.Means t) := inferInstanceAs (Decidable (_ ∧ _))

def Covers (r : Rule) (t : FlowTuple) : Prop := r.Means t ∨ r.Means t.swap

instance (r : Rule) (t : FlowTuple) : Decidable (r.Covers t) := inferInstanceAs (Decidable (_ ∨ _))

/-- There is room for its lists, and an inverted list does not have different networks. -/
structure Fits (r : Rule) : Prop where
  src : r.src.length ≤ maxCidrListItems
  dst : r.dst.length ≤ maxCidrListItems
  srcPorts : r.srcPorts.length ≤ maxCidrListItems
  dstPorts : r.dstPorts.length ≤ maxCidrListItems
  invertSrc : r.invertSrc = false ∨
    ∀ c ∈ r.src, ∀ c' ∈ r.src, ∀ ip, c.Contains ip → c'.Contains ip
  invertDst : r.invertDst = false ∨
    ∀ c ∈ r.dst, ∀ c' ∈ r.dst, ∀ ip, c.Contains ip → c'.Contains ip

def nonceSize (r : Rule) : ℕ :=
  match r.nonce with
  | none => 12
  | some n => if n ≤ 0 then 12 else n.toNat

def methodOrDefault (r : Rule) : RuleMethod := r.method.getD ⟨.gcm, .aes128⟩

end Rule

/-- The first rule about the flow, of those for any protocol or of the others. -/
def firstRule (rules : List Rule) (t : FlowTuple) (anyProto : Bool) : Option Rule :=
  rules.find? fun r => r.anyProto == anyProto && decide (r.Covers t)

/-- **The rule that decides** about a flow. -/
def ruleFor (rules : List Rule) (t : FlowTuple) : Option Rule :=
  (firstRule rules t false).or (firstRule rules t true)

/-- The policy does what the rule says. -/
structure Carries (fillKey : Option Str → ℕ → Key) (r : Rule) (cp : CryptoPolicy) : Prop where
  dbId : cp.dbId = r.id
  priority : cp.priority = r.priority
  action : cp.action = r.action.code
  crypto : r.action ≠ .bypass →
    cp.cryptoMode = r.methodOrDefault.mode ∧ cp.aesBits = r.methodOrDefault.bits ∧
      cp.nonceSize = r.nonceSize ∧
      cp.key = fillKey r.encryptionKey r.methodOrDefault.bits.keySize

/-! ## The policies of a rule -/

section

variable {fillKey : Option Str → ℕ → Key} {r : Rule} {t : FlowTuple} {base cp : CryptoPolicy}
  {row : PolicyRow}

theorem readCidrs_nil (invert : Bool) :
    readCidrs (cidrListText []) false invert = [⟨true, false, 0, 0⟩] := by
  cases invert with
  | true => rfl
  | false => rfl

theorem readCidrs_covers {cidrs : List Cidr} {invert : Bool}
    (hlen : cidrs.length ≤ maxCidrListItems)
    (hinvert : invert = false ∨ ∀ c ∈ cidrs, ∀ c' ∈ cidrs, ∀ ip, c.Contains ip → c'.Contains ip)
    (ip : UInt32) :
    (∃ item ∈ readCidrs (cidrListText cidrs) false invert,
      cidrMatchWithNegate item.any item.negate ip item.net item.mask = true) ↔
        AddressesCover cidrs invert ip := by
  by_cases hne : cidrs = []
  · subst hne
    rw [readCidrs_nil]
    exact iff_of_true ⟨_, List.mem_singleton_self _, rfl⟩ (.inl rfl)
  · rw [AddressesCover, or_iff_right hne]
    exact (itemsAccept_iff_of_le hne hlen).mpr hinvert ip

theorem portInRange_item (range : PortRange) (port : ℕ) :
    portInRange port range.item.lo range.item.hi = true ↔ range.Contains port := by
  rw [portInRange_iff]
  cases range with
  | port p =>
    show (0 ≤ ((p : ℕ) : ℤ) → 0 ≤ ((p : ℕ) : ℤ) → ((p : ℕ) : ℤ) ≤ port ∧ (port : ℤ) ≤ (p : ℕ)) ↔
      port = p
    omega
  | range lo hi h =>
    show (0 ≤ ((lo : ℕ) : ℤ) → 0 ≤ ((hi : ℕ) : ℤ) → ((lo : ℕ) : ℤ) ≤ port ∧ (port : ℤ) ≤ (hi : ℕ)) ↔
      (lo : ℕ) ≤ port ∧ port ≤ (hi : ℕ)
    omega

theorem readPorts_covers {ranges : List PortRange} (hlen : ranges.length ≤ maxCidrListItems)
    (port : ℕ) : (∃ item ∈ readPorts (portListText ranges) false,
      portInRange port item.lo item.hi = true) ↔ PortsCover ranges port := by
  by_cases hne : ranges = []
  · subst hne
    exact iff_of_true ⟨⟨-1, -1⟩, List.mem_singleton_self _, rfl⟩ (.inl rfl)
  · rw [PortsCover, or_iff_right hne, readPorts_text hne, if_pos hlen]
    constructor
    · rintro ⟨item, hitem, hport⟩
      obtain ⟨range, hrange, rfl⟩ := List.mem_map.mp hitem
      exact ⟨range, hrange, (portInRange_item range port).mp hport⟩
    · rintro ⟨range, hrange, hport⟩
      exact ⟨_, List.mem_map_of_mem hrange, (portInRange_item range port).mpr hport⟩

/-- **Expanding a row** gives a policy for every choice of items that takes the packet. -/
theorem exists_mem_expandRow_iff :
    (∃ cp ∈ expandRow base row, cryptoPolicyMatchPacket cp t = true) ↔
      (∃ i ∈ row.srcItems, cidrMatchWithNegate i.any i.negate t.srcIp i.net i.mask = true) ∧
      (∃ i ∈ row.dstItems, cidrMatchWithNegate i.any i.negate t.dstIp i.net i.mask = true) ∧
      (∃ i ∈ row.srcPortItems, portInRange t.srcPort i.lo i.hi = true) ∧
      (∃ i ∈ row.dstPortItems, portInRange t.dstPort i.lo i.hi = true) ∧
      (base.protocol = policyProtoAny ∨ base.protocol = t.protocol) := by
  simp only [expandRow, List.mem_flatMap, List.mem_map]
  constructor
  · rintro ⟨_, ⟨src, hsrc, dst, hdst, sp, hsp, dp, hdp, rfl⟩, hmatch⟩
    simp only [cryptoPolicyMatchPacket, Bool.and_eq_true, Bool.or_eq_true, beq_iff_eq] at hmatch
    obtain ⟨⟨⟨⟨h₁, h₂⟩, h₃⟩, h₄⟩, h₅⟩ := hmatch
    exact ⟨⟨src, hsrc, h₁⟩, ⟨dst, hdst, h₂⟩, ⟨sp, hsp, h₃⟩, ⟨dp, hdp, h₄⟩, h₅⟩
  · rintro ⟨⟨src, hsrc, h₁⟩, ⟨dst, hdst, h₂⟩, ⟨sp, hsp, h₃⟩, ⟨dp, hdp, h₄⟩, h₅⟩
    refine ⟨_, ⟨src, hsrc, dst, hdst, sp, hsp, dp, hdp, rfl⟩, ?_⟩
    simp only [cryptoPolicyMatchPacket, Bool.and_eq_true, Bool.or_eq_true, beq_iff_eq]
    exact ⟨⟨⟨⟨h₁, h₂⟩, h₃⟩, h₄⟩, h₅⟩

theorem boolText_beq (b : Bool) : (boolText b == "t".toList) = b := by
  cases b with
  | true => rfl
  | false => rfl

theorem atoi_intText (v : ℤ) : atoi (intText v) = v := by rw [atoi, strtol_intText]

def Rule.protocol (r : Rule) : UInt8 := (r.proto.map RuleProto.number).getD policyProtoAny

theorem Rule.anyProto_iff : r.anyProto = true ↔ r.protocol = policyProtoAny := by
  rw [Rule.anyProto, Rule.protocol, decide_eq_true_iff]
  cases r.proto with
  | none => exact iff_of_true (.inl rfl) rfl
  | some p =>
    rw [Option.map_some, Option.getD_some, RuleProto.number_eq_any_iff]
    simp

theorem Rule.protocol_iff :
    (r.anyProto = true ∨ r.proto.map RuleProto.number = some t.protocol) ↔
      (r.protocol = policyProtoAny ∨ r.protocol = t.protocol) := by
  rw [Rule.anyProto_iff]
  by_cases hany : r.protocol = policyProtoAny
  · exact iff_of_true (.inl hany) (.inl hany)
  · rw [or_iff_right hany, or_iff_right hany]
    unfold Rule.protocol at hany ⊢
    cases hp : r.proto with
    | none => exact absurd (by rw [hp]; rfl) hany
    | some p => exact Option.some_inj

/-- **The texts of a rule** are read as its row. -/
theorem readPolicyRow_texts :
    let row := readPolicyRow fillKey r.texts
    row.id = r.id ∧ row.priority = r.priority ∧ row.action = r.action.code ∧
      row.protocol = r.protocol ∧
      row.srcItems = readCidrs (cidrListText r.src) false r.invertSrc ∧
      row.dstItems = readCidrs (cidrListText r.dst) false r.invertDst ∧
      row.srcPortItems = readPorts (portListText r.srcPorts) false ∧
      row.dstPortItems = readPorts (portListText r.dstPorts) false ∧
      row.cryptoMode = r.methodOrDefault.mode ∧ row.aesBits = r.methodOrDefault.bits ∧
      row.nonce = r.nonce ∧
      row.key = fillKey r.encryptionKey r.methodOrDefault.bits.keySize := by
  have hmethod : neParseMethod (r.method.map RuleMethod.text) =
      (r.methodOrDefault.mode, r.methodOrDefault.bits) := by
    unfold Rule.methodOrDefault
    cases r.method with
    | none => rfl
    | some m => exact m.neParseMethod_text
  have hproto : parseProtocolName (r.proto.map RuleProto.text) = r.protocol := by
    unfold Rule.protocol
    cases r.proto with
    | none => rfl
    | some p => exact p.parseProtocolName_text
  have hnonce : (r.nonce.map intText).map atoi = r.nonce := by
    cases r.nonce with
    | none => rfl
    | some n => exact congrArg some (atoi_intText n)
  refine ⟨atoi_intText _, atoi_intText _, r.action.parseActionName_text, hproto, ?_, ?_, rfl, rfl,
    ?_, ?_, hnonce, ?_⟩
  · exact congrArg (readCidrs _ false) (boolText_beq _)
  · exact congrArg (readCidrs _ false) (boolText_beq _)
  · exact congrArg Prod.fst hmethod
  · exact congrArg Prod.snd hmethod
  · exact congrArg (fun m : CryptoMode × AesBits => fillKey r.encryptionKey m.2.keySize) hmethod

theorem policyBase_carries {w w' : WireIds}
    (h : policyBase w (readPolicyRow fillKey r.texts) = some (base, w')) :
    Carries fillKey r base ∧ base.protocol = r.protocol := by
  obtain ⟨hid, hprio, haction, hproto, -, -, -, -, hmode, hbits, hnonce, hkey⟩ :=
    @readPolicyRow_texts fillKey r
  generalize readPolicyRow fillKey r.texts = row at *
  unfold policyBase at h
  split_ifs at h with hbypass
  · cases h
    rw [haction] at hbypass
    exact ⟨⟨hid, hprio, haction, fun hne => absurd (RuleAction.code_eq_bypass_iff.mp hbypass) hne⟩,
      hproto⟩
  · simp only at h
    split at h
    · cases h
    cases h
    refine ⟨⟨hid, hprio, haction, fun _ => ⟨hmode, hbits, ?_, hkey⟩⟩, hproto⟩
    show (if row.nonce.getD 12 ≤ 0 then 12 else (row.nonce.getD 12).toNat) = r.nonceSize
    rw [hnonce, Rule.nonceSize]
    cases r.nonce with
    | none => rfl
    | some n => rfl

theorem expandRow_frame (h : cp ∈ expandRow base row) :
    ∃ src dst : CidrItem, ∃ sp dp : PortItem, cp = { base with
      srcPortFrom := sp.lo
      srcPortTo := sp.hi
      dstPortFrom := dp.lo
      dstPortTo := dp.hi
      srcAny := src.any
      srcNegate := src.negate
      srcNet := src.net
      srcMask := src.mask
      dstAny := dst.any
      dstNegate := dst.negate
      dstNet := dst.net
      dstMask := dst.mask } := by
  simp only [expandRow, List.mem_flatMap, List.mem_map] at h
  obtain ⟨src, -, dst, -, sp, -, dp, -, rfl⟩ := h
  exact ⟨src, dst, sp, dp, rfl⟩

/-- The test that a pass makes of a policy. -/
def passAccepts (t : FlowTuple) (anyPass : Bool) (cp : CryptoPolicy) : Bool :=
  (cp.protocol == policyProtoAny) == anyPass &&
    (cryptoPolicyMatchPacket cp t || cryptoPolicyMatchPacket cp t.swap)

/-- **The policies of a rule** take together the flows that the rule covers, in the pass that the
rule is for. -/
theorem exists_passAccepts_iff {w w' : WireIds} (hr : r.Fits)
    (h : policyBase w (readPolicyRow fillKey r.texts) = some (base, w')) (anyPass : Bool) :
    (∃ cp ∈ expandRow base (readPolicyRow fillKey r.texts), passAccepts t anyPass cp = true) ↔
      r.anyProto = anyPass ∧ r.Covers t := by
  obtain ⟨-, hproto⟩ := policyBase_carries h
  obtain ⟨-, -, -, -, hsrc, hdst, hsp, hdp, -⟩ := @readPolicyRow_texts fillKey r
  have hmeans : ∀ t, (∃ cp ∈ expandRow base (readPolicyRow fillKey r.texts),
      cryptoPolicyMatchPacket cp t = true) ↔ r.Means t := fun t => by
    rw [exists_mem_expandRow_iff, hsrc, hdst, hsp, hdp, readCidrs_covers hr.src hr.invertSrc,
      readCidrs_covers hr.dst hr.invertDst, readPorts_covers hr.srcPorts,
      readPorts_covers hr.dstPorts, hproto, ← Rule.protocol_iff]
    rfl
  have hclass : ∀ cp ∈ expandRow base (readPolicyRow fillKey r.texts),
      ((cp.protocol == policyProtoAny) == anyPass) = true ↔ r.anyProto = anyPass := by
    intro cp hcp
    obtain ⟨_, _, _, _, rfl⟩ := expandRow_frame hcp
    show ((base.protocol == policyProtoAny) == anyPass) = true ↔ _
    have hany : (r.protocol == policyProtoAny) = r.anyProto := by
      rw [Bool.eq_iff_iff, beq_iff_eq, Rule.anyProto_iff]
    rw [hproto, hany, beq_iff_eq]
  constructor
  · rintro ⟨cp, hcp, htest⟩
    rw [passAccepts, Bool.and_eq_true, Bool.or_eq_true, hclass cp hcp] at htest
    refine ⟨htest.1, htest.2.imp (fun h => ?_) fun h => ?_⟩
    · exact (hmeans t).mp ⟨cp, hcp, h⟩
    · exact (hmeans t.swap).mp ⟨cp, hcp, h⟩
  · rintro ⟨hany, hcovers⟩
    have hmatch : ∃ cp ∈ expandRow base (readPolicyRow fillKey r.texts),
        cryptoPolicyMatchPacket cp t = true ∨ cryptoPolicyMatchPacket cp t.swap = true := by
      rcases hcovers with h | h
      · obtain ⟨cp, hcp, hm⟩ := (hmeans t).mpr h
        exact ⟨cp, hcp, .inl hm⟩
      · obtain ⟨cp, hcp, hm⟩ := (hmeans t.swap).mpr h
        exact ⟨cp, hcp, .inr hm⟩
    obtain ⟨cp, hcp, hm⟩ := hmatch
    refine ⟨cp, hcp, ?_⟩
    rw [passAccepts, Bool.and_eq_true, Bool.or_eq_true, hclass cp hcp]
    exact ⟨hany, hm⟩

/-! ## The policies of a table -/

theorem Carries.congr {cp' : CryptoPolicy} (h : Carries fillKey r cp)
    (hsame : SamePolicyButId cp cp') : Carries fillKey r cp' := by
  obtain ⟨id, rfl⟩ := hsame
  exact ⟨h.dbId, h.priority, h.action, h.crypto⟩

theorem passAccepts_congr {cp' : CryptoPolicy} {anyPass : Bool} (hsame : SamePolicyButId cp cp') :
    passAccepts t anyPass cp' = passAccepts t anyPass cp := by
  obtain ⟨id, rfl⟩ := hsame
  rfl

/-- **Loading rules** gives policies, the first of which to take a flow is of the first rule that
covers it. -/
theorem loadPolicyRows_rules {rules : List Rule} (hfits : ∀ r ∈ rules, r.Fits) :
    ∀ {w : WireIds} {policies out : List CryptoPolicy},
      loadPolicyRows w policies (rules.map fun r => readPolicyRow fillKey r.texts) = some out →
        ∃ more, out = policies ++ more ∧ ∀ t anyPass,
          Option.Rel (Carries fillKey) (firstRule rules t anyPass)
            (more.find? (passAccepts t anyPass)) := by
  induction rules with
  | nil =>
    intro w policies out h
    cases h
    exact ⟨[], (List.append_nil _).symm, fun _ _ => .none⟩
  | cons r rules ih =>
    obtain ⟨hr, hrest⟩ := List.forall_mem_cons.mp hfits
    intro w policies out h
    rw [List.map_cons, loadPolicyRows] at h
    split at h
    · cases h
    rename_i base w' hbase
    simp only at h
    split_ifs at h
    obtain ⟨more, rfl, hmore⟩ := ih hrest h
    refine ⟨_, List.append_assoc _ _ _, fun t anyPass => ?_⟩
    have hiff := exists_passAccepts_iff (t := t) hr hbase anyPass
    rw [firstRule, List.find?_append]
    by_cases hcovers : r.anyProto = anyPass ∧ r.Covers t
    · obtain ⟨cp, hcp⟩ := Option.isSome_iff_exists.mp (List.find?_isSome.mpr (hiff.mpr hcovers))
      rw [List.find?_cons_of_pos (by simpa using hcovers), hcp, Option.some_or]
      obtain ⟨_, _, _, _, rfl⟩ := expandRow_frame (List.mem_of_find?_eq_some hcp)
      obtain ⟨hid, hprio, haction, hcrypto⟩ := (policyBase_carries hbase).1
      exact .some ⟨hid, hprio, haction, hcrypto⟩
    · have hnone : (expandRow base (readPolicyRow fillKey r.texts)).find? (passAccepts t anyPass) =
          none := by
        rw [← Option.not_isSome_iff_eq_none, List.find?_isSome]
        exact fun h => hcovers (hiff.mp h)
      rw [List.find?_cons_of_neg (by simpa using hcovers), hnone, Option.none_or]
      exact hmore t anyPass

/-! ## The policies of a merged profile -/

/-- The policies of a profile, in its order. -/
def profilePolicies (cfg : AppConfig) (p : ProfileConfig) : List CryptoPolicy :=
  p.policyIndices.filterMap (atIndex? cfg.policies)

/-- **The selection** goes through the policies of the profile. -/
theorem configSelectCryptoPolicy_find {cfg : AppConfig} {k : ℕ} {p : ProfileConfig}
    (hp : cfg.profiles[k]? = some p) :
    (configSelectCryptoPolicy cfg k t).bind (atIndex? cfg.policies) =
      ((profilePolicies cfg p).find? (passAccepts t false)).or
        ((profilePolicies cfg p).find? (passAccepts t true)) := by
  have htest : ∀ anyPass, passTest cfg t anyPass =
      fun pi => (atIndex? cfg.policies pi).any (passAccepts t anyPass) := by
    intro anyPass
    funext pi
    rw [passTest]
    cases atIndex? cfg.policies pi with
    | none => rfl
    | some cp => rfl
  rw [configSelectCryptoPolicy_eq hp, selectPass_eq, selectPass_eq, profilePolicies,
    List.find?_filterMap, List.find?_filterMap, ← htest, ← htest]
  cases hfirst : p.policyIndices.find? (passTest cfg t false) with
  | none => rfl
  | some pi =>
    obtain ⟨cp, hcp, -⟩ := passTest_iff.mp (List.find?_some hfirst)
    rw [Option.some_or, Option.bind_some, hcp]
    rfl

theorem rel_comp {α β γ : Type} {R : α → β → Prop} {S : β → γ → Prop} {T : α → γ → Prop}
    (hT : ∀ x y z, R x y → S y z → T x z) {a : Option α} {b : Option β} {c : Option γ}
    (h : Option.Rel R a b) (h' : Option.Rel S b c) : Option.Rel T a c := by
  cases h with
  | none =>
    cases h'
    exact .none
  | some hxy =>
    cases h' with
    | some hyz => exact .some (hT _ _ _ hxy hyz)

theorem rel_or {α β : Type} {R : α → β → Prop} {a a' : Option α} {b b' : Option β}
    (h : Option.Rel R a b) (h' : Option.Rel R a' b') : Option.Rel R (a.or a') (b.or b') := by
  cases h with
  | none => exact h'
  | some hxy => exact .some hxy

theorem rel_find? {α : Type} {R : α → α → Prop} {p : α → Bool} (hp : ∀ x y, R x y → p y = p x)
    {xs ys : List α} (h : List.Forall₂ R xs ys) : Option.Rel R (xs.find? p) (ys.find? p) := by
  induction h with
  | nil => exact .none
  | @cons x y xs ys hxy _ ih =>
    rw [List.find?_cons, List.find?_cons, hp x y hxy]
    cases p x with
    | true => exact .some hxy
    | false => exact ih

theorem filterMap_atIndex?_range' {α : Type} : ∀ l before : List α,
    ((List.range' before.length l.length).map Int.ofNat).filterMap (atIndex? (before ++ l)) = l := by
  intro l
  induction l with
  | nil => exact fun _ => rfl
  | cons x l ih =>
    intro before
    have hx : atIndex? (before ++ x :: l) (Int.ofNat before.length) = some x := by
      simp [atIndex?]
    have hrest := ih (before ++ [x])
    rw [List.length_append, List.length_singleton, List.append_assoc, List.singleton_append] at hrest
    rw [List.length_cons, List.range'_succ, List.map_cons, List.filterMap_cons, hx]
    exact congrArg (x :: ·) hrest

theorem configLoadFromDb_profile {rows : ProfileRows} {cfg : AppConfig}
    (h : configLoadFromDb rows = some cfg) :
    ∃ p, cfg.profiles = [p] ∧ profilePolicies cfg p = cfg.policies := by
  simp only [configLoadFromDb, loadLocalRows, loadWanRows] at h
  split at h
  · cases h
  rename_i c₁ hlocal
  split_ifs at hlocal
  cases hlocal
  split at h
  · cases h
  rename_i c₂ hwan
  split_ifs at hwan
  cases hwan
  split at h
  · cases h
  rename_i c₃ hprofile
  obtain ⟨hpolicies, -⟩ := applyCryptoDerivedFromPolicies_frame c₃
  obtain ⟨hprofiles, -⟩ := applyCryptoDerivedFromPolicies_lists c₃
  split_ifs at h
  cases h
  simp only [loadProfilesAndPolicies] at hprofile
  split at hprofile
  · cases hprofile
  rename_i policies hload
  cases hprofile
  refine ⟨_, hprofiles, ?_⟩
  rw [profilePolicies, hpolicies]
  exact filterMap_atIndex?_range' policies []

theorem forall₂_linked {α : Type} {R : α → α → Prop} {l l' : List α} {is js : List ℤ}
    (h : List.Forall₂ (Linked R l l') is js) :
    List.Forall₂ R (is.filterMap (atIndex? l)) (js.filterMap (atIndex? l')) := by
  induction h with
  | nil => exact .nil
  | cons hij _ ih =>
    obtain ⟨x, y, hx, hy, hR⟩ := hij
    rw [List.filterMap_cons, List.filterMap_cons, hx, hy]
    exact .cons hR ih

/-- **The merged profiles** have the policies that their rows are loaded as, but for the wire
ids. -/
theorem buildMergedConfig_profilePolicies {profiles : List ProfileRows} {cfg : AppConfig}
    (h : buildMergedConfig profiles = some cfg) :
    List.Forall₂ (fun rows q => ∃ policies,
      loadPolicyRows WireIds.start [] rows.policies = some policies ∧
        List.Forall₂ SamePolicyButId policies (profilePolicies cfg q)) profiles cfg.profiles := by
  simp only [buildMergedConfig] at h
  split at h
  · cases h
  rename_i merged hmerged
  split_ifs at h
  cases h
  obtain ⟨srcs, hload, hok, -, hmerge⟩ := mergeProfiles_eq_some hmerged
  obtain ⟨-, -, -, -, qs, hqs, hpreserved⟩ := mergeConfigs_spec hok mergedOk_start hmerge
  obtain rfl : merged.profiles = qs := hqs
  have hpolicies : ∀ q, profilePolicies (mergedCrypto merged) q = profilePolicies merged q :=
    fun q => by rw [profilePolicies, (mergedCrypto_frame merged).1, profilePolicies]
  simp only [mergedCrypto_profiles, hpolicies]
  clear hmerged hmerge hok
  generalize merged.profiles = qs at hpreserved ⊢
  induction hload generalizing qs with
  | nil =>
    cases hpreserved
    exact .nil
  | @cons rows src profiles srcs hsrc _ ih =>
    obtain ⟨p, hp, hall⟩ := configLoadFromDb_profile hsrc
    rw [sourceProfiles, List.flatMap_cons, hp] at hpreserved
    cases hpreserved with
    | @cons _ q _ qs hq hrest =>
      refine .cons ⟨src.policies, (configLoadFromDb_eq_some hsrc).1, ?_⟩ (ih _ hrest)
      have hlinked := forall₂_linked hq.policies
      rwa [← profilePolicies, hall] at hlinked

end

/-- Everything between two networks is encrypted at layer 3, and HTTPS at layer 4. -/
def webRules : List Rule :=
  [{ id := 300
     priority := 1
     action := .l3
     proto := none
     src := twoNetworks.take 1
     invertSrc := false
     dst := twoNetworks.drop 1
     invertDst := false
     srcPorts := []
     dstPorts := []
     method := none
     encryptionKey := none
     nonce := none },
   { id := 7
     priority := 2
     action := .l4
     proto := some .tcp
     src := []
     invertSrc := false
     dst := [⟨192, 168, 1, 1, Fin.last 32⟩]
     invertDst := false
     srcPorts := []
     dstPorts := [.port 443, .range 8000 8080 (by decide)]
     method := some ⟨.ctr, .aes256⟩
     encryptionKey := none
     nonce := some 16 }]

/-- Without a key text the key is zero. -/
def noKeyText (_ : Option Str) (_ : ℕ) : Key := Key.zero

def webTable : ProfileRows :=
  ⟨1, "web", ["lan0"], [⟨"wan0", 0, 1⟩], webRules.map fun r => readPolicyRow noKeyText r.texts⟩

end NetEncryptor

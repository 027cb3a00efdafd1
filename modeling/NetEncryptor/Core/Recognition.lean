import NetEncryptor.Core.Fragment
import NetEncryptor.Crypto.Dispatch
import NetEncryptor.Crypto.Layer4Fragment

/-!
# Recognition and the thread's last nonce size

`frag_is_fragment`, `frag_is_fragment_l4` and `crypto_l3_extract_policy_id` find a policy by its
own nonce size, but measure the tunnel header by the size that the thread used last.  Each of them
is a decision that does not depend on the thread, followed by a read or a test at an offset that
does (`fragIsFragment_eq`, `fragIsFragmentL4_eq`, `cryptoL3ExtractPolicyId_eq`).

`recognition_iff` says for which nonce sizes this makes a difference.  At another size than the
policy's own a fragment may show its tag by coincidence, but of the fragments of one content under
all packet ids at most one does (`Layer4FragFrame.nonceSize_eq`).
-/

namespace NetEncryptor

/-- The thread's parameters with another nonce size left behind. -/
def CryptoParams.withNonceSize (P : CryptoParams) (n : ℕ) : CryptoParams := { P with nonceSize := n }

@[simp] theorem CryptoParams.withNonceSize_tunnelHdrSize (P : CryptoParams) (n : ℕ) :
    (P.withNonceSize n).tunnelHdrSize = n + 2 := rfl

/-- The tag at an offset of the frame, if it is in the frame and its index is `0` or `1`. -/
def fragTagAt (pkt : Packet) (pktLen tagOff : ℕ) : Option (ℕ × UInt8) :=
  if pktLen < tagOff + fragTagSize then none else fragReadHdr pkt tagOff

theorem fragTagAt_eq_some_iff {pkt : Packet} {pktLen tagOff pktId : ℕ} {fragIndex : UInt8} :
    fragTagAt pkt pktLen tagOff = some (pktId, fragIndex) ↔
      tagOff + fragTagSize ≤ pktLen ∧ fragIndex.toNat ≤ 1 ∧ pkt.be16 tagOff = pktId ∧
        pkt (tagOff + 2) = fragIndex := by
  unfold fragTagAt fragReadHdr readFragPktId readFragIndex
  split_ifs with hlen hidx
  · exact iff_of_false (by simp) fun h => absurd h.1 (by omega)
  · exact iff_of_false (by simp) fun h => absurd (h.2.2.2 ▸ h.2.1) (by omega)
  · rw [Option.some.injEq, Prod.mk.injEq]
    exact ⟨fun h => ⟨by omega, h.2 ▸ by omega, h⟩, fun h => h.2.2⟩

/-! ## What does not depend on the thread -/

section

variable (Q : CryptoParams) (cfg : AppConfig) (pkt : Packet) (pktLen : ℕ)

/-- An IPv4 frame of the fake protocol with the layer-3 fragment magic and the id behind a nonce of
some policy. -/
def LooksLikeFragment : Prop :=
  fragRequireIpv4 pkt pktLen = some (ihlAt pkt ethHeaderSize) ∧ pkt ipv4ProtoOff = Q.fakeProtocol ∧
    ∃ cp ∈ cfg.policies.take maxCryptoPolicies,
      isFragmentL3Under cp pkt pktLen (ethHeaderSize + ihlAt pkt ethHeaderSize) = true

/-- An IPv4 frame of TCP or UDP with the layer-4 fragment magic and the id behind a nonce of some
policy. -/
def LooksLikeFragmentL4 : Prop :=
  (14 + 20 + 8 ≤ pktLen ∧ pktIsIpv4Eth pkt ∧ (pkt ipv4ProtoOff = 6 ∨ pkt ipv4ProtoOff = 17) ∧
      20 ≤ ihlAt pkt ethHeaderSize) ∧
    ∃ cp ∈ cfg.policies.take maxCryptoPolicies,
      isFragmentL4Under cp pkt pktLen (ethHeaderSize + ihlAt pkt ethHeaderSize + l4WirePortLen) =
        true

instance : Decidable (LooksLikeFragment Q cfg pkt pktLen) := inferInstanceAs (Decidable (_ ∧ _))

instance : Decidable (LooksLikeFragmentL4 cfg pkt pktLen) := inferInstanceAs (Decidable (_ ∧ _))

/-- The policy that the layer-3 extractor finds in an IPv4 frame of the fake protocol. -/
def l3PolicyOf : Option CryptoPolicy :=
  if pktIsIpv4 pkt pktLen ∧ 20 ≤ ihlAt pkt ethHeaderSize ∧
      ethHeaderSize + ihlAt pkt ethHeaderSize + 1 ≤ pktLen ∧ pkt ipv4ProtoOff = l3Marker Q then
    (cfg.policies.take maxCryptoPolicies).find? fun cp =>
      isL3TunnelOf cp pkt pktLen (ethHeaderSize + ihlAt pkt ethHeaderSize)
  else none

end

section

variable {Q : CryptoParams} {cfg : AppConfig} {pkt : Packet} {pktLen : ℕ}

theorem fragRequireIpv4_ihl {ihl : ℕ} (h : fragRequireIpv4 pkt pktLen = some ihl) :
    ihl = ihlAt pkt ethHeaderSize := by
  unfold fragRequireIpv4 at h
  split_ifs at h
  exact (ipv4HdrLenAt_eq_some_iff.mp h).1

/-- `frag_is_fragment` reads the tag of what looks like a fragment behind a header of the thread's
nonce size. -/
theorem fragIsFragment_eq :
    fragIsFragment Q cfg pkt pktLen =
      if LooksLikeFragment Q cfg pkt pktLen then
        fragTagAt pkt pktLen (ethHeaderSize + ihlAt pkt ethHeaderSize + Q.tunnelHdrSize)
      else none := by
  unfold fragIsFragment fragTagAt
  by_cases hlooks : LooksLikeFragment Q cfg pkt pktLen
  · obtain ⟨hreq, hproto, cp, hcp, htest⟩ := id hlooks
    obtain ⟨cp', hfind⟩ := Option.isSome_iff_exists.mp (List.find?_isSome (p := fun cp =>
      isFragmentL3Under cp pkt pktLen (ethHeaderSize + ihlAt pkt ethHeaderSize))|>.mpr
        ⟨cp, hcp, htest⟩)
    rw [if_pos hlooks, hreq]
    simp only [hfind]
    rw [if_neg (not_not.mpr hproto)]
  · rw [if_neg hlooks]
    cases hreq : fragRequireIpv4 pkt pktLen with
    | none => rfl
    | some ihl =>
      obtain rfl := fragRequireIpv4_ihl hreq
      by_cases hproto : pkt ipv4ProtoOff = Q.fakeProtocol
      · have hfind : (cfg.policies.take maxCryptoPolicies).find? (fun cp =>
            isFragmentL3Under cp pkt pktLen (ethHeaderSize + ihlAt pkt ethHeaderSize)) = none :=
          List.find?_eq_none.mpr fun cp hcp htest => hlooks ⟨hreq, hproto, cp, hcp, htest⟩
        simp only [hfind, ite_self]
      · exact if_pos hproto

theorem fragIsFragmentL4_eq :
    fragIsFragmentL4 Q cfg pkt pktLen =
      if LooksLikeFragmentL4 cfg pkt pktLen then
        fragTagAt pkt pktLen
          (ethHeaderSize + ihlAt pkt ethHeaderSize + l4WirePortLen + Q.tunnelHdrSize)
      else none := by
  unfold fragIsFragmentL4 fragTagAt
  by_cases hlooks : LooksLikeFragmentL4 cfg pkt pktLen
  · obtain ⟨⟨hlen, hip, hproto, h₂₀⟩, cp, hcp, htest⟩ := id hlooks
    obtain ⟨cp', hfind⟩ := Option.isSome_iff_exists.mp (List.find?_isSome (p := fun cp =>
      isFragmentL4Under cp pkt pktLen
        (ethHeaderSize + ihlAt pkt ethHeaderSize + l4WirePortLen))|>.mpr ⟨cp, hcp, htest⟩)
    rw [if_pos hlooks, if_neg (by omega), if_neg (not_not.mpr hip), if_neg (by tauto),
      if_neg (by omega)]
    simp only [hfind]
  · rw [if_neg hlooks]
    split_ifs with h₁ h₂ h₃ h₄
    · rfl
    · rfl
    · rfl
    · have hfind : (cfg.policies.take maxCryptoPolicies).find? (fun cp => isFragmentL4Under cp pkt
          pktLen (ethHeaderSize + ihlAt pkt ethHeaderSize + l4WirePortLen)) = none :=
        List.find?_eq_none.mpr fun cp hcp htest =>
          hlooks ⟨⟨by omega, h₂, by tauto, by omega⟩, cp, hcp, htest⟩
      simp only [hfind, ite_self]
    · rfl

theorem fragTagAt_of_isFragmentL4 {x : ℕ × UInt8} (h : fragIsFragmentL4 Q cfg pkt pktLen = some x) :
    fragTagAt pkt pktLen (ethHeaderSize + ihlAt pkt ethHeaderSize + l4WirePortLen +
      Q.tunnelHdrSize) = some x := by
  rw [fragIsFragmentL4_eq] at h
  split_ifs at h
  exact h

theorem cryptoL3ExtractPolicyId_eq :
    cryptoL3ExtractPolicyId Q cfg pkt pktLen =
      if ethHeaderSize + ihlAt pkt ethHeaderSize + Q.tunnelHdrSize ≤ pktLen then
        (l3PolicyOf Q cfg pkt pktLen).map CryptoPolicy.idByte
      else none := by
  unfold cryptoL3ExtractPolicyId l3PolicyOf
  by_cases hguard : pktIsIpv4 pkt pktLen ∧ 20 ≤ ihlAt pkt ethHeaderSize ∧
      ethHeaderSize + ihlAt pkt ethHeaderSize + 1 ≤ pktLen ∧ pkt ipv4ProtoOff = l3Marker Q
  · obtain ⟨hip, h₂₀, hlen, hproto⟩ := id hguard
    simp only [if_pos hguard]
    rw [if_neg (not_not.mpr hip), if_neg (by omega), if_neg (not_not.mpr hproto)]
    split_ifs <;> first | rfl | omega
  · simp only [if_neg hguard, Option.map_none, ite_self]
    split_ifs with h₁ h₂ h₃ h₄
    · rfl
    · rfl
    · rfl
    · exact absurd ⟨h₁, by omega, by omega, not_not.mp h₃⟩ hguard
    · rfl

end

/-! ## The policies that were found -/

theorem isFragmentL3Under_policy {cp : CryptoPolicy} {pkt : Packet} {len tunnelOff : ℕ}
    (h : isFragmentL3Under cp pkt len tunnelOff = true) :
    cp.action = actionEncryptL3 ∧ 0 < cp.nonceSize := by
  unfold isFragmentL3Under isTunnelFragmentUnder at h
  simp only [Bool.and_eq_true, beq_iff_eq, decide_eq_true_eq] at h
  exact h.1.1.1

theorem l3PolicyOf_eq_some {Q : CryptoParams} {cfg : AppConfig} {cp : CryptoPolicy} {pkt : Packet}
    {len : ℕ} (h : l3PolicyOf Q cfg pkt len = some cp) :
    cp ∈ cfg.policies.take maxCryptoPolicies ∧ cp.action = actionEncryptL3 ∧ 0 < cp.nonceSize ∧
      ethHeaderSize + ihlAt pkt ethHeaderSize + (cp.nonceSize + 2) ≤ len := by
  unfold l3PolicyOf at h
  split_ifs at h
  have htest := List.find?_some h
  unfold isL3TunnelOf at htest
  simp only [Bool.and_eq_true, beq_iff_eq, decide_eq_true_eq] at htest
  obtain ⟨⟨⟨hact, hpos⟩, hlen⟩, -⟩ := htest
  exact ⟨List.mem_of_find?_eq_some h, hact, hpos, by omega⟩

/-! ## Fragments that were made -/

section

variable {evp : Evp} {P Q : CryptoParams} {ctx : PacketCryptoCtx} {cfg : AppConfig}
  {cp : CryptoPolicy} {counter n pktId : ℕ} {p plain q : Packet} {fragIndex : UInt8}

theorem Layer4FragFrame.looksLikeFragmentL4
    (h : Layer4FragFrame evp P ctx counter p plain (ihlAt p ethHeaderSize) n pktId fragIndex q)
    (hcp : cp ∈ cfg.policies.take maxCryptoPolicies) (hact : cp.action = actionEncryptL4)
    (hid : P.policyId = cp.idByte) (hns : P.nonceSize = cp.nonceSize) (hpos : 0 < cp.nonceSize)
    (hip : pktIsIpv4Eth p) (h₂₀ : 20 ≤ ihlAt p ethHeaderSize)
    (hproto : p ipv4ProtoOff = 6 ∨ p ipv4ProtoOff = 17) :
    LooksLikeFragmentL4 cfg q (ethHeaderSize + ihlAt p ethHeaderSize + l4WirePortLen +
      P.tunnelHdrSize + fragTagSize + n + P.tagSize) := by
  have heth : ethHeaderSize = 14 := rfl
  have hft : fragTagSize = 4 := rfl
  have hport : l4WirePortLen = 4 := rfl
  have hth : P.tunnelHdrSize = P.nonceSize + 2 := rfl
  have hihl := h.ihlAt_eq rfl
  refine ⟨⟨by omega, h.isIpv4Eth hip, ?_, by omega⟩, cp, hcp, ?_⟩
  · rw [h.proto_eq h₂₀]
    exact hproto
  · unfold isFragmentL4Under isTunnelFragmentUnder
    rw [hihl, ← hns, h.policy, h.magic, hid, hact]
    simp only [beq_self_eq_true, Bool.true_and, Bool.and_true, Bool.and_eq_true, decide_eq_true_eq]
    omega

theorem Layer4FragFrame.fragTagAt_eq
    (h : Layer4FragFrame evp P ctx counter p plain (ihlAt p ethHeaderSize) n pktId fragIndex q)
    (hns : Q.nonceSize = P.nonceSize) (hidx : fragIndex.toNat ≤ 1) :
    fragTagAt q (ethHeaderSize + ihlAt p ethHeaderSize + l4WirePortLen + P.tunnelHdrSize +
        fragTagSize + n + P.tagSize)
      (ethHeaderSize + ihlAt p ethHeaderSize + l4WirePortLen + Q.tunnelHdrSize) =
      some (pktId % 65536, fragIndex) := by
  have hth : Q.tunnelHdrSize = P.tunnelHdrSize := by unfold CryptoParams.tunnelHdrSize; rw [hns]
  unfold fragTagAt fragReadHdr
  rw [hth, if_neg (by omega), h.fragIndex_eq, h.pktId_eq, if_neg (by omega)]

/-- Two fragments that differ in their packet ids only, both recognised: the thread used the
policy's nonce size last. -/
theorem Layer4FragFrame.nonceSize_eq {pktId' len len' : ℕ} {q' : Packet}
    (h : Layer4FragFrame evp P ctx counter p plain (ihlAt p ethHeaderSize) n pktId fragIndex q)
    (h' : Layer4FragFrame evp P ctx counter p plain (ihlAt p ethHeaderSize) n pktId' fragIndex q')
    (hsame : ∀ j ≥ ethHeaderSize + ihlAt p ethHeaderSize + l4WirePortLen,
      j ≠ ethHeaderSize + ihlAt p ethHeaderSize + l4WirePortLen + P.tunnelHdrSize →
      j ≠ ethHeaderSize + ihlAt p ethHeaderSize + l4WirePortLen + P.tunnelHdrSize + 1 → q j = q' j)
    (hne : pktId % 65536 ≠ pktId' % 65536)
    (hq : fragIsFragmentL4 Q cfg q len = some (pktId % 65536, fragIndex))
    (hq' : fragIsFragmentL4 Q cfg q' len' = some (pktId' % 65536, fragIndex)) :
    Q.nonceSize = P.nonceSize := by
  have hP : P.tunnelHdrSize = P.nonceSize + 2 := rfl
  have hQ : Q.tunnelHdrSize = Q.nonceSize + 2 := rfl
  have hread := fragTagAt_eq_some_iff.mp (fragTagAt_of_isFragmentL4 hq)
  have hread' := fragTagAt_eq_some_iff.mp (fragTagAt_of_isFragmentL4 hq')
  rw [h.ihlAt_eq rfl] at hread
  rw [h'.ihlAt_eq rfl] at hread'
  have hid : q.be16 _ = pktId % 65536 := h.pktId_eq
  have hid' : q'.be16 _ = pktId' % 65536 := h'.pktId_eq
  have hoff := Buffer.eq_of_be16_eq (by omega) (by omega) hsame (by rw [hid, hid']; exact hne)
    (hread.2.2.1.trans hid.symm) (hread'.2.2.1.trans hid'.symm)
  omega

end

/-! ## A frame for two nonce sizes -/

/-- In a frame that looks like a fragment of the policy no tag can stand behind a header of `k`
bytes of nonce: the byte for its index is the magic or the policy's id. -/
def CryptoPolicy.HidesTag (cp : CryptoPolicy) (k : ℕ) : Prop :=
  k + 3 = cp.nonceSize ∨ k + 4 = cp.nonceSize ∧ 1 < cp.idByte.toNat

/-- A frame with a header of the policy and two bytes where a tag behind a nonce of `m` bytes, and
one behind a nonce of `n` bytes, have their indices. -/
def twoSizesFrame (proto : UInt8) (cp : CryptoPolicy) (m n : ℕ) : Packet := fun j =>
  if j = 12 then 0x08
  else if j = 14 then 0x45
  else if j = ipv4ProtoOff then proto
  else if j = 34 + cp.nonceSize then cp.idByte
  else if j = 34 + cp.nonceSize + 1 then cryptoL3FragMagic
  else if j = 34 + m + 4 then (if cp.idByte = 0 then 1 else 0)
  else if j = 34 + n + 4 then 2
  else 0

section

variable {Q : CryptoParams} {cfg : AppConfig} {cp : CryptoPolicy} {proto : UInt8} {m n k len : ℕ}

theorem twoSizesFrame_ihlAt : ihlAt (twoSizesFrame proto cp m n) ethHeaderSize = 20 := by
  unfold ihlAt twoSizesFrame
  rw [if_neg (by decide), if_pos (by decide)]
  decide

theorem twoSizesFrame_isIpv4 (hlen : 34 ≤ len) : pktIsIpv4 (twoSizesFrame proto cp m n) len := by
  have hpo : ipv4ProtoOff = 23 := rfl
  refine ⟨hlen, pktIsIpv4Eth_iff.mpr ⟨if_pos rfl, ?_⟩⟩
  unfold twoSizesFrame
  rw [if_neg (by omega), if_neg (by omega), if_neg (by omega), if_neg (by omega),
    if_neg (by omega), if_neg (by omega), if_neg (by omega)]

theorem twoSizesFrame_idByte :
    twoSizesFrame proto cp m n (ethHeaderSize + 20 + cp.nonceSize) = cp.idByte := by
  have heth : ethHeaderSize = 14 := rfl
  have hpo : ipv4ProtoOff = 23 := rfl
  unfold twoSizesFrame
  rw [if_neg (by omega), if_neg (by omega), if_neg (by omega), if_pos (by omega)]

theorem twoSizesFrame_magic :
    twoSizesFrame proto cp m n (ethHeaderSize + 20 + cp.nonceSize + 1) = cryptoL3FragMagic := by
  have heth : ethHeaderSize = 14 := rfl
  have hpo : ipv4ProtoOff = 23 := rfl
  unfold twoSizesFrame
  rw [if_neg (by omega), if_neg (by omega), if_neg (by omega), if_neg (by omega),
    if_pos (by omega)]

theorem twoSizesFrame_looksLikeFragment (hcp : cp ∈ cfg.policies.take maxCryptoPolicies)
    (hact : cp.action = actionEncryptL3) (hpos : 0 < cp.nonceSize)
    (hlen : 34 + cp.nonceSize + 1 < len) :
    LooksLikeFragment Q cfg (twoSizesFrame Q.fakeProtocol cp m n) len := by
  have heth : ethHeaderSize = 14 := rfl
  refine ⟨?_, rfl, cp, hcp, ?_⟩
  · unfold fragRequireIpv4
    rw [if_pos (twoSizesFrame_isIpv4 (by omega)), ipv4HdrLenAt_eq_some_iff, twoSizesFrame_ihlAt]
    omega
  · unfold isFragmentL3Under isTunnelFragmentUnder
    rw [twoSizesFrame_ihlAt, twoSizesFrame_idByte, twoSizesFrame_magic, hact]
    simp only [beq_self_eq_true, Bool.true_and, Bool.and_true, Bool.and_eq_true, decide_eq_true_eq]
    omega

theorem twoSizesFrame_index_fst (h : m + 3 ≠ cp.nonceSize) :
    twoSizesFrame proto cp m n (ethHeaderSize + 20 + (m + 2) + 2) =
      if m + 4 = cp.nonceSize then cp.idByte else if cp.idByte = 0 then 1 else 0 := by
  have heth : ethHeaderSize = 14 := rfl
  have hpo : ipv4ProtoOff = 23 := rfl
  unfold twoSizesFrame
  rw [if_neg (by omega), if_neg (by omega), if_neg (by omega)]
  by_cases hid : m + 4 = cp.nonceSize
  · rw [if_pos hid, if_pos (by omega)]
  · rw [if_neg hid, if_neg (by omega), if_neg (by omega), if_pos (by omega)]

theorem twoSizesFrame_index_snd (hmn : m ≠ n) :
    twoSizesFrame proto cp m n (ethHeaderSize + 20 + (n + 2) + 2) =
      if n + 4 = cp.nonceSize then cp.idByte
      else if n + 3 = cp.nonceSize then cryptoL3FragMagic else 2 := by
  have heth : ethHeaderSize = 14 := rfl
  have hpo : ipv4ProtoOff = 23 := rfl
  unfold twoSizesFrame
  rw [if_neg (by omega), if_neg (by omega), if_neg (by omega)]
  by_cases hid : n + 4 = cp.nonceSize
  · rw [if_pos hid, if_pos (by omega)]
  · rw [if_neg hid, if_neg (by omega)]
    by_cases hmagic : n + 3 = cp.nonceSize
    · rw [if_pos hmagic, if_pos (by omega)]
    · rw [if_neg hmagic, if_neg (by omega), if_neg (by omega), if_pos (by omega)]

theorem twoSizesFrame_tag_ne (hmn : m ≠ n) (hm : ¬ cp.HidesTag m) (hlen : 34 + m + 6 ≤ len) :
    fragTagAt (twoSizesFrame proto cp m n) len (ethHeaderSize + 20 + (m + 2)) ≠
      fragTagAt (twoSizesFrame proto cp m n) len (ethHeaderSize + 20 + (n + 2)) := by
  have heth : ethHeaderSize = 14 := rfl
  have hft : fragTagSize = 4 := rfl
  obtain ⟨hm₃, hm₄⟩ := not_or.mp hm
  have hfst : twoSizesFrame proto cp m n (ethHeaderSize + 20 + (m + 2) + 2) = _ :=
    twoSizesFrame_index_fst hm₃
  have hsnd : twoSizesFrame proto cp m n (ethHeaderSize + 20 + (n + 2) + 2) = _ :=
    twoSizesFrame_index_snd hmn
  generalize twoSizesFrame proto cp m n = w at hfst hsnd ⊢
  have hle : (w (ethHeaderSize + 20 + (m + 2) + 2)).toNat ≤ 1 := by
    rw [hfst]
    split_ifs with hid
    · exact not_lt.mp fun h => hm₄ ⟨hid, h⟩
    · decide
    · decide
  intro heq
  have hread := (fragTagAt_eq_some_iff.mp
    (heq.symm.trans (fragTagAt_eq_some_iff.mpr ⟨by omega, hle, rfl, rfl⟩))).2.2.2
  rw [hread] at hsnd
  rw [hsnd] at hfst hle
  -- what the other size reads is the id, or above 1
  by_cases hn₄ : n + 4 = cp.nonceSize
  · rw [if_pos hn₄, if_neg (by omega)] at hfst
    split_ifs at hfst with hid
    · rw [hid] at hfst
      exact absurd hfst (by decide)
    · exact hid hfst
  · rw [if_neg hn₄] at hle
    split_ifs at hle
    · exact absurd hle (by decide)
    · exact absurd hle (by decide)

theorem CryptoPolicy.HidesTag.fragTagAt_eq_none {pkt : Packet} {tunnelOff : ℕ}
    (h : cp.HidesTag k) (htest : isFragmentL3Under cp pkt len tunnelOff = true) :
    fragTagAt pkt len (tunnelOff + (k + 2)) = none := by
  have hmagic : cryptoL3FragMagic.toNat = 92 := rfl
  unfold isFragmentL3Under isTunnelFragmentUnder at htest
  simp only [Bool.and_eq_true, beq_iff_eq] at htest
  obtain ⟨⟨-, hmag⟩, hid⟩ := htest
  refine Option.eq_none_iff_forall_ne_some.mpr fun x hx => ?_
  obtain ⟨-, hidx, -, hread⟩ := fragTagAt_eq_some_iff.mp hx
  rw [← hread] at hidx
  rcases h with hk | ⟨hk, hid₁⟩
  · rw [show tunnelOff + (k + 2) + 2 = tunnelOff + cp.nonceSize + 1 by omega, hmag] at hidx
    omega
  · rw [show tunnelOff + (k + 2) + 2 = tunnelOff + cp.nonceSize by omega, hid] at hidx
    omega

theorem twoSizesFrame_l3PolicyOf_ne_none (hcp : cp ∈ cfg.policies.take maxCryptoPolicies)
    (hact : cp.action = actionEncryptL3) (hpos : 0 < cp.nonceSize)
    (hlen : 34 + cp.nonceSize + 1 < len) :
    l3PolicyOf Q cfg (twoSizesFrame (l3Marker Q) cp m n) len ≠ none := by
  have heth : ethHeaderSize = 14 := rfl
  unfold l3PolicyOf
  rw [twoSizesFrame_ihlAt, if_pos ⟨twoSizesFrame_isIpv4 (by omega), le_rfl, by omega, rfl⟩,
    Option.ne_none_iff_isSome, List.find?_isSome]
  refine ⟨cp, hcp, ?_⟩
  unfold isL3TunnelOf
  rw [twoSizesFrame_idByte, hact]
  simp only [beq_self_eq_true, Bool.true_and, Bool.and_true, Bool.and_eq_true, decide_eq_true_eq]
  omega

end

/-! ## The law -/

theorem fragIsFragment_withNonceSize (cfg : AppConfig) (Q : CryptoParams) (k : ℕ) (pkt : Packet)
    (pktLen : ℕ) : fragIsFragment (Q.withNonceSize k) cfg pkt pktLen =
      if LooksLikeFragment Q cfg pkt pktLen then
        fragTagAt pkt pktLen (ethHeaderSize + ihlAt pkt ethHeaderSize + (k + 2)) else none :=
  fragIsFragment_eq

/-- If another size gives the same recognition, the policies hide the tag. -/
theorem CryptoPolicy.hidesTag_of_agree {cfg : AppConfig} {Q : CryptoParams} {cp : CryptoPolicy}
    {k l : ℕ} (hcp : cp ∈ cfg.policies.take maxCryptoPolicies)
    (hact : cp.action = actionEncryptL3) (hpos : 0 < cp.nonceSize) (hkl : k ≠ l)
    (h : ∀ pkt pktLen, fragIsFragment (Q.withNonceSize k) cfg pkt pktLen =
      fragIsFragment (Q.withNonceSize l) cfg pkt pktLen) : cp.HidesTag k := by
  by_contra hk
  have hprobe := h (twoSizesFrame Q.fakeProtocol cp k l) (34 + cp.nonceSize + k + 6)
  have hlooks : LooksLikeFragment Q cfg (twoSizesFrame Q.fakeProtocol cp k l)
      (34 + cp.nonceSize + k + 6) :=
    twoSizesFrame_looksLikeFragment hcp hact hpos (by omega)
  rw [fragIsFragment_withNonceSize, fragIsFragment_withNonceSize, if_pos hlooks, if_pos hlooks,
    twoSizesFrame_ihlAt] at hprobe
  exact twoSizesFrame_tag_ne hkl hk (by omega) hprobe

theorem fragIsFragment_agree_iff (cfg : AppConfig) (Q : CryptoParams) (m n : ℕ) :
    (∀ pkt pktLen, fragIsFragment (Q.withNonceSize m) cfg pkt pktLen =
        fragIsFragment (Q.withNonceSize n) cfg pkt pktLen) ↔
      m = n ∨ ∀ cp ∈ cfg.policies.take maxCryptoPolicies, cp.action = actionEncryptL3 →
        0 < cp.nonceSize → cp.HidesTag m ∧ cp.HidesTag n := by
  constructor
  · intro h
    refine or_iff_not_imp_left.mpr fun hmn cp hcp hact hpos => ⟨?_, ?_⟩
    · exact CryptoPolicy.hidesTag_of_agree hcp hact hpos hmn h
    · exact CryptoPolicy.hidesTag_of_agree hcp hact hpos (Ne.symm hmn) fun pkt pktLen =>
        (h pkt pktLen).symm
  · rintro (rfl | h) pkt pktLen
    · rfl
    · rw [fragIsFragment_withNonceSize, fragIsFragment_withNonceSize]
      split_ifs with hlooks
      · obtain ⟨-, -, cp, hcp, htest⟩ := hlooks
        obtain ⟨hact, hpos⟩ := isFragmentL3Under_policy htest
        obtain ⟨hm, hn⟩ := h cp hcp hact hpos
        rw [hm.fragTagAt_eq_none htest, hn.fragTagAt_eq_none htest]
      · rfl

theorem cryptoL3ExtractPolicyId_agree_iff (cfg : AppConfig) (Q : CryptoParams) (m n : ℕ) :
    (∀ pkt pktLen, cryptoL3ExtractPolicyId (Q.withNonceSize m) cfg pkt pktLen =
        cryptoL3ExtractPolicyId (Q.withNonceSize n) cfg pkt pktLen) ↔
      m = n ∨ ∀ cp ∈ cfg.policies.take maxCryptoPolicies, cp.action = actionEncryptL3 →
        0 < cp.nonceSize → m ≤ cp.nonceSize ∧ n ≤ cp.nonceSize := by
  have heth : ethHeaderSize = 14 := rfl
  have heq : ∀ k pkt pktLen, cryptoL3ExtractPolicyId (Q.withNonceSize k) cfg pkt pktLen =
      if ethHeaderSize + ihlAt pkt ethHeaderSize + (k + 2) ≤ pktLen then
        (l3PolicyOf Q cfg pkt pktLen).map CryptoPolicy.idByte else none :=
    fun _ _ _ => cryptoL3ExtractPolicyId_eq
  simp only [heq]
  constructor
  · refine fun h => or_iff_not_imp_left.mpr fun hmn cp hcp hact hpos => ?_
    by_contra hlong
    -- the frame ends one byte before a header of the longer nonce does
    have hprobe := h (twoSizesFrame (l3Marker Q) cp m n) (34 + max m n + 1)
    have hprobed : l3PolicyOf Q cfg (twoSizesFrame (l3Marker Q) cp m n) (34 + max m n + 1) ≠ none :=
      twoSizesFrame_l3PolicyOf_ne_none hcp hact hpos (by omega)
    obtain ⟨found, hfound⟩ := Option.ne_none_iff_exists'.mp hprobed
    rw [hfound, twoSizesFrame_ihlAt, Option.map_some] at hprobe
    rcases Nat.lt_or_gt_of_ne hmn with hlt | hlt
    · rw [if_pos (by omega), if_neg (by omega)] at hprobe
      exact Option.some_ne_none _ hprobe
    · rw [if_neg (by omega), if_pos (by omega)] at hprobe
      exact Option.some_ne_none _ hprobe.symm
  · rintro (rfl | h) pkt pktLen
    · rfl
    · cases hfound : l3PolicyOf Q cfg pkt pktLen with
      | none => simp only [Option.map_none, ite_self]
      | some cp =>
        obtain ⟨hcp, hact, hpos, hlen⟩ := l3PolicyOf_eq_some hfound
        obtain ⟨hm, hn⟩ := h cp hcp hact hpos
        rw [if_pos (by omega), if_pos (by omega)]

/-- **What the thread left behind.** The layer-4 fragments of a content are recognised with the
tags that were written, whatever packet ids they got, exactly when the thread used the policy's
nonce size last.  Two different sizes give the same layer-3 recognition of every frame exactly when
each layer-3 policy hides the tag from both, and the same extraction exactly when none of the two is
longer than the nonce of a layer-3 policy. -/
theorem recognition_iff (cfg : AppConfig) (Q : CryptoParams) :
    (∀ evp P ctx counter cp p plain n pktId₀ fragIndex outBuf outMax (f₀ : Packet × ℕ),
      cp ∈ cfg.policies.take maxCryptoPolicies → cp.action = actionEncryptL4 →
      (cryptoApplyFromPolicy P cp).NonceSizeOk → pktIsIpv4Eth p → 20 ≤ ihlAt p ethHeaderSize →
      (p ipv4ProtoOff = 6 ∨ p ipv4ProtoOff = 17) →
      cryptoLayer4EncryptFragmentSingle evp (cryptoApplyFromPolicy P cp) ctx counter p
        (p.shift ethHeaderSize) (ihlAt p ethHeaderSize)
        (p.shift (ethHeaderSize + ihlAt p ethHeaderSize)) plain n pktId₀ fragIndex outBuf outMax =
          some f₀ →
      ((∀ pktId f, cryptoLayer4EncryptFragmentSingle evp (cryptoApplyFromPolicy P cp) ctx counter p
          (p.shift ethHeaderSize) (ihlAt p ethHeaderSize)
          (p.shift (ethHeaderSize + ihlAt p ethHeaderSize)) plain n pktId fragIndex outBuf outMax =
            some f →
          fragIsFragmentL4 Q cfg f.1 f.2 = some (pktId % 65536, fragIndex)) ↔
        Q.nonceSize = cp.nonceSize ∧ fragIndex.toNat ≤ 1)) ∧
    (∀ m n,
      (∀ pkt pktLen, fragIsFragment (Q.withNonceSize m) cfg pkt pktLen =
          fragIsFragment (Q.withNonceSize n) cfg pkt pktLen) ↔
        m = n ∨ ∀ cp ∈ cfg.policies.take maxCryptoPolicies, cp.action = actionEncryptL3 →
          0 < cp.nonceSize → cp.HidesTag m ∧ cp.HidesTag n) ∧
    ∀ m n,
      (∀ pkt pktLen, cryptoL3ExtractPolicyId (Q.withNonceSize m) cfg pkt pktLen =
          cryptoL3ExtractPolicyId (Q.withNonceSize n) cfg pkt pktLen) ↔
        m = n ∨ ∀ cp ∈ cfg.policies.take maxCryptoPolicies, cp.action = actionEncryptL3 →
          0 < cp.nonceSize → m ≤ cp.nonceSize ∧ n ≤ cp.nonceSize := by
  refine ⟨?_, fragIsFragment_agree_iff cfg Q, cryptoL3ExtractPolicyId_agree_iff cfg Q⟩
  intro evp P ctx counter cp p plain n pktId₀ fragIndex outBuf outMax f₀ hcp hact hns hip h₂₀ hproto
    hf₀
  constructor
  · intro h
    have hrec₀ := h pktId₀ f₀ hf₀
    -- the same content under the next id
    obtain ⟨f₁, hf₁, hsame⟩ :=
      cryptoLayer4EncryptFragmentSingle_pktId hns h₂₀ hf₀ (pktId₀ + 1)
    have hidx := (fragTagAt_eq_some_iff.mp (fragTagAt_of_isFragmentL4 hrec₀)).2.1
    obtain ⟨-, hframe₀⟩ := cryptoLayer4EncryptFragmentSingle_frame hns h₂₀ hf₀
    obtain ⟨-, hframe₁⟩ := cryptoLayer4EncryptFragmentSingle_frame hns h₂₀ hf₁
    exact ⟨hframe₁.nonceSize_eq hframe₀ hsame (by omega) (h _ f₁ hf₁) hrec₀, hidx⟩
  · rintro ⟨hsize, hidx⟩ pktId f hf
    obtain ⟨hlen, hframe⟩ := cryptoLayer4EncryptFragmentSingle_frame hns h₂₀ hf
    have hlooks := hframe.looksLikeFragmentL4 hcp hact rfl rfl hns.pos hip h₂₀ hproto
    rw [fragIsFragmentL4_eq, hlen, if_pos hlooks, hframe.ihlAt_eq rfl]
    exact hframe.fragTagAt_eq hsize hidx

/-- The first 20 bytes behind the ports of the acknowledgement as a fragment with packet id 1. -/
def ackFragmentL4 : Option (Packet × ℕ) :=
  cryptoLayer4EncryptFragmentSingle (sampleEvp sampleKeystream)
    (cryptoApplyFromPolicy (sampleParams .ctr) (samplePolicy actionEncryptL4)) (sampleCtx Key.zero) 0
    ackFrame (ackFrame.shift ethHeaderSize) (ihlAt ackFrame ethHeaderSize)
    (ackFrame.shift (ethHeaderSize + ihlAt ackFrame ethHeaderSize)) (ackFrame.shift 34) 20 1 0
    (fun _ => 0) fragBufSize

/-- The payload of the acknowledgement as a layer-3 fragment with packet id 1. -/
def ackFragmentL3 : Option (Packet × ℕ) :=
  cryptoLayer3EncryptFragmentSingle (sampleEvp sampleKeystream)
    (cryptoApplyFromPolicy (sampleParams .ctr) (samplePolicy actionEncryptL3)) (sampleCtx Key.zero) 0
    ackFrame (ackFrame.shift ethHeaderSize) 20 (ackFrame.shift 34) 20 1 0 (fun _ => 0) fragBufSize

theorem recognition_sameNonceSize :
    ∃ f, ackFragmentL4 = some f ∧
      fragIsFragmentL4 (sampleParams .ctr) (policiesConfig [samplePolicy actionEncryptL4]) f.1 f.2 =
        some (1, 0) := by
  obtain ⟨f, hf⟩ := Option.isSome_iff_exists.mp
    (show ackFragmentL4.isSome = true by decide)
  exact ⟨f, hf, ((recognition_iff (policiesConfig [samplePolicy actionEncryptL4])
    (sampleParams .ctr)).1 _ _ _ _ (samplePolicy actionEncryptL4) _ _ _ _ _ _ _ f (by decide) rfl
    (by decide) (by decide) (by decide) (by decide) hf).mpr ⟨rfl, by decide⟩ 1 f hf⟩

/-- A thread that has used a nonce of four bytes last does not, at layer 4 and at layer 3; one that
has used twelve bytes finds no policy in a frame whose tunnel is a header of six bytes. -/
theorem recognition_depends :
    (∃ f, ackFragmentL4 = some f ∧
      fragIsFragmentL4 ((sampleParams .ctr).withNonceSize 4)
        (policiesConfig [samplePolicy actionEncryptL4]) f.1 f.2 = none) ∧
    (∃ f, ackFragmentL3 = some f ∧
      fragIsFragment ((sampleParams .ctr).withNonceSize 4)
          (policiesConfig [samplePolicy actionEncryptL3]) f.1 f.2 ≠
        fragIsFragment ((sampleParams .ctr).withNonceSize 12)
          (policiesConfig [samplePolicy actionEncryptL3]) f.1 f.2) ∧
    ∃ e, e = cryptoLayer3Encrypt (sampleEvp sampleKeystream)
        (cryptoApplyFromPolicy (sampleParams .ctr) (namedPolicy actionEncryptL3 7 4))
        (sampleCtx Key.zero) 0 ackFrame 34 ∧
      cryptoL3ExtractPolicyId ((sampleParams .ctr).withNonceSize 4)
          (policiesConfig [namedPolicy actionEncryptL3 7 4]) e.2 e.1.toNat ≠
        cryptoL3ExtractPolicyId ((sampleParams .ctr).withNonceSize 12)
          (policiesConfig [namedPolicy actionEncryptL3 7 4]) e.2 e.1.toNat := by
  refine ⟨?_, ?_, _, rfl, by decide⟩
  · exact Option.map_eq_some_iff.mp (show ackFragmentL4.map (fun f =>
      fragIsFragmentL4 ((sampleParams .ctr).withNonceSize 4)
        (policiesConfig [samplePolicy actionEncryptL4]) f.1 f.2) = some none by decide)
  · obtain ⟨f, hf, h⟩ := Option.map_eq_some_iff.mp (show ackFragmentL3.map (fun f =>
      decide (fragIsFragment ((sampleParams .ctr).withNonceSize 4)
          (policiesConfig [samplePolicy actionEncryptL3]) f.1 f.2 =
        fragIsFragment ((sampleParams .ctr).withNonceSize 12)
          (policiesConfig [samplePolicy actionEncryptL3]) f.1 f.2)) = some false by decide)
    exact ⟨f, hf, of_decide_eq_false h⟩

end NetEncryptor

import NetEncryptor.Core.Config
import NetEncryptor.Crypto.Layer3RoundTrip
import NetEncryptor.Crypto.Layer4RoundTrip

/-!
# Finding the policy of a received frame

The two extractors of `crypto_dispatch.c`.  The policy id of a tunnel stands behind a nonce whose
length only the policy knows, so an extractor tries the policies in order, each with its own nonce
size, and takes the first one whose id it reads there.

`tunnelBytes` is what a tunnel looks like on the wire.  A policy before the right one is taken in
its place when its id happens to stand at its own offset: in the salt if its nonce is shorter, in
the ciphertext or the tag if it is longer (`CryptoPolicy.NamedInL3`, `CryptoPolicy.NamedInL4`).
-/

namespace NetEncryptor

theorem CryptoPolicy.idByte_injOn {cp cp' : CryptoPolicy} (h : 1 ≤ cp.id ∧ cp.id ≤ 255)
    (h' : 1 ≤ cp'.id ∧ cp'.id ≤ 255) (heq : cp.idByte = cp'.idByte) : cp.id = cp'.id := by
  have := congrArg UInt8.toNat heq
  unfold CryptoPolicy.idByte at this
  rw [UInt8.toNat_ofNat', UInt8.toNat_ofNat'] at this
  omega

/-! ## The extractors -/

/-- The protocol number that layer-3 tunnels have. -/
def l3Marker (P : CryptoParams) : UInt8 := if P.fakeProtocol = 0 then 99 else P.fakeProtocol

/-- The test of one policy in `crypto_l3_extract_policy_id`. -/
def isL3TunnelOf (cp : CryptoPolicy) (pkt : Packet) (pktLen tunnelOff : ℕ) : Bool :=
  cp.action == actionEncryptL3 && decide (0 < cp.nonceSize) &&
    decide (tunnelOff + cp.nonceSize + 1 < pktLen) && pkt (tunnelOff + cp.nonceSize) == cp.idByte

/-- The id; `none` stands for `-1`.  `P` holds the thread's parameters. -/
def cryptoL3ExtractPolicyId (P : CryptoParams) (cfg : AppConfig) (pkt : Packet) (pktLen : ℕ) :
    Option UInt8 :=
  if ¬ pktIsIpv4 pkt pktLen then none
  else
    let ipHdrLen := ihlAt pkt ethHeaderSize
    let tunnelOff := ethHeaderSize + ipHdrLen
    if ipHdrLen < 20 ∨ pktLen < tunnelOff + 1 then none
    else if pkt ipv4ProtoOff ≠ l3Marker P then none
    else if pktLen < tunnelOff + P.tunnelHdrSize then none
    else
      ((cfg.policies.take maxCryptoPolicies).find? fun cp =>
        isL3TunnelOf cp pkt pktLen tunnelOff).map CryptoPolicy.idByte

/-- The test of one policy in `crypto_l4_extract_policy_id_ipv4`. -/
def isL4TunnelOf (cp : CryptoPolicy) (pkt : Packet) (pktLen tunnelOff : ℕ) : Bool :=
  cp.action == actionEncryptL4 && decide (0 < cp.nonceSize) &&
    decide (tunnelOff + cp.nonceSize + 1 < pktLen) &&
    (pkt (tunnelOff + cp.nonceSize + 1) == cryptoL4TunnelMagic ||
      pkt (tunnelOff + cp.nonceSize + 1) == cryptoL4FragMagic) &&
    pkt (tunnelOff + cp.nonceSize) == cp.idByte

/-- The id and the nonce size; `none` stands for `-1`. -/
def cryptoL4ExtractPolicyIdIpv4 (cfg : AppConfig) (pkt : Packet) (pktLen : ℕ) :
    Option (UInt8 × ℕ) :=
  match cryptoEthIpv4Offset pkt pktLen with
  | none => none
  | some l3Off =>
    let ipHdrLen := ihlAt pkt l3Off
    let tunnelOff := l3Off + ipHdrLen + l4WirePortLen
    if pktLen < l3Off + 20 then none
    else if ipHdrLen < 20 ∨ pktLen < l3Off + ipHdrLen + 8 then none
    else if pkt (l3Off + 9) ≠ 6 ∧ pkt (l3Off + 9) ≠ 17 then none
    else if pktLen ≤ tunnelOff then none
    else
      ((cfg.policies.take maxCryptoPolicies).find? fun cp =>
        isL4TunnelOf cp pkt pktLen tunnelOff).map fun cp => (cp.idByte, cp.nonceSize)

/-! ## Tunnels on the wire -/

/-- Nonce, policy id, last header byte, ciphertext and tag. -/
def tunnelBytes (evp : Evp) (P : CryptoParams) (key : Key) (nonce plain : List UInt8)
    (last : UInt8) : List UInt8 :=
  nonce ++ [P.policyId, last] ++ (encryptPayload evp P key nonce plain).2.1 ++
    (encryptPayload evp P key nonce plain).2.2

section Wire

variable {evp : Evp} {P : CryptoParams} {key : Key} {nonce plain : List UInt8} {last : UInt8}
  {q : Packet} {off : ℕ}

theorem length_tunnelBytes (hn : nonce.length = P.nonceSize) :
    (tunnelBytes evp P key nonce plain last).length =
      P.tunnelHdrSize + plain.length + P.tagSize := by
  unfold tunnelBytes CryptoParams.tunnelHdrSize
  simp only [List.length_append, List.length_cons, List.length_nil, length_encryptPayload,
    length_encryptPayload_tag, hn]

theorem TunnelAt.slice_eq (h : TunnelAt evp P key nonce plain last q off) :
    q.slice off (P.tunnelHdrSize + plain.length + P.tagSize) =
      tunnelBytes evp P key nonce plain last := by
  have hheader : q.slice (off + P.nonceSize) 2 = [P.policyId, last] := by
    show [q (off + P.nonceSize + 0), q (off + P.nonceSize + 1)] = _
    rw [Nat.add_zero, h.policy_eq, h.last_eq]
  calc q.slice off (P.tunnelHdrSize + plain.length + P.tagSize)
      = q.slice off P.nonceSize ++ q.slice (off + P.nonceSize) 2 ++
          q.slice (off + P.tunnelHdrSize) plain.length ++
          q.slice (off + P.tunnelHdrSize + plain.length) P.tagSize := by
        unfold CryptoParams.tunnelHdrSize
        rw [Buffer.slice_add, Buffer.slice_add, Buffer.slice_add, Nat.add_assoc off]
    _ = tunnelBytes evp P key nonce plain last := by
        rw [h.nonce_eq, hheader, h.cipher_eq, h.tag_eq]
        rfl

end Wire

/-- The policy's id stands in the tunnel behind a nonce of the policy's size. -/
def CryptoPolicy.NamedInL3 (cp : CryptoPolicy) (tunnel : List UInt8) : Prop :=
  cp.action = actionEncryptL3 ∧ 0 < cp.nonceSize ∧ cp.nonceSize + 1 < tunnel.length ∧
    tunnel[cp.nonceSize]? = some cp.idByte

/-- The policy's id stands in the tunnel behind a nonce of the policy's size, and a layer-4 magic
behind it. -/
def CryptoPolicy.NamedInL4 (cp : CryptoPolicy) (tunnel : List UInt8) : Prop :=
  cp.action = actionEncryptL4 ∧ 0 < cp.nonceSize ∧
    (tunnel[cp.nonceSize + 1]? = some cryptoL4TunnelMagic ∨
      tunnel[cp.nonceSize + 1]? = some cryptoL4FragMagic) ∧
    tunnel[cp.nonceSize]? = some cp.idByte

instance (cp : CryptoPolicy) (tunnel : List UInt8) : Decidable (cp.NamedInL3 tunnel) :=
  inferInstanceAs (Decidable (_ ∧ _))

instance (cp : CryptoPolicy) (tunnel : List UInt8) : Decidable (cp.NamedInL4 tunnel) :=
  inferInstanceAs (Decidable (_ ∧ _))

section Named

variable {cp : CryptoPolicy} {pkt : Packet} {tunnelOff n : ℕ}

theorem isL3TunnelOf_iff : isL3TunnelOf cp pkt (tunnelOff + n) tunnelOff = true ↔
    cp.NamedInL3 (pkt.slice tunnelOff n) := by
  unfold isL3TunnelOf CryptoPolicy.NamedInL3
  simp only [Bool.and_eq_true, beq_iff_eq, decide_eq_true_eq, Buffer.length_slice, and_assoc]
  refine and_congr_right fun _ => and_congr_right fun _ => ?_
  rw [Nat.add_assoc, Nat.add_lt_add_iff_left]
  refine and_congr_right fun h => ?_
  rw [Buffer.getElem?_slice _ (by omega), Option.some.injEq]

theorem isL4TunnelOf_iff : isL4TunnelOf cp pkt (tunnelOff + n) tunnelOff = true ↔
    cp.NamedInL4 (pkt.slice tunnelOff n) := by
  unfold isL4TunnelOf CryptoPolicy.NamedInL4
  simp only [Bool.and_eq_true, Bool.or_eq_true, beq_iff_eq, decide_eq_true_eq, and_assoc]
  refine and_congr_right fun _ => and_congr_right fun _ => ?_
  rw [Nat.add_assoc, Nat.add_lt_add_iff_left]
  by_cases h : cp.nonceSize + 1 < n
  · rw [Buffer.getElem?_slice _ h, Buffer.getElem?_slice _ (by omega), Option.some.injEq,
      Option.some.injEq, Option.some.injEq]
    exact and_iff_right h
  · refine iff_of_false (fun h' => h h'.1) ?_
    have : (pkt.slice tunnelOff n)[cp.nonceSize + 1]? = none := by
      rw [List.getElem?_eq_none_iff, Buffer.length_slice]
      omega
    simp [this]

end Named

/-! ## The first policy named -/

/-- The first match of a list with a matching element at a known place is that element, as far as
`g` tells them apart, exactly when nothing before it matches. -/
theorem map_find?_eq_some_iff {α β : Type*} {s t : List α} {a : α} {p : α → Bool} {g : α → β}
    (ha : p a = true) (hg : ∀ x ∈ s, p x = true → g x ≠ g a) :
    ((s ++ a :: t).find? p).map g = some (g a) ↔ ∀ x ∈ s, ¬ p x = true := by
  rw [List.find?_append, List.find?_cons_of_pos ha]
  cases hf : s.find? p with
  | none => simpa using List.find?_eq_none.mp hf
  | some x =>
    have hx := List.mem_of_find?_eq_some hf
    have hpx := List.find?_some hf
    exact iff_of_false (fun h => hg x hx hpx (Option.some.inj h)) fun h => h x hx hpx

/-- The ids that a merge gives its policies: between 1 and 255, and no two are the same. -/
structure WireIdsOk (cfg : AppConfig) : Prop where
  count : cfg.policies.length ≤ maxCryptoPolicies
  range : ∀ cp ∈ cfg.policies, 1 ≤ cp.id ∧ cp.id ≤ 255
  nodup : (cfg.policies.map CryptoPolicy.id).Nodup

theorem WireIdsOk.idByte_ne {cfg : AppConfig} {before after : List CryptoPolicy} {cp : CryptoPolicy}
    (h : WireIdsOk cfg) (hcfg : cfg.policies = before ++ cp :: after) :
    ∀ cp' ∈ before, cp'.idByte ≠ cp.idByte := by
  intro cp' hcp' heq
  have hnodup := h.nodup
  rw [hcfg, List.map_append, List.nodup_append] at hnodup
  refine hnodup.2.2 cp'.id (List.mem_map_of_mem hcp') cp.id (by simp) ?_
  apply CryptoPolicy.idByte_injOn (h.range cp' ?_) (h.range cp ?_) heq
  · simp [hcfg, hcp']
  · simp [hcfg]

section Tunnels

variable (evp : Evp) (P : CryptoParams) (ctx : PacketCryptoCtx) (counter : ℕ) (p : Packet) (len : ℕ)

/-- The tunnel that `crypto_layer3_encrypt` makes of the payload of a frame. -/
def layer3Tunnel : List UInt8 :=
  let off := ethHeaderSize + ihlAt p ethHeaderSize
  tunnelBytes evp P (packetCryptoGetKey ctx .current) (cryptoGenerateNonce P counter protoFlagIpv4)
    (p.slice off (len - off)) (p ipv4ProtoOff)

/-- The tunnel that `crypto_layer4_encrypt` makes of what follows the ports of a frame. -/
def layer4Tunnel (l3Off : ℕ) : List UInt8 :=
  let off := l3Off + ihlAt p l3Off + l4WirePortLen
  tunnelBytes evp P (packetCryptoGetKey ctx .current) (cryptoGenerateNonce P counter protoFlagIpv4)
    (p.slice off (len - off)) cryptoL4TunnelMagic

end Tunnels

section

variable {evp : Evp} {P Q : CryptoParams} {ctx : PacketCryptoCtx} {counter len l3Off : ℕ}
  {p q : Packet} {cfg : AppConfig} {before after : List CryptoPolicy} {cp : CryptoPolicy}

/-- **Layer-3 extraction.** From an encrypted frame the extractor gets the id of the policy exactly
when the thread's marker is the frame's protocol, the tunnel is as long as a header of the
thread's own nonce size, and no policy before the right one is named in it. -/
theorem Layer3Frame.extract_iff (h : Layer3Frame evp P ctx counter p len q) (hwire : WireIdsOk cfg)
    (hcfg : cfg.policies = before ++ cp :: after) (hact : cp.action = actionEncryptL3)
    (hid : P.policyId = cp.idByte) (hns : P.nonceSize = cp.nonceSize) (hpos : 0 < cp.nonceSize) :
    cryptoL3ExtractPolicyId Q cfg q (len + (P.tunnelHdrSize + P.tagSize)) = some cp.idByte ↔
      P.fakeProtocol = l3Marker Q ∧
        Q.tunnelHdrSize ≤ (layer3Tunnel evp P ctx counter p len).length ∧
        ∀ cp' ∈ before, ¬ cp'.NamedInL3 (layer3Tunnel evp P ctx counter p len) := by
  have heth : ethHeaderSize = 14 := rfl
  have hth : P.tunnelHdrSize = P.nonceSize + 2 := rfl
  have h₂₀ := h.ihl_ge
  have hle := h.ihl_le
  have eth : ∀ j ≤ ethHeaderSize, q j = p j := fun j hj =>
    h.header j (by omega) (by omega) (by omega) (by omega) (by omega) (by omega)
  have hip : pktIsIpv4 q (len + (P.tunnelHdrSize + P.tagSize)) :=
    ⟨by omega, (Buffer.be16_congr (eth 12 (by decide)) (eth 13 (by decide))).trans h.ipv4.2⟩
  have hihl : ihlAt q ethHeaderSize = ihlAt p ethHeaderSize := ihlAt_congr (eth _ le_rfl)
  have hproto := h.proto
  have hslice := h.tunnel.slice_eq
  have hpol : q (ethHeaderSize + ihlAt p ethHeaderSize + cp.nonceSize) = cp.idByte := by
    rw [← hns, h.tunnel.policy_eq, hid]
  rw [Buffer.length_slice] at hslice
  unfold cryptoL3ExtractPolicyId
  rw [if_neg (not_not.mpr hip)]
  simp only [hihl, hproto]
  rw [if_neg (by omega), List.take_of_length_le hwire.count, hcfg]
  generalize hoff : ethHeaderSize + ihlAt p ethHeaderSize = off at *
  have hlen : len + (P.tunnelHdrSize + P.tagSize) =
      off + (P.tunnelHdrSize + (len - off) + P.tagSize) := by omega
  have htunnel : layer3Tunnel evp P ctx counter p len =
      q.slice off (P.tunnelHdrSize + (len - off) + P.tagSize) := by
    rw [hslice, ← hoff]
    rfl
  have hown : isL3TunnelOf cp q (len + (P.tunnelHdrSize + P.tagSize)) off = true := by
    unfold isL3TunnelOf
    simp only [hact, hpol, beq_self_eq_true, Bool.true_and, Bool.and_true, Bool.and_eq_true,
      decide_eq_true_eq]
    omega
  have hfirst := map_find?_eq_some_iff (s := before) (t := after) (g := CryptoPolicy.idByte)
    (p := fun cp' => isL3TunnelOf cp' q (len + (P.tunnelHdrSize + P.tagSize)) off) hown
    fun cp' hcp' _ => hwire.idByte_ne hcfg cp' hcp'
  rw [htunnel, Buffer.length_slice]
  split_ifs with hmark hshort
  · exact iff_of_false (by simp) fun h' => hmark h'.1
  · refine iff_of_false (by simp) fun h' => ?_
    omega
  · rw [hfirst]
    simp only [hlen, isL3TunnelOf_iff]
    exact ⟨fun h' => ⟨not_not.mp hmark, by omega, h'⟩, fun h' => h'.2.2⟩

/-- **Layer-4 extraction.** From an encrypted frame the extractor gets id and nonce size of the
policy exactly when no policy before the right one is named in the tunnel. -/
theorem Layer4Frame.extract_iff (h : Layer4Frame evp P ctx counter p len l3Off q)
    (hwire : WireIdsOk cfg) (hcfg : cfg.policies = before ++ cp :: after)
    (hact : cp.action = actionEncryptL4) (hid : P.policyId = cp.idByte)
    (hns : P.nonceSize = cp.nonceSize) (hpos : 0 < cp.nonceSize) :
    cryptoL4ExtractPolicyIdIpv4 cfg q (len + (P.tunnelHdrSize + P.tagSize)) =
        some (cp.idByte, cp.nonceSize) ↔
      ∀ cp' ∈ before, ¬ cp'.NamedInL4 (layer4Tunnel evp P ctx counter p len l3Off) := by
  have hport : l4WirePortLen = 4 := rfl
  have hth : P.tunnelHdrSize = P.nonceSize + 2 := rfl
  have h₂₀ := h.ihl_ge
  have hin := h.inside
  have hoff : cryptoEthIpv4Offset q (len + (P.tunnelHdrSize + P.tagSize)) = some l3Off :=
    cryptoEthIpv4Offset_eq_some h.offset (by omega) fun i hi =>
      h.header i (by omega) (by omega) (by omega) (by omega) (by omega)
  have hihl : ihlAt q l3Off = ihlAt p l3Off :=
    ihlAt_congr (h.header _ (by omega) (by omega) (by omega) (by omega) (by omega))
  have hproto : q (l3Off + 9) = p (l3Off + 9) :=
    h.header _ (by omega) (by omega) (by omega) (by omega) (by omega)
  have hslice := h.tunnel.slice_eq
  have hpol : q (l3Off + ihlAt p l3Off + l4WirePortLen + cp.nonceSize) = cp.idByte := by
    rw [← hns, h.tunnel.policy_eq, hid]
  have hmagic : q (l3Off + ihlAt p l3Off + l4WirePortLen + cp.nonceSize + 1) =
      cryptoL4TunnelMagic := by
    rw [← hns]
    exact h.tunnel.last_eq
  have hp := h.proto
  rw [Buffer.length_slice] at hslice
  unfold cryptoL4ExtractPolicyIdIpv4
  rw [hoff]
  simp only [hihl, hproto]
  rw [if_neg (by omega), if_neg (by omega), if_neg (by tauto), if_neg (by omega),
    List.take_of_length_le hwire.count, hcfg]
  generalize hto : l3Off + ihlAt p l3Off + l4WirePortLen = off at *
  have hlen : len + (P.tunnelHdrSize + P.tagSize) =
      off + (P.tunnelHdrSize + (len - off) + P.tagSize) := by omega
  have htunnel : layer4Tunnel evp P ctx counter p len l3Off =
      q.slice off (P.tunnelHdrSize + (len - off) + P.tagSize) := by
    rw [hslice, ← hto]
    rfl
  have hown : isL4TunnelOf cp q (len + (P.tunnelHdrSize + P.tagSize)) off = true := by
    unfold isL4TunnelOf
    simp only [hact, hpol, hmagic, beq_self_eq_true, Bool.true_and, Bool.true_or, Bool.and_true,
      Bool.and_eq_true, decide_eq_true_eq]
    omega
  have hfirst := map_find?_eq_some_iff (s := before) (t := after)
    (g := fun cp : CryptoPolicy => (cp.idByte, cp.nonceSize))
    (p := fun cp' => isL4TunnelOf cp' q (len + (P.tunnelHdrSize + P.tagSize)) off) hown
    fun cp' hcp' _ heq => hwire.idByte_ne hcfg cp' hcp' (congrArg Prod.fst heq)
  rw [htunnel, hfirst]
  simp only [hlen, isL4TunnelOf_iff]

end

theorem not_named_of_nonceSize {evp : Evp} {P : CryptoParams} {key : Key} {nonce plain : List UInt8}
    {last : UInt8} {cp : CryptoPolicy} (hn : nonce.length = P.nonceSize)
    (hns : cp.nonceSize = P.nonceSize) (hid : P.policyId ≠ cp.idByte) :
    ¬ cp.NamedInL3 (tunnelBytes evp P key nonce plain last) ∧
      ¬ cp.NamedInL4 (tunnelBytes evp P key nonce plain last) := by
  have hbyte : (tunnelBytes evp P key nonce plain last)[cp.nonceSize]? = some P.policyId := by
    unfold tunnelBytes
    rw [List.append_assoc, List.append_assoc, List.getElem?_append_right (by omega), hn, hns,
      Nat.sub_self]
    rfl
  constructor
  · rintro ⟨-, -, -, h⟩
    exact hid (Option.some.inj (hbyte.symm.trans h))
  · rintro ⟨-, -, -, h⟩
    exact hid (Option.some.inj (hbyte.symm.trans h))

/-! ## Recovery -/

/-- The layer-3 extractor reads the policy's id out of an encoder's output. -/
def RecoversL3 (Q : CryptoParams) (cfg : AppConfig) (cp : CryptoPolicy) (e : ℤ × Packet) : Prop :=
  cryptoL3ExtractPolicyId Q cfg e.2 e.1.toNat = some cp.idByte

/-- The layer-4 extractor reads the policy's id and nonce size out of an encoder's output. -/
def RecoversL4 (cfg : AppConfig) (cp : CryptoPolicy) (e : ℤ × Packet) : Prop :=
  cryptoL4ExtractPolicyIdIpv4 cfg e.2 e.1.toNat = some (cp.idByte, cp.nonceSize)

instance (Q : CryptoParams) (cfg : AppConfig) (cp : CryptoPolicy) (e : ℤ × Packet) :
    Decidable (RecoversL3 Q cfg cp e) := inferInstanceAs (Decidable (_ = _))

instance (cfg : AppConfig) (cp : CryptoPolicy) (e : ℤ × Packet) :
    Decidable (RecoversL4 cfg cp e) := inferInstanceAs (Decidable (_ = _))

section

variable (evp : Evp) (P Q : CryptoParams) {cfg : AppConfig} {before after : List CryptoPolicy}
  {cp : CryptoPolicy} (hwire : WireIdsOk cfg) (hcfg : cfg.policies = before ++ cp :: after)
  (hns : (cryptoApplyFromPolicy P cp).NonceSizeOk)
include hwire hcfg hns

/-- **Recovering the policy.** The receiver's extractor recovers the policy of an encrypted frame
exactly when no policy before it in the configuration is named in the tunnel; at layer 3 the
thread's marker must also be the frame's protocol, and the tunnel as long as a header of the nonce
size that the thread used last. -/
theorem policy_recovered_iff :
    (cp.action = actionEncryptL3 → ∀ ctx counter p len,
      len < (cryptoLayer3Encrypt evp (cryptoApplyFromPolicy P cp) ctx counter p len).1 →
        let tunnel := layer3Tunnel evp (cryptoApplyFromPolicy P cp) ctx counter p len
        (RecoversL3 Q cfg cp
            (cryptoLayer3Encrypt evp (cryptoApplyFromPolicy P cp) ctx counter p len) ↔
          (cryptoApplyFromPolicy P cp).fakeProtocol = l3Marker Q ∧
            Q.tunnelHdrSize ≤ tunnel.length ∧ ∀ cp' ∈ before, ¬ cp'.NamedInL3 tunnel)) ∧
    (cp.action = actionEncryptL4 → ∀ ctx counter p len l3Off,
      cryptoEthIpv4Offset p len = some l3Off → l3Off + ihlAt p l3Off ≤ len →
      len < (cryptoLayer4Encrypt evp (cryptoApplyFromPolicy P cp) ctx counter p len).1 →
        let tunnel := layer4Tunnel evp (cryptoApplyFromPolicy P cp) ctx counter p len l3Off
        (RecoversL4 cfg cp
            (cryptoLayer4Encrypt evp (cryptoApplyFromPolicy P cp) ctx counter p len) ↔
          ∀ cp' ∈ before, ¬ cp'.NamedInL4 tunnel)) := by
  have hpos : 0 < cp.nonceSize := hns.pos
  constructor
  · intro hact ctx counter p len hgrew
    obtain ⟨hret, hf⟩ := cryptoLayer3Encrypt_frame hns hgrew
    unfold RecoversL3
    rw [hret, Int.toNat_natCast]
    exact hf.extract_iff hwire hcfg hact rfl rfl hpos
  · intro hact ctx counter p len l3Off hoff hin hgrew
    obtain ⟨hret, hf⟩ := cryptoLayer4Encrypt_frame hns hoff hin hgrew
    unfold RecoversL4
    rw [hret, Int.toNat_natCast]
    exact hf.extract_iff hwire hcfg hact rfl rfl hpos

end

/-- The sample policy with an id and a nonce size. -/
def namedPolicy (action id : ℤ) (nonceSize : ℕ) : CryptoPolicy :=
  { samplePolicy action with id := id, nonceSize := nonceSize }

/-- A configuration with the given policies. -/
def policiesConfig (policies : List CryptoPolicy) : AppConfig :=
  { AppConfig.empty with policies := policies }

theorem policy_recovered_sameNonceSize :
    RecoversL3 (sampleParams .ctr)
      (policiesConfig [namedPolicy actionEncryptL3 0x5a 12, namedPolicy actionEncryptL3 7 12])
      (namedPolicy actionEncryptL3 7 12)
      (cryptoLayer3Encrypt (sampleEvp sampleKeystream) (sampleParams .ctr) (sampleCtx Key.zero) 0
        ackFrame 54) ∧
    RecoversL4
      (policiesConfig [namedPolicy actionEncryptL4 0x5a 12, namedPolicy actionEncryptL4 7 12])
      (namedPolicy actionEncryptL4 7 12)
      (cryptoLayer4Encrypt (sampleEvp sampleKeystream) (sampleParams .ctr) (sampleCtx Key.zero) 0
        ackFrame 54) := by
  have hcfg₃ : (policiesConfig
      [namedPolicy actionEncryptL3 0x5a 12, namedPolicy actionEncryptL3 7 12]).policies =
      [namedPolicy actionEncryptL3 0x5a 12] ++ namedPolicy actionEncryptL3 7 12 :: [] := rfl
  have hcfg₄ : (policiesConfig
      [namedPolicy actionEncryptL4 0x5a 12, namedPolicy actionEncryptL4 7 12]).policies =
      [namedPolicy actionEncryptL4 0x5a 12] ++ namedPolicy actionEncryptL4 7 12 :: [] := rfl
  constructor
  · refine ((policy_recovered_iff (sampleEvp sampleKeystream) (sampleParams .ctr) (sampleParams .ctr)
      ⟨by decide, by decide, by decide⟩ hcfg₃ (by decide)).1 rfl (sampleCtx Key.zero) 0 ackFrame 54
      (by decide)).mpr ⟨rfl, by decide, ?_⟩
    intro cp' hcp'
    obtain rfl := List.mem_singleton.mp hcp'
    exact (not_named_of_nonceSize (by decide) rfl (by decide)).1
  · refine ((policy_recovered_iff (sampleEvp sampleKeystream) (sampleParams .ctr) (sampleParams .ctr)
      ⟨by decide, by decide, by decide⟩ hcfg₄ (by decide)).2 rfl (sampleCtx Key.zero) 0 ackFrame 54
      ethHeaderSize (by decide) (by decide) (by decide)).mpr ?_
    intro cp' hcp'
    obtain rfl := List.mem_singleton.mp hcp'
    exact (not_named_of_nonceSize (by decide) rfl (by decide)).2

/-- A policy before it with a nonce of four bytes and the id `0x5a`, which is the first byte of the
salt, is found in its place. -/
theorem policy_not_recovered_salt :
    (WireIdsOk
        (policiesConfig [namedPolicy actionEncryptL3 0x5a 4, namedPolicy actionEncryptL3 7 12]) ∧
      WireIdsOk
        (policiesConfig [namedPolicy actionEncryptL4 0x5a 4, namedPolicy actionEncryptL4 7 12])) ∧
    (cryptoApplyFromPolicy (sampleParams .ctr) (namedPolicy actionEncryptL3 7 12)).nonceSize = 12 ∧
    54 < (cryptoLayer3Encrypt (sampleEvp sampleKeystream)
      (cryptoApplyFromPolicy (sampleParams .ctr) (namedPolicy actionEncryptL3 7 12))
      (sampleCtx Key.zero) 0 ackFrame 54).1 ∧
    ¬ RecoversL3 (sampleParams .ctr)
      (policiesConfig [namedPolicy actionEncryptL3 0x5a 4, namedPolicy actionEncryptL3 7 12])
      (namedPolicy actionEncryptL3 7 12)
      (cryptoLayer3Encrypt (sampleEvp sampleKeystream)
        (cryptoApplyFromPolicy (sampleParams .ctr) (namedPolicy actionEncryptL3 7 12))
        (sampleCtx Key.zero) 0 ackFrame 54) ∧
    54 < (cryptoLayer4Encrypt (sampleEvp sampleKeystream)
      (cryptoApplyFromPolicy (sampleParams .ctr) (namedPolicy actionEncryptL4 7 12))
      (sampleCtx Key.zero) 0 ackFrame 54).1 ∧
    ¬ RecoversL4
      (policiesConfig [namedPolicy actionEncryptL4 0x5a 4, namedPolicy actionEncryptL4 7 12])
      (namedPolicy actionEncryptL4 7 12)
      (cryptoLayer4Encrypt (sampleEvp sampleKeystream)
        (cryptoApplyFromPolicy (sampleParams .ctr) (namedPolicy actionEncryptL4 7 12))
        (sampleCtx Key.zero) 0 ackFrame 54) :=
  ⟨⟨⟨by decide, by decide, by decide⟩, ⟨by decide, by decide, by decide⟩⟩, rfl, by decide,
    by decide, by decide, by decide⟩


end NetEncryptor

import NetEncryptor.Crypto.PacketCrypto

/-!
# IPv4 headers in frames

The tests that locate an IPv4 header, and the rewriting of its total length and checksum that
every encoder, decoder and the reassembly make (`patchIpv4`).

A header whose checksum verifies (`neRxIpv4HeaderCsumOk`) has the computed checksum in its field,
or the other representation of zero: `patchIpv4_eq_iff` says when a patched header is the original
one.
-/

namespace NetEncryptor

open OnesComplement

/-- `size_t` subtraction. -/
def usub (a b : ℕ) : ℕ := if b ≤ a then a - b else a + 2 ^ 64 - b

theorem usub_of_le {a b : ℕ} (h : b ≤ a) : usub a b = a - b := if_pos h

def ipv4ProtoOff : ℕ := ethHeaderSize + 9

def ipv4TotlenOff : ℕ := ethHeaderSize + 2

/-- The ethertype is `0x0800`. -/
def pktIsIpv4Eth (packet : Packet) : Prop := packet.be16 12 = 0x0800

instance (packet : Packet) : Decidable (pktIsIpv4Eth packet) := inferInstanceAs (Decidable (_ = _))

theorem pktIsIpv4Eth_iff {packet : Packet} :
    pktIsIpv4Eth packet ↔ packet 12 = 0x08 ∧ packet 13 = 0x00 := by
  have := (packet 13).toNat_lt
  rw [← UInt8.toNat_inj, ← UInt8.toNat_inj]
  show 256 * (packet 12).toNat + (packet 13).toNat = 2048 ↔
    (packet 12).toNat = 8 ∧ (packet 13).toNat = 0
  omega

/-- `(packet[l3_off] & 0x0F) * 4`. -/
def ihlAt (packet : Packet) (l3Off : ℕ) : ℕ := (packet l3Off).toNat % 16 * 4

theorem ihlAt_le (packet : Packet) (l3Off : ℕ) : ihlAt packet l3Off ≤ 60 := by
  unfold ihlAt; omega

theorem ihlAt_congr {p q : Packet} {l3Off : ℕ} (h : p l3Off = q l3Off) :
    ihlAt p l3Off = ihlAt q l3Off := by
  unfold ihlAt; rw [h]

def pktIsIpv4 (packet : Packet) (pktLen : ℕ) : Prop :=
  ethHeaderSize + 20 ≤ pktLen ∧ pktIsIpv4Eth packet

instance (packet : Packet) (pktLen : ℕ) : Decidable (pktIsIpv4 packet pktLen) :=
  inferInstanceAs (Decidable (_ ∧ _))

/-- `none` stands for the code's `-1`. -/
def ipv4HdrLenAt (packet : Packet) (pktLen l3Off : ℕ) : Option ℕ :=
  if pktLen < l3Off + 20 then none
  else if ihlAt packet l3Off < 20 ∨ pktLen < l3Off + ihlAt packet l3Off then none
  else some (ihlAt packet l3Off)

theorem ipv4HdrLenAt_eq_some_iff {packet : Packet} {pktLen l3Off ihl : ℕ} :
    ipv4HdrLenAt packet pktLen l3Off = some ihl ↔
      ihl = ihlAt packet l3Off ∧ 20 ≤ ihl ∧ l3Off + ihl ≤ pktLen := by
  unfold ipv4HdrLenAt
  split_ifs <;> simp only [Option.some.injEq, false_iff] <;> omega

/-- An untagged IPv4 frame of TCP or UDP with its IP header inside. -/
structure TcpUdpFrame (p : Packet) (len : ℕ) : Prop where
  ipv4 : pktIsIpv4 p len
  ihl_ge : 20 ≤ ihlAt p ethHeaderSize
  ihl_le : ethHeaderSize + ihlAt p ethHeaderSize ≤ len
  proto : p ipv4ProtoOff = 6 ∨ p ipv4ProtoOff = 17

/-- The offset of the IPv4 header behind at most two VLAN tags. -/
def cryptoEthIpv4Offset (pkt : Packet) (pktLen : ℕ) : Option ℕ :=
  if pktLen < 14 then none
  else if pkt.be16 12 = 0x0800 then some 14
  else if pkt.be16 12 = 0x8100 then
    if pktLen < 18 then none
    else if pkt.be16 16 = 0x0800 then some 18
    else if pkt.be16 16 = 0x8100 ∧ 22 ≤ pktLen then
      if pkt.be16 20 = 0x0800 then some 22 else none
    else none
  else none

theorem TcpUdpFrame.ethIpv4Offset {p : Packet} {len : ℕ} (hp : TcpUdpFrame p len) :
    cryptoEthIpv4Offset p len = some ethHeaderSize := by
  have heth : ethHeaderSize = 14 := rfl
  have hle := hp.ihl_le
  unfold cryptoEthIpv4Offset
  rw [if_neg (by omega), if_pos (show p.be16 12 = 0x0800 from hp.ipv4.2)]
  rfl

theorem cryptoEthIpv4Offset_eq_some {p q : Packet} {m n l3Off : ℕ}
    (h : cryptoEthIpv4Offset p m = some l3Off) (hn : m ≤ n) (hpq : ∀ i < l3Off, q i = p i) :
    cryptoEthIpv4Offset q n = some l3Off := by
  have word : ∀ i, i + 1 < l3Off → q.be16 i = p.be16 i := fun i hi =>
    Buffer.be16_congr (hpq _ (by omega)) (hpq _ hi)
  unfold cryptoEthIpv4Offset at h ⊢
  split_ifs at h with h₁ h₂ h₃ h₄ h₅ h₆ h₇
  · obtain rfl := Option.some.inj h
    rw [if_neg (by omega), if_pos ((word 12 (by omega)).trans h₂)]
  · obtain rfl := Option.some.inj h
    rw [if_neg (by omega), word 12 (by omega), if_neg h₂, if_pos h₃, if_neg (by omega),
      word 16 (by omega), if_pos h₅]
  · obtain rfl := Option.some.inj h
    rw [if_neg (by omega), word 12 (by omega), if_neg h₂, if_pos h₃, if_neg (by omega),
      word 16 (by omega), if_neg h₅, if_pos ⟨h₆.1, by omega⟩, word 20 (by omega), if_pos h₇]

/-- `crypto_layer4_get_transport_hdr_size`; `none` stands for `-1`. -/
def getTransportHdrSize (transportHdr : Packet) (ipProto : UInt8) (remaining : ℕ) : Option ℕ :=
  if ipProto = 6 then
    if remaining < 20 then none
    else
      let dataOff := (transportHdr 12).toNat / 16 * 4
      if dataOff < 20 ∨ remaining < dataOff then none else some dataOff
  else if ipProto = 17 then
    if remaining < 8 then none else some 8
  else none

/-! ## Checksums of headers -/

/-- The receiver's test of a header checksum. -/
def neRxIpv4HeaderCsumOk (ip : Packet) (ihl : ℕ) : Prop :=
  fold16 (ip.internetSum ihl % 2 ^ 32) = 0xffff

instance (ip : Packet) (ihl : ℕ) : Decidable (neRxIpv4HeaderCsumOk ip ihl) :=
  inferInstanceAs (Decidable (_ = _))

/-- Store a total length and the checksum of the header that has it. -/
def patchIpv4 (packet : Packet) (l3Off ipHdrLen ipTotal : ℕ) : Packet :=
  let packet := (packet.put16 (l3Off + 2) ipTotal).put16 (l3Off + 10) 0
  packet.put16 (l3Off + 10) (cryptoCalcIpChecksum (packet.shift l3Off) ipHdrLen)

def l3PatchIpv4 (packet : Packet) (ipHdrLen ipTotal : ℕ) : Packet :=
  patchIpv4 packet ethHeaderSize ipHdrLen ipTotal

def l4FixIpv4TotlenAndCksum (packet : Packet) (l3Off ipHdrLen ipPayloadLen : ℕ) : Packet :=
  patchIpv4 packet l3Off ipHdrLen (ipHdrLen + ipPayloadLen)

def fragPatchIpv4 (packet : Packet) (ipHdrLen ipTotal : ℕ) : Packet :=
  patchIpv4 packet ethHeaderSize ipHdrLen ipTotal

theorem patchIpv4_of_ne {packet : Packet} {l3Off ipHdrLen ipTotal j : ℕ} (h₂ : j ≠ l3Off + 2)
    (h₃ : j ≠ l3Off + 3) (h₁₀ : j ≠ l3Off + 10) (h₁₁ : j ≠ l3Off + 11) :
    patchIpv4 packet l3Off ipHdrLen ipTotal j = packet j := by
  unfold patchIpv4
  rw [Buffer.put16_of_ne (by omega) (by omega), Buffer.put16_of_ne (by omega) (by omega),
    Buffer.put16_of_ne (by omega) (by omega)]

theorem be16_patchIpv4_totlen (packet : Packet) (l3Off ipHdrLen ipTotal : ℕ) :
    (patchIpv4 packet l3Off ipHdrLen ipTotal).be16 (l3Off + 2) = ipTotal % 65536 := by
  unfold patchIpv4
  rw [Buffer.be16_put16_of_ne (by omega) (by omega) (by omega),
    Buffer.be16_put16_of_ne (by omega) (by omega) (by omega), Buffer.be16_put16]

theorem patchIpv4_congr {p q : Packet} {l3Off ihl ipTotal lo hi : ℕ} (hlo : lo ≤ l3Off)
    (hhi : l3Off + ihl ≤ hi)
    (hq : ∀ j, lo ≤ j → j < hi → j ≠ l3Off + 2 → j ≠ l3Off + 3 → j ≠ l3Off + 10 → j ≠ l3Off + 11 →
      q j = p j) :
    ∀ j, lo ≤ j → j < hi → patchIpv4 q l3Off ihl ipTotal j = patchIpv4 p l3Off ihl ipTotal j := by
  have hzeroed : ∀ j, lo ≤ j → j < hi →
      (q.put16 (l3Off + 2) ipTotal).put16 (l3Off + 10) 0 j =
        (p.put16 (l3Off + 2) ipTotal).put16 (l3Off + 10) 0 j := by
    intro j hj hj'
    apply Buffer.put16_congr
    intro h₁₀ h₁₁
    apply Buffer.put16_congr
    intro h₂ h₃
    exact hq j hj hj' h₂ h₃ h₁₀ h₁₁
  -- the checksums are computed from the same bytes
  have hsum : cryptoCalcIpChecksum (((q.put16 (l3Off + 2) ipTotal).put16 (l3Off + 10) 0).shift l3Off)
        ihl =
      cryptoCalcIpChecksum (((p.put16 (l3Off + 2) ipTotal).put16 (l3Off + 10) 0).shift l3Off) ihl := by
    unfold cryptoCalcIpChecksum
    congr 1
    apply Buffer.internetSum_congr
    intro i hi'
    exact hzeroed _ (by omega) (by omega)
  intro j hj hj'
  unfold patchIpv4
  simp only [hsum]
  apply Buffer.put16_congr
  intro _ _
  exact hzeroed j hj hj'

theorem internetSum_lt_of_ihl {ip : Packet} {ihl : ℕ} (h : ihl ≤ 60) :
    ip.internetSum ihl < 2 ^ 32 := by
  have := ip.internetSum_le ihl
  omega

/-- A header of at least 20 bytes whose checksum verifies. -/
structure Ipv4HeaderOk (p : Packet) (l3Off : ℕ) : Prop where
  ihl_ge : 20 ≤ ihlAt p l3Off
  csum : neRxIpv4HeaderCsumOk (p.shift l3Off) (ihlAt p l3Off)

/-- A TCP acknowledgement of 54 bytes, with zeros behind it. -/
def ackFrame : Packet :=
  packetOf [2, 0, 0, 0, 0, 2, 2, 0, 0, 0, 0, 1, 8, 0, 0x45, 0, 0, 40, 18, 52, 64, 0, 64, 6, 20, 154,
    10, 0, 0, 1, 10, 0, 0, 2, 195, 80, 1, 187, 0, 0, 0, 1, 0, 0, 0, 2, 0x50, 0x10, 4, 0, 210, 195,
    0, 0]

theorem tcpUdpFrame_ackFrame {len : ℕ} (h : 54 ≤ len) : TcpUdpFrame ackFrame len where
  ipv4 := ⟨by unfold ethHeaderSize; omega, by decide⟩
  ihl_ge := by decide
  ihl_le := le_trans (by decide) h
  proto := .inl rfl

theorem ipv4HeaderOk_ackFrame : Ipv4HeaderOk ackFrame ethHeaderSize where
  ihl_ge := by decide
  csum := by
    unfold neRxIpv4HeaderCsumOk
    rw [fold16_eq]
    decide

/-- The checksum field of a header that verifies is the computed checksum, unless it is all
ones; the computed checksum is then zero. -/
theorem Ipv4HeaderOk.field {p : Packet} {l3Off : ℕ} (h : Ipv4HeaderOk p l3Off) :
    cryptoCalcIpChecksum ((p.shift l3Off).put16 10 0) (ihlAt p l3Off) =
      if p.be16 (l3Off + 10) = 65535 then 0 else p.be16 (l3Off + 10) := by
  obtain ⟨h₂₀, hok⟩ := h
  have h₆₀ := ihlAt_le p l3Off
  have hbyte : 0 < (p l3Off).toNat := by unfold ihlAt at h₂₀; omega
  generalize ihlAt p l3Off = ihl at h₂₀ h₆₀ hok ⊢
  have hsum : ((p.shift l3Off).put16 10 0).internetSum ihl + p.be16 (l3Off + 10) =
      (p.shift l3Off).internetSum ihl := Buffer.internetSum_put16_zero (k := 5) (by omega)
  have hfield := p.be16_lt (l3Off + 10)
  -- the first byte keeps the sum without the field positive
  have hpos : 0 < ((p.shift l3Off).put16 10 0).internetSum ihl := by
    refine lt_of_lt_of_le ?_ (Buffer.be16_le_internetSum (k := 0) (by omega))
    rw [Buffer.be16_put16_of_ne (by omega) (by omega) (by omega)]
    show 0 < 256 * (p (l3Off + 0)).toNat + _
    rw [Nat.add_zero]
    omega
  unfold neRxIpv4HeaderCsumOk at hok
  rw [Nat.mod_eq_of_lt (internetSum_lt_of_ihl h₆₀), ← hsum,
    fold16_add_eq_iff hpos (by omega)] at hok
  unfold cryptoCalcIpChecksum cksumOf
  rw [Nat.mod_eq_of_lt (internetSum_lt_of_ihl h₆₀)]
  have := fold16_pos hpos
  split_ifs <;> omega

section Restore

variable {p q : Packet} {l3Off ipTotal : ℕ}
  (hq : ∀ i < ihlAt p l3Off, i ≠ 2 → i ≠ 3 → i ≠ 10 → i ≠ 11 → q (l3Off + i) = p (l3Off + i))
include hq

/-- **Patching computes the checksum.** A patched header that agrees with `p` outside the two
patched fields and has `p`'s total length has the checksum computed for `p`. -/
theorem be16_patchIpv4_cksum_eq (htot : ipTotal % 65536 = p.be16 (l3Off + 2)) :
    (patchIpv4 q l3Off (ihlAt p l3Off) ipTotal).be16 (l3Off + 10) =
      cryptoCalcIpChecksum ((p.shift l3Off).put16 10 0) (ihlAt p l3Off) := by
  unfold patchIpv4
  rw [Buffer.be16_put16, Nat.mod_eq_of_lt (by unfold cryptoCalcIpChecksum cksumOf; omega)]
  have hbytes := Buffer.be16_eq_iff.mp
    ((Buffer.be16_put16 q (l3Off + 2) ipTotal).trans htot)
  unfold cryptoCalcIpChecksum
  congr 1
  refine Buffer.internetSum_congr fun i hi => ?_
  rw [Buffer.shift_apply]
  by_cases h₁₀ : i = 10
  · subst h₁₀; rw [Buffer.put16_fst, Buffer.put16_fst]
  by_cases h₁₁ : i = 11
  · subst h₁₁; exact (Buffer.put16_snd _ (l3Off + 10) 0).trans (Buffer.put16_snd _ 10 0).symm
  rw [Buffer.put16_of_ne (i := l3Off + 10) (by omega) (by omega),
    Buffer.put16_of_ne (i := 10) (by omega) (by omega), Buffer.shift_apply]
  by_cases h₂ : i = 2
  · subst h₂; exact hbytes.1
  by_cases h₃ : i = 3
  · subst h₃; exact hbytes.2
  rw [Buffer.put16_of_ne (by omega) (by omega)]
  exact hq i hi h₂ h₃ h₁₀ h₁₁

theorem patchIpv4_eq_of_cksum
    (hck : p.be16 (l3Off + 10) =
      cryptoCalcIpChecksum ((p.shift l3Off).put16 10 0) (ihlAt p l3Off))
    (htot : ipTotal % 65536 = p.be16 (l3Off + 2)) :
    ∀ i < ihlAt p l3Off, patchIpv4 q l3Off (ihlAt p l3Off) ipTotal (l3Off + i) = p (l3Off + i) := by
  intro i hi
  have hlen := be16_patchIpv4_totlen q l3Off (ihlAt p l3Off) ipTotal
  have hsum := be16_patchIpv4_cksum_eq hq htot
  by_cases h₂ : i = 2
  · subst h₂; exact (Buffer.be16_eq_iff.mp (hlen.trans htot)).1
  by_cases h₃ : i = 3
  · subst h₃; exact (Buffer.be16_eq_iff.mp (hlen.trans htot)).2
  by_cases h₁₀ : i = 10
  · subst h₁₀; exact (Buffer.be16_eq_iff.mp (hsum.trans hck.symm)).1
  by_cases h₁₁ : i = 11
  · subst h₁₁; exact (Buffer.be16_eq_iff.mp (hsum.trans hck.symm)).2
  rw [patchIpv4_of_ne (by omega) (by omega) (by omega) (by omega)]
  exact hq i hi h₂ h₃ h₁₀ h₁₁

end Restore

section RestoreOk

variable {p q : Packet} {l3Off ipTotal : ℕ} (hp : Ipv4HeaderOk p l3Off)
  (hq : ∀ i < ihlAt p l3Off, i ≠ 2 → i ≠ 3 → i ≠ 10 → i ≠ 11 → q (l3Off + i) = p (l3Off + i))
include hp hq

/-- **Patching restores the checksum.** A patched header that agrees with `p` outside the two
patched fields and has `p`'s total length has `p`'s checksum field, except that all ones has
become zero. -/
theorem be16_patchIpv4_cksum (htot : ipTotal % 65536 = p.be16 (l3Off + 2)) :
    (patchIpv4 q l3Off (ihlAt p l3Off) ipTotal).be16 (l3Off + 10) =
      if p.be16 (l3Off + 10) = 65535 then 0 else p.be16 (l3Off + 10) := by
  rw [← hp.field]
  exact be16_patchIpv4_cksum_eq hq htot

theorem patchIpv4_prefix_iff (htot : ipTotal % 65536 = p.be16 (l3Off + 2)) (n : ℕ) :
    (∀ i < ihlAt p l3Off, i < n →
        patchIpv4 q l3Off (ihlAt p l3Off) ipTotal (l3Off + i) = p (l3Off + i)) ↔
      n ≤ 10 ∨ p.be16 (l3Off + 10) ≠ 65535 := by
  have hck := be16_patchIpv4_cksum hp hq htot
  have hlen := be16_patchIpv4_totlen q l3Off (ihlAt p l3Off) ipTotal
  have h₂₀ := hp.ihl_ge
  constructor
  · intro h
    by_cases hn : n ≤ 10
    · exact .inl hn
    · refine .inr fun e => ?_
      have h₁₀ := congrArg UInt8.toNat (h 10 (by omega) (by omega))
      have := (p (l3Off + 10 + 1)).toNat_lt
      rw [if_pos e] at hck
      unfold Buffer.be16 at hck e
      omega
  · intro h i hi hin
    by_cases h₂ : i = 2
    · subst h₂; exact (Buffer.be16_eq_iff.mp (hlen.trans htot)).1
    by_cases h₃ : i = 3
    · subst h₃; exact (Buffer.be16_eq_iff.mp (hlen.trans htot)).2
    by_cases h₁₀ : i = 10
    · rw [if_neg (h.resolve_left (by omega))] at hck
      subst h₁₀; exact (Buffer.be16_eq_iff.mp hck).1
    by_cases h₁₁ : i = 11
    · rw [if_neg (h.resolve_left (by omega))] at hck
      subst h₁₁; exact (Buffer.be16_eq_iff.mp hck).2
    rw [patchIpv4_of_ne (by omega) (by omega) (by omega) (by omega)]
    exact hq i hi h₂ h₃ h₁₀ h₁₁

/-- **Patching restores a header** exactly when it stores the original total length and the
original checksum is not all ones. -/
theorem patchIpv4_eq_iff :
    (∀ i < ihlAt p l3Off,
        patchIpv4 q l3Off (ihlAt p l3Off) ipTotal (l3Off + i) = p (l3Off + i)) ↔
      ipTotal % 65536 = p.be16 (l3Off + 2) ∧ p.be16 (l3Off + 10) ≠ 65535 := by
  have h₂₀ := hp.ihl_ge
  constructor
  · intro h
    have htot : ipTotal % 65536 = p.be16 (l3Off + 2) := by
      rw [← be16_patchIpv4_totlen q l3Off (ihlAt p l3Off) ipTotal]
      exact Buffer.be16_congr (h 2 (by omega)) (h 3 (by omega))
    refine ⟨htot, ?_⟩
    have := (patchIpv4_prefix_iff hp hq htot 20).mp fun i hi _ => h i hi
    omega
  · rintro ⟨htot, hf⟩ i hi
    exact (patchIpv4_prefix_iff hp hq htot (i + 1)).mpr (.inr hf) i hi (by omega)

end RestoreOk

end NetEncryptor

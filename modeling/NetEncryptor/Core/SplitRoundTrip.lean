import NetEncryptor.Core.Reassembly
import NetEncryptor.Crypto.Layer2Fragment
import NetEncryptor.Crypto.Layer4Fragment

/-!
# Splitting and reassembling at layers 4 and 2

At these layers the receiver knows the protocol of a fragment, and the two fragments give the
packet back.  As at layer 3, a split lemma says what the two fragments carry, a lemma about the
first call says what is stored, and one about the second call what is joined.

What the join takes of a stored fragment is one piece: the transport header that it restores and
the bytes behind it stand next to each other (`joinFragmentsL4_eq`, `joinFragmentsL2_eq`).
-/

namespace NetEncryptor

/-! ## The joins -/

/-- The transport header that the join takes a stored fragment to begin with. -/
def restoredTh (data : Packet) (proto : UInt8) (n : ℕ) : ℕ :=
  (getTransportHdrSize data proto n).getD (if proto = 6 then 20 else 8)

theorem restoredTh_of_some {data : Packet} {proto : UInt8} {n th : ℕ}
    (h : getTransportHdrSize data proto n = some th) : restoredTh data proto n = th := by
  unfold restoredTh
  rw [h, Option.getD_some]

theorem restoredTh_le {data : Packet} {proto : UInt8} {n : ℕ} (hn : 20 ≤ n) :
    restoredTh data proto n ≤ n := by
  cases h : getTransportHdrSize data proto n with
  | none =>
    unfold restoredTh
    rw [h, Option.getD_none]
    split <;> omega
  | some th =>
    rw [restoredTh_of_some h]
    exact (getTransportHdrSize_le h).2

/-- How many bytes of a stored layer-4 fragment are joined. -/
def joinedLenL4 (entry : FragEntry) : ℕ :=
  max (restoredTh entry.data entry.origProto entry.dataLen) entry.dataLen

/-- The joined packet before its header is patched. -/
def joinedL4 (entry : FragEntry) (second : Packet) (secondLen : ℕ) (outBuf : Packet) : Packet :=
  let out := (outBuf.copy 0 entry.ethHdr 0 14).copy 14 entry.ipHdr 0 entry.ipHdrLen
  (out.copy (14 + entry.ipHdrLen) entry.data 0 (joinedLenL4 entry)).copy
    (14 + entry.ipHdrLen + joinedLenL4 entry) second 0 secondLen

theorem joinFragmentsL4_eq (entry : FragEntry) (second : Packet) (secondLen : ℕ)
    (outBuf : Packet) :
    joinFragmentsL4 entry second secondLen outBuf =
      (fragPatchIpv4 (joinedL4 entry second secondLen outBuf) entry.ipHdrLen
        (entry.ipHdrLen + joinedLenL4 entry + secondLen),
        14 + entry.ipHdrLen + joinedLenL4 entry + secondLen) := by
  have hlen : restoredTh entry.data entry.origProto entry.dataLen +
      (entry.dataLen - restoredTh entry.data entry.origProto entry.dataLen) =
        joinedLenL4 entry := by unfold joinedLenL4; omega
  have hcopy : ∀ b : Packet, (b.copy (14 + entry.ipHdrLen) entry.data 0
        (restoredTh entry.data entry.origProto entry.dataLen)).copy
        (14 + entry.ipHdrLen + restoredTh entry.data entry.origProto entry.dataLen) entry.data
        (restoredTh entry.data entry.origProto entry.dataLen)
        (entry.dataLen - restoredTh entry.data entry.origProto entry.dataLen) =
      b.copy (14 + entry.ipHdrLen) entry.data 0 (joinedLenL4 entry) := fun b => by
    have := Buffer.copy_copy_add b entry.data (14 + entry.ipHdrLen) 0
      (restoredTh entry.data entry.origProto entry.dataLen)
      (entry.dataLen - restoredTh entry.data entry.origProto entry.dataLen)
    rwa [Nat.zero_add, hlen] at this
  unfold joinFragmentsL4 joinedL4
  simp only
  rw [← restoredTh, hcopy, Nat.add_assoc (14 + entry.ipHdrLen), hlen]
  congr 2
  omega

/-! ## The property -/

/-- The header checksum is the one that the program computes. -/
def Ipv4CksumStored (p : Packet) (l3Off : ℕ) : Prop :=
  p.be16 (l3Off + 10) = cryptoCalcIpChecksum ((p.shift l3Off).put16 10 0) (ihlAt p l3Off)

instance (p : Packet) (l3Off : ℕ) : Decidable (Ipv4CksumStored p l3Off) :=
  inferInstanceAs (Decidable (_ = _))

abbrev FragDecoder := Packet → ℕ → Option DecryptedFragment

/-- A reassembly, from table, time, fragment, length, packet id, index and output buffer. -/
abbrev Reassembler := FragTable → ℕ → Packet → ℕ → ℕ → UInt8 → Packet → ℕ → Reassembly

/-- Both fragments decrypt to their packet id and index, the first one is stored in any table, and
the second one, given to any table that still has the first one in its slot, completes a packet
with the length and the bytes of `p`. -/
def SplitRoundTrips (decrypt : FragDecoder) (reassemble : Reassembler) (pktId : ℕ) (p : Packet)
    (len : ℕ) (fs : (Packet × ℕ) × Packet × ℕ) (now₁ now₂ : ℕ) : Prop :=
  ∃ d₁ d₂, decrypt fs.1.1 fs.1.2 = some d₁ ∧ decrypt fs.2.1 fs.2.2 = some d₂ ∧
    (d₁.pktId = pktId ∧ d₁.fragIndex = 0 ∧ d₂.pktId = pktId ∧ d₂.fragIndex = 1) ∧
    ∀ ft out outLen,
      let r₁ := reassemble ft now₁ d₁.packet d₁.len d₁.pktId d₁.fragIndex out outLen
      r₁.ret = 0 ∧ ∀ ft' : FragTable,
        ft' (pktId % fragTableSize) = r₁.table (pktId % fragTableSize) →
          let r₂ := reassemble ft' now₂ d₂.packet d₂.len d₂.pktId d₂.fragIndex out outLen
          r₂.ret = 1 ∧ r₂.outLen = len ∧ ∀ j < len, r₂.outBuf j = p j

theorem patched_eq {p u : Packet} {len l : ℕ} (hle : ethHeaderSize + ihlAt p ethHeaderSize ≤ len)
    (h₂₀ : 20 ≤ ihlAt p ethHeaderSize) (hT : p.be16 ipv4TotlenOff = len - ethHeaderSize)
    (hck : Ipv4CksumStored p ethHeaderSize) (hl : l ≤ ethHeaderSize)
    (hu : ∀ j, l ≤ j → j < len → j ≠ 16 → j ≠ 17 → j ≠ 24 → j ≠ 25 → u j = p j) :
    ∀ j, l ≤ j → j < len →
      patchIpv4 u ethHeaderSize (ihlAt p ethHeaderSize) (len - ethHeaderSize) j = p j := by
  have heth : ethHeaderSize = 14 := rfl
  have hword := p.be16_lt ipv4TotlenOff
  have htot : (len - ethHeaderSize) % 65536 = p.be16 (ethHeaderSize + 2) := by
    rw [← hT, Nat.mod_eq_of_lt hword]
    rfl
  intro j hlj hj
  by_cases hj' : ethHeaderSize ≤ j ∧ j < ethHeaderSize + ihlAt p ethHeaderSize
  · obtain ⟨i, rfl⟩ := Nat.exists_eq_add_of_le hj'.1
    exact patchIpv4_eq_of_cksum (fun i hi h₂ h₃ h₁₀ h₁₁ =>
      hu _ (by omega) (by omega) (by omega) (by omega) (by omega) (by omega)) hck htot i (by omega)
  · rw [patchIpv4_of_ne (by omega) (by omega) (by omega) (by omega)]
    exact hu j hlj hj (by omega) (by omega) (by omega) (by omega)

/-! ## Layer 4 -/

section

variable {evp : Evp} {P : CryptoParams} {ctx : PacketCryptoCtx} {counter₁ counter₂ pktId len : ℕ}
  {p out₁ out₂ : Packet} {fs : (Packet × ℕ) × Packet × ℕ}

/-- Only TCP and UDP frames are split: a header that reaches beyond the frame makes a first half
that is too long. -/
theorem tcpUdpFrame_of_fragSplitAndEncryptL4
    (h : fragSplitAndEncryptL4 evp P ctx counter₁ counter₂ pktId p len out₁ out₂ = some fs) :
    TcpUdpFrame p len := by
  have heth : ethHeaderSize = 14 := rfl
  have hbuf : fragBufSize = 2048 := rfl
  have hihl := ihlAt_le p ethHeaderSize
  unfold fragSplitAndEncryptL4 at h
  simp only at h
  split at h
  · cases h
  rename_i hip
  rw [not_or, not_not] at hip
  split at h
  · cases h
  rename_i hproto
  rw [not_or] at hproto
  cases hth : getTransportHdrSize (p.shift (ethHeaderSize + ihlAt p ethHeaderSize)) (p ipv4ProtoOff)
      (usub32 len (ethHeaderSize + ihlAt p ethHeaderSize)) with
  | none => rw [hth] at h; cases h
  | some th =>
    rw [hth] at h
    have hth₆₀ := getTransportHdrSize_le_sixty hth
    simp only at h
    split at h
    · cases h
    rename_i happ
    rw [not_or] at happ
    refine ⟨⟨by omega, hip.2⟩, by omega, ?_, by tauto⟩
    by_contra hle
    unfold usub32 at happ
    rw [if_neg (by omega)] at happ
    omega

theorem fragSplitAndEncryptL4_eq_cut (hp : TcpUdpFrame p len) :
    fragSplitAndEncryptL4 evp P ctx counter₁ counter₂ pktId p len out₁ out₂ = cutAndEncrypt p len
      (fun plain n => cryptoLayer4EncryptFragmentSingle evp P ctx counter₁ p (p.shift ethHeaderSize)
        (ihlAt p ethHeaderSize) (p.shift (ethHeaderSize + ihlAt p ethHeaderSize)) plain n
        pktId 0 out₁ fragBufSize)
      fun plain n => cryptoLayer4EncryptFragmentSingle evp P ctx counter₂ p (p.shift ethHeaderSize)
        (ihlAt p ethHeaderSize) (p.shift (ethHeaderSize + ihlAt p ethHeaderSize)) plain n
        pktId 1 out₂ fragBufSize := by
  have heth : ethHeaderSize = 14 := rfl
  have h₂₀ := hp.ihl_ge
  have hle := hp.ihl_le
  have hproto : ¬ ((p ipv4ProtoOff ≠ 6 ∧ p ipv4ProtoOff ≠ 17) ∨ ihlAt p ethHeaderSize < 20) := by
    have := hp.proto
    have := not_lt.mpr h₂₀
    tauto
  unfold fragSplitAndEncryptL4 cutAndEncrypt
  simp only [if_neg hproto, usub32_of_le hle]
  generalize hoff : ethHeaderSize + ihlAt p ethHeaderSize = off at *
  cases hth : getTransportHdrSize (p.shift off) (p ipv4ProtoOff) (len - off) with
  | none => simp only [ite_self]
  | some th =>
    have hthle := getTransportHdrSize_le hth
    have hfrag : frag0Len p len = th + (len - off - th) / 2 := by
      rw [frag0Len_eq (by rw [hoff]; exact hth), hoff]
    have hipv4 : ¬ (len < 14 + 20 + 8 ∨ ¬ pktIsIpv4Eth p) := by
      rw [not_or, not_not]
      exact ⟨by omega, hp.ipv4.2⟩
    simp only [usub32_of_le (show off + th ≤ len by omega), ← Nat.sub_sub len off th, ← hfrag,
      Nat.add_assoc off th]
    rewrite [show (Buffer.copy (fun _ => 0) 0 p off th : Packet) = frag0Plain p off th from rfl,
      frag0Plain_add, ← hfrag, if_neg hipv4,
      show len - off - th - (len - off - th) / 2 = len - off - frag0Len p len by omega]
    rfl

/-- **The layer-4 split.** The fragments are the encryptions of the payload of the packet, cut after
`frag0Len` bytes. -/
theorem fragSplitAndEncryptL4_eq_some_iff :
    fragSplitAndEncryptL4 evp P ctx counter₁ counter₂ pktId p len out₁ out₂ = some fs ↔
      ((TcpUdpFrame p len ∧ ∃ th, getTransportHdrSize
          (p.shift (ethHeaderSize + ihlAt p ethHeaderSize)) (p ipv4ProtoOff)
          (len - (ethHeaderSize + ihlAt p ethHeaderSize)) = some th ∧
        ethHeaderSize + ihlAt p ethHeaderSize + th < len) ∧ frag0Len p len ≤ fragBufSize) ∧
      cryptoLayer4EncryptFragmentSingle evp P ctx counter₁ p (p.shift ethHeaderSize)
        (ihlAt p ethHeaderSize) (p.shift (ethHeaderSize + ihlAt p ethHeaderSize))
        (frag0Plain p (ethHeaderSize + ihlAt p ethHeaderSize) (frag0Len p len)) (frag0Len p len)
        pktId 0 out₁ fragBufSize = some fs.1 ∧
      cryptoLayer4EncryptFragmentSingle evp P ctx counter₂ p (p.shift ethHeaderSize)
        (ihlAt p ethHeaderSize) (p.shift (ethHeaderSize + ihlAt p ethHeaderSize))
        (p.shift (ethHeaderSize + ihlAt p ethHeaderSize + frag0Len p len))
        (len - (ethHeaderSize + ihlAt p ethHeaderSize) - frag0Len p len) pktId 1 out₂ fragBufSize =
          some fs.2 := by
  by_cases hp : TcpUdpFrame p len
  · rw [fragSplitAndEncryptL4_eq_cut hp, cutAndEncrypt_eq_some_iff]
    simp only [hp, true_and]
  · exact iff_of_false (fun h => hp (tcpUdpFrame_of_fragSplitAndEncryptL4 h))
      fun h => hp h.1.1.1

theorem fragSplitAndEncryptL4_spec
    (h : fragSplitAndEncryptL4 evp P ctx counter₁ counter₂ pktId p len out₁ out₂ = some fs) :
    ∃ (th : ℕ) (plain₁ plain₂ : Packet),
      getTransportHdrSize (p.shift (ethHeaderSize + ihlAt p ethHeaderSize)) (p ipv4ProtoOff)
        (len - (ethHeaderSize + ihlAt p ethHeaderSize)) = some th ∧
      th ≤ frag0Len p len ∧ ethHeaderSize + ihlAt p ethHeaderSize + frag0Len p len < len ∧
      (∀ k < frag0Len p len, plain₁ k = p (ethHeaderSize + ihlAt p ethHeaderSize + k)) ∧
      (∀ k, plain₂ k = p (ethHeaderSize + ihlAt p ethHeaderSize + (frag0Len p len + k))) ∧
      cryptoLayer4EncryptFragmentSingle evp P ctx counter₁ p (p.shift ethHeaderSize)
        (ihlAt p ethHeaderSize) (p.shift (ethHeaderSize + ihlAt p ethHeaderSize)) plain₁
        (frag0Len p len) pktId 0 out₁ fragBufSize = some fs.1 ∧
      cryptoLayer4EncryptFragmentSingle evp P ctx counter₂ p (p.shift ethHeaderSize)
        (ihlAt p ethHeaderSize) (p.shift (ethHeaderSize + ihlAt p ethHeaderSize)) plain₂
        (len - (ethHeaderSize + ihlAt p ethHeaderSize) - frag0Len p len) pktId 1 out₂ fragBufSize =
          some fs.2 := by
  obtain ⟨⟨⟨-, th, hth, hlt⟩, -⟩, he₁, he₂⟩ := fragSplitAndEncryptL4_eq_some_iff.mp h
  have hfrag := frag0Len_eq hth
  refine ⟨th, _, _, hth, by omega, by omega, fun k hk => frag0Plain_apply hk, fun k => ?_, he₁, he₂⟩
  rw [Buffer.shift_apply, ← Nat.add_assoc]

end

section

variable {p w : Packet} {n : ℕ} (hp : pktIsIpv4Eth p) (h₂₀ : 20 ≤ ihlAt p ethHeaderSize)
  (hw : ∀ j < ethHeaderSize + ihlAt p ethHeaderSize, j ≠ 16 → j ≠ 17 → j ≠ 24 → j ≠ 25 → w j = p j)
include hp h₂₀ hw

theorem pktIsIpv4_fragmentL4 :
    pktIsIpv4 w (ethHeaderSize + ihlAt p ethHeaderSize + l4WirePortLen + n) := by
  have heth : ethHeaderSize = 14 := rfl
  have eth : ∀ j < ethHeaderSize, w j = p j := fun j hj =>
    hw j (by omega) (by omega) (by omega) (by omega) (by omega)
  refine ⟨by omega, ?_⟩
  exact (Buffer.be16_congr (eth 12 (by decide)) (eth 13 (by decide))).trans hp

omit hp in
theorem ihlAt_fragmentL4 : ihlAt w ethHeaderSize = ihlAt p ethHeaderSize :=
  ihlAt_congr (hw _ (by omega) (by decide) (by decide) (by decide) (by decide))

omit hp in
theorem l4PlainLen_fragmentL4 :
    l4PlainLen w (ethHeaderSize + ihlAt p ethHeaderSize + l4WirePortLen + n) = n := by
  unfold l4PlainLen
  rw [ihlAt_fragmentL4 h₂₀ hw, usub32_of_le (by omega)]
  omega

theorem fragTryReassembleL4_first {ft : FragTable} {now pktId outLen : ℕ} {out : Packet}
    (hdata : ∀ k < n, w (ethHeaderSize + ihlAt p ethHeaderSize + l4WirePortLen + k) =
      p (ethHeaderSize + ihlAt p ethHeaderSize + k)) (hfit : n ≤ fragDataSize) :
    ∃ entry, fragTryReassembleL4 ft now w
        (ethHeaderSize + ihlAt p ethHeaderSize + l4WirePortLen + n) pktId 0 out outLen =
          ⟨0, ft.set (pktId % fragTableSize) entry, out, outLen⟩ ∧
      HoldsFirst entry p n pktId (p ipv4ProtoOff) now ∧ entry.ipHdr 9 = p ipv4ProtoOff := by
  have heth : ethHeaderSize = 14 := rfl
  have hpo : ipv4ProtoOff = 23 := rfl
  have hproto : w ipv4ProtoOff = p ipv4ProtoOff :=
    hw _ (by omega) (by omega) (by omega) (by omega) (by omega)
  unfold fragTryReassembleL4
  rw [if_neg (not_not.mpr (pktIsIpv4_fragmentL4 hp h₂₀ hw))]
  simp only [ihlAt_fragmentL4 h₂₀ hw, l4PlainLen_fragmentL4 h₂₀ hw, if_true, hproto]
  unfold fragStorePending
  simp only [if_neg (not_lt.mpr hfit)]
  have hcopy : ∀ (b : Packet) {i}, i < ihlAt p ethHeaderSize →
      b.copy 0 (w.shift ethHeaderSize) 0 (ihlAt p ethHeaderSize) i = w (ethHeaderSize + i) :=
    fun b i hi => by
      rw [Buffer.copy_of_mem (Nat.zero_le i) (by omega), Nat.zero_add, Nat.sub_zero,
        Buffer.shift_apply]
  refine ⟨_, rfl, ⟨rfl, rfl, rfl, rfl, rfl, rfl, fun j hj => ?_, fun i hi h₂ h₃ h₉ h₁₀ h₁₁ => ?_,
    fun k hk => ?_⟩, ?_⟩
  · show Buffer.copy _ 0 w 0 14 j = p j
    rw [Buffer.copy_of_mem (Nat.zero_le j) (by omega), Nat.zero_add, Nat.sub_zero]
    exact hw j (by omega) (by omega) (by omega) (by omega) (by omega)
  · exact (hcopy _ hi).trans (hw _ (by omega) (by omega) (by omega) (by omega) (by omega))
  · show Buffer.copy _ 0 (w.shift _) 0 n k = _
    rw [Buffer.copy_of_mem (Nat.zero_le k) (by omega), Nat.zero_add, Nat.sub_zero,
      Buffer.shift_apply]
    exact hdata k hk
  · exact (hcopy _ (by omega)).trans hproto

omit hp h₂₀ hw in
/-- What is joined is the packet before its header is patched. -/
theorem joinedL4_eq {entry : FragEntry} {now pktId s len th : ℕ} (second out : Packet)
    (he : HoldsFirst entry p n pktId (p ipv4ProtoOff) now)
    (h₉ : entry.ipHdr 9 = p ipv4ProtoOff)
    (hth : getTransportHdrSize (p.shift (ethHeaderSize + ihlAt p ethHeaderSize)) (p ipv4ProtoOff)
      n = some th)
    (hlen : ethHeaderSize + ihlAt p ethHeaderSize + n + s = len)
    (hs : ∀ k < s, second k = p (ethHeaderSize + ihlAt p ethHeaderSize + (n + k))) :
    joinedLenL4 entry = n ∧ ∀ j < len, j ≠ 16 → j ≠ 17 → j ≠ 24 → j ≠ 25 →
      joinedL4 entry second s out j = p j := by
  have heth : ethHeaderSize = 14 := rfl
  have hpo : ipv4ProtoOff = 23 := rfl
  have hthle := getTransportHdrSize_le hth
  have hrestored : restoredTh entry.data entry.origProto entry.dataLen = th := by
    apply restoredTh_of_some
    rw [he.origProto, he.dataLen, ← hth]
    exact getTransportHdrSize_congr he.data
  have hjoined : joinedLenL4 entry = n := by
    unfold joinedLenL4
    rw [hrestored, he.dataLen]
    omega
  refine ⟨hjoined, fun j hj h₁₆ h₁₇ h₂₄ h₂₅ => ?_⟩
  unfold joinedL4
  rw [hjoined, he.ipHdrLen]
  have hipHdr := he.ipHdr
  have hdata := he.data
  generalize hoff : ethHeaderSize + ihlAt p ethHeaderSize = off at *
  rw [show 14 + ihlAt p ethHeaderSize = off from hoff]
  by_cases hs' : off + n ≤ j
  · obtain ⟨k, rfl⟩ := Nat.exists_eq_add_of_le hs'
    rw [Buffer.copy_add (by omega), Nat.zero_add, hs k (by omega), Nat.add_assoc]
  rw [Buffer.copy_of_lt (by omega)]
  by_cases hd : off ≤ j
  · obtain ⟨k, rfl⟩ := Nat.exists_eq_add_of_le hd
    rw [Buffer.copy_add (by omega), Nat.zero_add, hdata _ (by omega)]
  rw [Buffer.copy_of_lt (by omega)]
  by_cases hi : ethHeaderSize ≤ j
  · obtain ⟨k, rfl⟩ := Nat.exists_eq_add_of_le hi
    rw [show (14 : ℕ) = ethHeaderSize from rfl, Buffer.copy_add (by omega), Nat.zero_add]
    by_cases hk : k = 9
    · subst hk; exact h₉
    · exact hipHdr k (by omega) (by omega) (by omega) hk (by omega) (by omega)
  · rw [Buffer.copy_of_lt (by omega), Buffer.copy_of_mem (Nat.zero_le j) (by omega), Nat.zero_add,
      Nat.sub_zero]
    exact he.ethHdr j (by omega)

omit hp h₂₀ hw in
theorem HoldsFirst.joinFragmentsL4 {entry : FragEntry} {now pktId s len th : ℕ} (second out : Packet)
    (he : HoldsFirst entry p n pktId (p ipv4ProtoOff) now)
    (h₉ : entry.ipHdr 9 = p ipv4ProtoOff)
    (hth : getTransportHdrSize (p.shift (ethHeaderSize + ihlAt p ethHeaderSize)) (p ipv4ProtoOff)
      n = some th)
    (hlen : ethHeaderSize + ihlAt p ethHeaderSize + n + s = len)
    (hs : ∀ k < s, second k = p (ethHeaderSize + ihlAt p ethHeaderSize + (n + k))) :
    ∃ u, NetEncryptor.joinFragmentsL4 entry second s out =
        (patchIpv4 u ethHeaderSize (ihlAt p ethHeaderSize) (len - ethHeaderSize), len) ∧
      ∀ j < len, j ≠ 16 → j ≠ 17 → j ≠ 24 → j ≠ 25 → u j = p j := by
  have heth : ethHeaderSize = 14 := rfl
  obtain ⟨hjoined, hrest⟩ := joinedL4_eq second out he h₉ hth hlen hs
  refine ⟨_, ?_, hrest⟩
  have hlen' : 14 + ihlAt p ethHeaderSize + n + s = len := hlen
  have htot : ihlAt p ethHeaderSize + n + s = len - ethHeaderSize := by omega
  rw [joinFragmentsL4_eq, hjoined, he.ipHdrLen, hlen', htot]
  rfl

theorem fragTryReassembleL4_one {ft : FragTable} {now pktId outLen : ℕ} {out : Packet} :
    fragTryReassembleL4 ft now w (ethHeaderSize + ihlAt p ethHeaderSize + l4WirePortLen + n) pktId 1
        out outLen =
      let entry := ft (pktId % fragTableSize)
      let total := (entry.dataLen + n) % 2 ^ 32
      if entry.valid = false ∨ entry.pktId ≠ pktId then ⟨-1, ft, out, outLen⟩
      else if fragTimeoutNs < usub now entry.timestampNs ∨ total < 8 ∨ reassembleMax < total then
        ⟨-1, ft.invalidate (pktId % fragTableSize), out, outLen⟩
      else
        let joined := joinFragmentsL4 entry
          (w.shift (ethHeaderSize + ihlAt p ethHeaderSize + l4WirePortLen)) n out
        ⟨1, ft.invalidate (pktId % fragTableSize), joined.1, joined.2⟩ := by
  unfold fragTryReassembleL4
  rw [if_neg (not_not.mpr (pktIsIpv4_fragmentL4 hp h₂₀ hw))]
  simp only [ihlAt_fragmentL4 h₂₀ hw, l4PlainLen_fragmentL4 h₂₀ hw]
  rw [if_neg (by decide), if_pos trivial]

theorem fragTryReassembleL4_second {ft : FragTable} {now now' pktId n₁ outLen len th : ℕ}
    {out : Packet} (he : HoldsFirst (ft (pktId % fragTableSize)) p n₁ pktId (p ipv4ProtoOff) now)
    (h₉ : (ft (pktId % fragTableSize)).ipHdr 9 = p ipv4ProtoOff)
    (hth : getTransportHdrSize (p.shift (ethHeaderSize + ihlAt p ethHeaderSize)) (p ipv4ProtoOff)
      n₁ = some th)
    (hlen : ethHeaderSize + ihlAt p ethHeaderSize + n₁ + n = len)
    (hdata : ∀ k < n, w (ethHeaderSize + ihlAt p ethHeaderSize + l4WirePortLen + k) =
      p (ethHeaderSize + ihlAt p ethHeaderSize + (n₁ + k)))
    (htime : now ≤ now' ∧ now' - now ≤ fragTimeoutNs) (hmax : n₁ + n ≤ reassembleMax) :
    ∃ u, fragTryReassembleL4 ft now' w
        (ethHeaderSize + ihlAt p ethHeaderSize + l4WirePortLen + n) pktId 1 out outLen =
          ⟨1, ft.invalidate (pktId % fragTableSize),
            patchIpv4 u ethHeaderSize (ihlAt p ethHeaderSize) (len - ethHeaderSize), len⟩ ∧
      ∀ j < len, j ≠ 16 → j ≠ 17 → j ≠ 24 → j ≠ 25 → u j = p j := by
  have hmax' : reassembleMax = 4096 := rfl
  have hthle := getTransportHdrSize_le hth
  obtain ⟨u, hu, hrest⟩ := he.joinFragmentsL4
    (w.shift (ethHeaderSize + ihlAt p ethHeaderSize + l4WirePortLen)) out h₉ hth hlen hdata
  refine ⟨u, ?_, hrest⟩
  have htotal : ((ft (pktId % fragTableSize)).dataLen + n) % 2 ^ 32 = n₁ + n := by
    rw [he.dataLen]
    exact Nat.mod_eq_of_lt (by omega)
  rw [fragTryReassembleL4_one hp h₂₀ hw]
  simp only [htotal]
  rw [if_neg (by simp [he.valid, he.pktId_eq]),
    if_neg (by rw [he.timestamp, usub_of_le htime.1]; omega), hu]

end

/-- **The layer-4 split round trip.** A packet whose total length and checksum are those of its
frame is given back by its two fragments. -/
theorem fragL4_roundTrips {evp : Evp} {P : CryptoParams} {ctx : PacketCryptoCtx}
    {counter₁ counter₂ pktId len now₁ now₂ : ℕ} {p out₁ out₂ : Packet}
    {fs : (Packet × ℕ) × Packet × ℕ} (hevp : evp.Lawful) (hns : P.NonceSizeOk)
    (hp : TcpUdpFrame p len) (hT : p.be16 ipv4TotlenOff = len - ethHeaderSize)
    (hck : Ipv4CksumStored p ethHeaderSize) (hid : pktId < 65536)
    (hsplit : fragSplitAndEncryptL4 evp P ctx counter₁ counter₂ pktId p len out₁ out₂ = some fs)
    (hfit : frag0Len p len ≤ fragDataSize)
    (htime : now₁ ≤ now₂ ∧ now₂ - now₁ ≤ fragTimeoutNs) :
    SplitRoundTrips (cryptoLayer4DecryptFragment evp P ctx) fragTryReassembleL4 pktId p len fs now₁
      now₂ := by
  have h₂₀ := hp.ihl_ge
  have hid' : pktId % 65536 = pktId := Nat.mod_eq_of_lt hid
  obtain ⟨th, plain₁, plain₂, hth, hthle, hlt, hpl₁, hpl₂, he₁, he₂⟩ :=
    fragSplitAndEncryptL4_spec hsplit
  have hpre := getTransportHdrSize_prefix hth hthle
  obtain ⟨hl₁, hf₁⟩ := cryptoLayer4EncryptFragmentSingle_frame hns h₂₀ he₁
  obtain ⟨hl₂, hf₂⟩ := cryptoLayer4EncryptFragmentSingle_frame hns h₂₀ he₂
  obtain ⟨w₁, hd₁, hw₁, hb₁⟩ := hf₁.decrypt hp.ipv4.2 rfl h₂₀ hp.proto hevp
  obtain ⟨w₂, hd₂, hw₂, hb₂⟩ := hf₂.decrypt hp.ipv4.2 rfl h₂₀ hp.proto hevp
  rw [hid'] at hd₁ hd₂
  refine ⟨_, _, hl₁ ▸ hd₁, hl₂ ▸ hd₂, ⟨rfl, rfl, rfl, rfl⟩, fun ft out outLen => ?_⟩
  obtain ⟨entry, hr₁, hholds, h₉⟩ :
      ∃ entry, fragTryReassembleL4 ft now₁ w₁ _ pktId 0 out outLen = _ ∧ _ :=
    fragTryReassembleL4_first hp.ipv4.2 h₂₀ hw₁ (fun k hk => (hb₁ k hk).trans (hpl₁ k hk)) hfit
  simp only [hr₁, true_and]
  intro ft' hft'
  rw [Buffer.set_self] at hft'
  subst hft'
  -- the second half is at most one byte longer than the first
  have hsmall : frag0Len p len + (len - (ethHeaderSize + ihlAt p ethHeaderSize) - frag0Len p len) ≤
      reassembleMax := by
    have hhalf := frag0Len_eq hth
    have hdata : fragDataSize = 1600 := rfl
    have hmax : reassembleMax = 4096 := rfl
    omega
  have hlen : ethHeaderSize + ihlAt p ethHeaderSize + frag0Len p len +
      (len - (ethHeaderSize + ihlAt p ethHeaderSize) - frag0Len p len) = len := by omega
  obtain ⟨u, hr₂, hu⟩ : ∃ u, fragTryReassembleL4 ft' now₂ w₂ _ pktId 1 out outLen = _ ∧ _ :=
    fragTryReassembleL4_second hp.ipv4.2 h₂₀ hw₂ hholds h₉ hpre hlen
      (fun k hk => (hb₂ k hk).trans (hpl₂ k)) htime hsmall
  simp only [hr₂, true_and]
  exact fun j hj => patched_eq hp.ihl_le h₂₀ hT hck (Nat.zero_le _) (fun j _ => hu j) j
    (Nat.zero_le j) hj

theorem fragL4_roundTrips_ping :
    ∃ fs, fragSplitAndEncryptL4 splitEvp (sampleParams .ctr) (sampleCtx Key.zero) 0 1 1 pingFrame 46
        (fun _ => 0) (fun _ => 0) = some fs ∧
      SplitRoundTrips
        (cryptoLayer4DecryptFragment splitEvp (sampleParams .ctr) (sampleCtx Key.zero))
        fragTryReassembleL4 1 pingFrame 46 fs 1000 2000 := by
  obtain ⟨fs, hfs⟩ := Option.isSome_iff_exists.mp
    (show (fragSplitAndEncryptL4 splitEvp (sampleParams .ctr) (sampleCtx Key.zero) 0 1 1 pingFrame
      46 (fun _ => 0) (fun _ => 0)).isSome = true by decide)
  have hp : TcpUdpFrame pingFrame 46 := ⟨by decide, by decide, by decide, by decide⟩
  have hck : Ipv4CksumStored pingFrame ethHeaderSize := by
    unfold Ipv4CksumStored cryptoCalcIpChecksum cksumOf
    rw [OnesComplement.fold16_eq]
    decide
  exact ⟨fs, hfs, fragL4_roundTrips (Evp.lawful_ofStream _ _ _) (by decide) hp (by decide) hck
    (by decide) hfs (by decide) (by decide)⟩

/-! ## Layer 2 -/

/-- Where a split packet's transport data begins behind the IP header: behind a TCP or UDP header,
and right behind the IP header for any other protocol. -/
def appOffL2 (p : Packet) (len : ℕ) : ℕ :=
  (getTransportHdrSize (p.shift (ethHeaderSize + ihlAt p ethHeaderSize)) (p ipv4ProtoOff)
    (len - (ethHeaderSize + ihlAt p ethHeaderSize))).getD 0

/-- The plaintext length of the first layer-2 fragment: both headers and the first half of what
follows them. -/
def frag0LenL2 (p : Packet) (len : ℕ) : ℕ :=
  ihlAt p ethHeaderSize + appOffL2 p len +
    (len - (ethHeaderSize + ihlAt p ethHeaderSize) - appOffL2 p len) / 2

section

variable {evp : Evp} {P : CryptoParams} {ctx : PacketCryptoCtx} {counter₁ counter₂ pktId len : ℕ}
  {p out₁ out₂ : Packet} {fs : (Packet × ℕ) × Packet × ℕ}

/-- What is split at layer 2: an IPv4 packet, with the whole transport header if it is a TCP or UDP
one, that has something behind its headers. -/
structure SplitsL2 (p : Packet) (len : ℕ) : Prop where
  ipv4 : pktIsIpv4 p len
  ihl_ge : 20 ≤ ihlAt p ethHeaderSize
  transport : p ipv4ProtoOff = 6 ∨ p ipv4ProtoOff = 17 →
    getTransportHdrSize (p.shift (ethHeaderSize + ihlAt p ethHeaderSize)) (p ipv4ProtoOff)
      (len - (ethHeaderSize + ihlAt p ethHeaderSize)) ≠ none
  app : ethHeaderSize + ihlAt p ethHeaderSize + appOffL2 p len < len

theorem splitsL2_of_fragSplitAndEncryptL2
    (h : fragSplitAndEncryptL2 evp P ctx counter₁ counter₂ pktId p len out₁ out₂ = some fs) :
    SplitsL2 p len := by
  unfold fragSplitAndEncryptL2 at h
  split at h
  · cases h
  cases hreq : fragRequireIpv4 p len with
  | none => rw [hreq] at h; cases h
  | some ihl =>
    rw [hreq] at h
    obtain ⟨hip, rfl, h₂₀, hle⟩ := fragRequireIpv4_eq_some_iff.mp hreq
    simp only at h
    split at h
    · cases h
    rename_i htransport
    rw [Nat.sub_sub len ethHeaderSize] at h htransport
    rw [← appOffL2] at h
    split at h
    · cases h
    · rename_i happ
      exact ⟨hip, h₂₀, fun hproto hnone => htransport ⟨hproto, hnone⟩, by omega⟩

/-- **The layer-2 split.** The fragments are the encryptions of the IP packet, cut after
`frag0LenL2` bytes. -/
theorem fragSplitAndEncryptL2_eq_some_iff :
    fragSplitAndEncryptL2 evp P ctx counter₁ counter₂ pktId p len out₁ out₂ = some fs ↔
      (SplitsL2 p len ∧ frag0LenL2 p len ≤ fragBufSize) ∧
      cryptoLayer2EncryptFragmentSingle evp P ctx counter₁ p
        (frag0Plain p ethHeaderSize (frag0LenL2 p len)) (frag0LenL2 p len) pktId 0 out₁ fragBufSize =
          some fs.1 ∧
      cryptoLayer2EncryptFragmentSingle evp P ctx counter₂ p
        (p.shift (ethHeaderSize + frag0LenL2 p len)) (len - ethHeaderSize - frag0LenL2 p len) pktId 1
        out₂ fragBufSize = some fs.2 := by
  by_cases hp : SplitsL2 p len
  swap
  · exact iff_of_false (fun h => hp (splitsL2_of_fragSplitAndEncryptL2 h)) fun h => hp h.1.1
  have h₂₀ := hp.ihl_ge
  have happ := hp.app
  have hreq : fragRequireIpv4 p len = some (ihlAt p ethHeaderSize) :=
    fragRequireIpv4_eq_some_iff.mpr ⟨hp.ipv4, rfl, h₂₀, by omega⟩
  have hfrag : frag0LenL2 p len = ihlAt p ethHeaderSize + appOffL2 p len +
    (len - (ethHeaderSize + ihlAt p ethHeaderSize) - appOffL2 p len) / 2 := rfl
  unfold fragSplitAndEncryptL2
  simp only [hreq]
  rw [Nat.sub_sub len, if_neg (show ¬ len < 14 + 20 from not_lt.mpr hp.ipv4.1),
    if_neg fun h => hp.transport h.1 h.2, ← appOffL2, ← hfrag]
  -- the three copies are one
  rw [copy_shift_eq_frag0Plain, Buffer.copy_shift, Buffer.copy_shift, Nat.add_zero, frag0Plain_add,
    Nat.add_assoc ethHeaderSize (ihlAt p ethHeaderSize) (appOffL2 p len), frag0Plain_add, ← hfrag,
    Buffer.shift_shift,
    show ethHeaderSize + ihlAt p ethHeaderSize + (appOffL2 p len +
      (len - (ethHeaderSize + ihlAt p ethHeaderSize) - appOffL2 p len) / 2) =
        ethHeaderSize + frag0LenL2 p len by omega,
    show len - (ethHeaderSize + ihlAt p ethHeaderSize) - appOffL2 p len -
      (len - (ethHeaderSize + ihlAt p ethHeaderSize) - appOffL2 p len) / 2 =
        len - ethHeaderSize - frag0LenL2 p len by omega]
  by_cases hfit : frag0LenL2 p len ≤ fragBufSize
  swap
  · exact iff_of_false (by rw [if_pos (.inr (not_le.mp hfit))]; simp) fun h => hfit h.1.2
  rw [if_neg (by omega), and_iff_right ⟨hp, hfit⟩]
  generalize cryptoLayer2EncryptFragmentSingle evp P ctx counter₁ p _ _ _ _ _ _ = x₁
  generalize cryptoLayer2EncryptFragmentSingle evp P ctx counter₂ p _ _ _ _ _ _ = x₂
  cases x₁ <;> cases x₂ <;> simp [Prod.ext_iff]

theorem fragSplitAndEncryptL2_spec
    (h : fragSplitAndEncryptL2 evp P ctx counter₁ counter₂ pktId p len out₁ out₂ = some fs) :
    ∃ plain₁ plain₂ : Packet,
      (pktIsIpv4 p len ∧ 20 ≤ ihlAt p ethHeaderSize ∧
        ethHeaderSize + ihlAt p ethHeaderSize + appOffL2 p len < len) ∧
      (∀ k < frag0LenL2 p len, plain₁ k = p (ethHeaderSize + k)) ∧
      (∀ k, plain₂ k = p (ethHeaderSize + (frag0LenL2 p len + k))) ∧
      cryptoLayer2EncryptFragmentSingle evp P ctx counter₁ p plain₁ (frag0LenL2 p len) pktId 0 out₁
        fragBufSize = some fs.1 ∧
      cryptoLayer2EncryptFragmentSingle evp P ctx counter₂ p plain₂
        (len - ethHeaderSize - frag0LenL2 p len) pktId 1 out₂ fragBufSize = some fs.2 := by
  obtain ⟨⟨hp, -⟩, he₁, he₂⟩ := fragSplitAndEncryptL2_eq_some_iff.mp h
  refine ⟨_, _, ⟨hp.ipv4, hp.ihl_ge, hp.app⟩, fun k hk => frag0Plain_apply hk, fun k => ?_, he₁, he₂⟩
  rw [Buffer.shift_apply, ← Nat.add_assoc]

end

/-- The joined IP packet behind its Ethernet header, before the IP header is patched. -/
def joinedL2 (entry : FragEntry) (inner : Packet) (secondLen : ℕ) (outBuf : Packet) : Packet :=
  ((outBuf.copy 0 entry.ethHdr 0 wireEthLen).copy wireEthLen entry.data 0 entry.dataLen).copy
    (wireEthLen + entry.dataLen) inner 0 secondLen

theorem joinFragmentsL2_eq {entry : FragEntry} (inner : Packet) (secondLen : ℕ) (outBuf : Packet)
    (hlt : entry.ipHdrLen < entry.dataLen)
    (hth : restoredTh (entry.data.shift entry.ipHdrLen) entry.origProto
      (entry.dataLen - entry.ipHdrLen) ≤ entry.dataLen - entry.ipHdrLen) :
    joinFragmentsL2 entry inner secondLen outBuf =
      (((patchIpv4 (joinedL2 entry inner secondLen outBuf) wireEthLen entry.ipHdrLen
        (entry.dataLen + secondLen)).set 12 0x08).set 13 0x00,
        wireEthLen + entry.dataLen + secondLen) := by
  unfold joinFragmentsL2 joinedL2
  simp only [if_pos hlt, Buffer.copy_shift, Nat.add_zero]
  rw [← restoredTh]
  generalize restoredTh (entry.data.shift entry.ipHdrLen) entry.origProto
    (entry.dataLen - entry.ipHdrLen) = th at hth ⊢
  have h₁ := Buffer.copy_copy_add (outBuf.copy 0 entry.ethHdr 0 wireEthLen) entry.data wireEthLen 0
    entry.ipHdrLen th
  have h₂ := Buffer.copy_copy_add (outBuf.copy 0 entry.ethHdr 0 wireEthLen) entry.data wireEthLen 0
    (entry.ipHdrLen + th) (entry.dataLen - entry.ipHdrLen - th)
  rw [Nat.zero_add] at h₁ h₂
  rw [h₁, Nat.add_assoc wireEthLen, h₂, Nat.add_assoc wireEthLen,
    show entry.ipHdrLen + th + (entry.dataLen - entry.ipHdrLen - th) = entry.dataLen by omega,
    show wireEthLen + entry.dataLen + secondLen - wireEthLen = entry.dataLen + secondLen by omega]

/-- The entry holds the addresses of `p` and the first `n` bytes of its IP packet. -/
structure HoldsFirstL2 (entry : FragEntry) (p : Packet) (n pktId now : ℕ) : Prop where
  valid : entry.valid = true
  pktId_eq : entry.pktId = pktId
  timestamp : entry.timestampNs = now
  origProto : entry.origProto = p ipv4ProtoOff
  dataLen : entry.dataLen = n
  ipHdrLen : entry.ipHdrLen = ihlAt p ethHeaderSize
  ethHdr : ∀ j < 12, entry.ethHdr j = p j
  data : ∀ k < n, entry.data k = p (ethHeaderSize + k)

section

variable {p w : Packet} {n : ℕ}

theorem fragTryReassembleL2_first {ft : FragTable} {now pktId outLen : ℕ} {out : Packet}
    (hw : ∀ j < 12, w j = p j) (hver : (p ethHeaderSize).toNat / 16 = 4)
    (h₂₀ : 20 ≤ ihlAt p ethHeaderSize) (hn : ihlAt p ethHeaderSize ≤ n)
    (hdata : ∀ k < n, w (ethHeaderSize + k) = p (ethHeaderSize + k)) (hfit : n ≤ fragDataSize) :
    ∃ entry, fragTryReassembleL2 ft now w (ethHeaderSize + n) pktId 0 out outLen =
        ⟨0, ft.set (pktId % fragTableSize) entry, out, outLen⟩ ∧
      HoldsFirstL2 entry p n pktId now := by
  have heth : wireEthLen = ethHeaderSize := rfl
  have hbyte : w.shift ethHeaderSize 0 = p ethHeaderSize := hdata 0 (by omega)
  have hihl : ihlAt (w.shift ethHeaderSize) 0 = ihlAt p ethHeaderSize := by
    unfold ihlAt
    rw [hbyte]
  unfold fragTryReassembleL2
  rw [if_neg (by omega)]
  simp only [hihl, hbyte, heth, Nat.add_sub_cancel_left, if_true]
  rw [if_neg (by omega)]
  unfold fragStorePending
  simp only [if_neg (not_lt.mpr hfit)]
  refine ⟨_, rfl, rfl, rfl, rfl, ?_, rfl, rfl, fun j hj => ?_, fun k hk => ?_⟩
  · exact hdata 9 (by omega)
  · show Buffer.copy _ 0 w 0 14 j = p j
    rw [Buffer.copy_of_mem (Nat.zero_le j) (by omega), Nat.zero_add, Nat.sub_zero]
    exact hw j hj
  · show Buffer.copy _ 0 (w.shift _) 0 n k = _
    rw [Buffer.copy_of_mem (Nat.zero_le k) (by omega), Nat.zero_add, Nat.sub_zero,
      Buffer.shift_apply]
    exact hdata k hk

/-- What is joined is the packet before its header is patched, except for the ethertype. -/
theorem joinedL2_eq {entry : FragEntry} {now pktId s len : ℕ} (inner out : Packet)
    (he : HoldsFirstL2 entry p n pktId now) (hlen : ethHeaderSize + n + s = len)
    (hs : ∀ k < s, inner k = p (ethHeaderSize + (n + k))) :
    ∀ j < len, j ≠ 12 → j ≠ 13 → joinedL2 entry inner s out j = p j := by
  have heth : wireEthLen = ethHeaderSize := rfl
  have h₁₄ : ethHeaderSize = 14 := rfl
  intro j hj h₁₂ h₁₃
  unfold joinedL2
  rw [he.dataLen, heth]
  by_cases hs' : ethHeaderSize + n ≤ j
  · obtain ⟨k, rfl⟩ := Nat.exists_eq_add_of_le hs'
    rw [Buffer.copy_add (by omega), Nat.zero_add, hs k (by omega), Nat.add_assoc]
  rw [Buffer.copy_of_lt (by omega)]
  by_cases hd : ethHeaderSize ≤ j
  · obtain ⟨k, rfl⟩ := Nat.exists_eq_add_of_le hd
    rw [Buffer.copy_add (by omega), Nat.zero_add, he.data _ (by omega)]
  · rw [Buffer.copy_of_lt (by omega), Buffer.copy_of_mem (Nat.zero_le j) (by omega), Nat.zero_add,
      Nat.sub_zero]
    exact he.ethHdr j (by omega)

theorem fragTryReassembleL2_second {ft : FragTable} {now now' pktId n₁ outLen len : ℕ}
    {out : Packet} (he : HoldsFirstL2 (ft (pktId % fragTableSize)) p n₁ pktId now)
    (hlt : ihlAt p ethHeaderSize < n₁)
    (hth : restoredTh (p.shift (ethHeaderSize + ihlAt p ethHeaderSize)) (p ipv4ProtoOff)
      (n₁ - ihlAt p ethHeaderSize) ≤ n₁ - ihlAt p ethHeaderSize)
    (hlen : ethHeaderSize + n₁ + n = len)
    (hdata : ∀ k < n, w (ethHeaderSize + k) = p (ethHeaderSize + (n₁ + k))) (hn : 20 ≤ n)
    (htime : now ≤ now' ∧ now' - now ≤ fragTimeoutNs) (hmax : n₁ + n ≤ reassembleMax) :
    ∃ u, fragTryReassembleL2 ft now' w (ethHeaderSize + n) pktId 1 out outLen =
        ⟨1, ft.invalidate (pktId % fragTableSize),
          ((patchIpv4 u ethHeaderSize (ihlAt p ethHeaderSize) (len - ethHeaderSize)).set 12
            0x08).set 13 0x00, len⟩ ∧
      ∀ j < len, j ≠ 12 → j ≠ 13 → u j = p j := by
  have heth : wireEthLen = ethHeaderSize := rfl
  have hmax' : reassembleMax = 4096 := rfl
  have htotal : ((ft (pktId % fragTableSize)).dataLen + n) % 2 ^ 32 = n₁ + n := by
    rw [he.dataLen]
    exact Nat.mod_eq_of_lt (by omega)
  have hrest := joinedL2_eq (w.shift ethHeaderSize) out he hlen hdata
  have htail : getTransportHdrSize
      ((ft (pktId % fragTableSize)).data.shift (ihlAt p ethHeaderSize)) (p ipv4ProtoOff)
        (n₁ - ihlAt p ethHeaderSize) =
      getTransportHdrSize (p.shift (ethHeaderSize + ihlAt p ethHeaderSize)) (p ipv4ProtoOff)
        (n₁ - ihlAt p ethHeaderSize) :=
    getTransportHdrSize_congr fun i hi => by
      rw [Buffer.shift_apply, he.data _ (by omega), Buffer.shift_apply, Nat.add_assoc]
  have hlt' : (ft (pktId % fragTableSize)).ipHdrLen < (ft (pktId % fragTableSize)).dataLen := by
    rw [he.ipHdrLen, he.dataLen]
    exact hlt
  have hjoin := joinFragmentsL2_eq (w.shift ethHeaderSize) n out hlt' (by
    rw [he.ipHdrLen, he.dataLen, he.origProto]
    unfold restoredTh at hth ⊢
    rwa [htail])
  refine ⟨_, ?_, hrest⟩
  unfold fragTryReassembleL2
  rw [if_neg (by omega)]
  simp only [heth, Nat.add_sub_cancel_left, htotal]
  rw [if_neg (by decide), if_pos trivial, if_neg (by simp [he.valid, he.pktId_eq]),
    if_neg (by rw [he.timestamp, usub_of_le htime.1]; omega)]
  simp only [hjoin, he.ipHdrLen, he.dataLen, heth, hlen]
  rw [show n₁ + n = len - ethHeaderSize by omega]

end

theorem appOffL2_le (p : Packet) (len : ℕ) : appOffL2 p len ≤ 60 := by
  unfold appOffL2
  cases h : getTransportHdrSize (p.shift (ethHeaderSize + ihlAt p ethHeaderSize)) (p ipv4ProtoOff)
    (len - (ethHeaderSize + ihlAt p ethHeaderSize)) with
  | none => exact Nat.zero_le 60
  | some th => exact getTransportHdrSize_le_sixty h

theorem halves_of_fragNeedSplitL2 {P : CryptoParams} {p : Packet} {len : ℕ} (hns : P.NonceSizeOk)
    (hneed : fragNeedSplitL2 P len) :
    ihlAt p ethHeaderSize + 20 ≤ frag0LenL2 p len ∧
      frag0LenL2 p len + 20 ≤ len - ethHeaderSize := by
  have heth : ethHeaderSize = 14 := rfl
  have hft : fragTagSize = 4 := rfl
  have hmtu : fragMtu = 1500 := rfl
  have hihl := ihlAt_le p ethHeaderSize
  have happ := appOffL2_le p len
  have htag : P.tagSize ≤ 16 := P.tagSize_le
  unfold fragNeedSplitL2 cryptoLayer2FragMetaLen at hneed
  have hns' : P.nonceSize ≤ 16 := by unfold CryptoParams.NonceSizeOk at hns; omega
  unfold frag0LenL2
  omega

/-- **The layer-2 split round trip.** A packet that had to be split, and whose total length and
checksum are those of its frame, is given back by its two fragments. -/
theorem fragL2_roundTrips {evp : Evp} {P : CryptoParams} {ctx : PacketCryptoCtx}
    {counter₁ counter₂ pktId len now₁ now₂ : ℕ} {p out₁ out₂ : Packet}
    {fs : (Packet × ℕ) × Packet × ℕ} (hevp : evp.Lawful) (hns : P.NonceSizeOk)
    (hver : (p ethHeaderSize).toNat / 16 = 4) (hT : p.be16 ipv4TotlenOff = len - ethHeaderSize)
    (hck : Ipv4CksumStored p ethHeaderSize) (hid : pktId < 65536) (hneed : fragNeedSplitL2 P len)
    (hsplit : fragSplitAndEncryptL2 evp P ctx counter₁ counter₂ pktId p len out₁ out₂ = some fs)
    (hfit : frag0LenL2 p len ≤ fragDataSize)
    (htime : now₁ ≤ now₂ ∧ now₂ - now₁ ≤ fragTimeoutNs) :
    SplitRoundTrips (cryptoLayer2DecryptFragment evp P ctx) fragTryReassembleL2 pktId p len fs now₁
      now₂ := by
  have heth : ethHeaderSize = 14 := rfl
  have hid' : pktId % 65536 = pktId := Nat.mod_eq_of_lt hid
  obtain ⟨plain₁, plain₂, ⟨hip, h₂₀, hlt⟩, hpl₁, hpl₂, he₁, he₂⟩ :=
    fragSplitAndEncryptL2_spec hsplit
  obtain ⟨hhalf₁, hhalf₂⟩ := halves_of_fragNeedSplitL2 (p := p) hns hneed
  obtain ⟨hl₁, hf₁⟩ := cryptoLayer2EncryptFragmentSingle_frame hns he₁
  obtain ⟨hl₂, hf₂⟩ := cryptoLayer2EncryptFragmentSingle_frame hns he₂
  obtain ⟨w₁, hd₁, hw₁, hb₁⟩ := hf₁.decrypt hevp
  obtain ⟨w₂, hd₂, hw₂, hb₂⟩ := hf₂.decrypt hevp
  rw [hid'] at hd₁ hd₂
  refine ⟨_, _, hl₁ ▸ hd₁, hl₂ ▸ hd₂, ⟨rfl, rfl, rfl, rfl⟩, fun ft out outLen => ?_⟩
  obtain ⟨entry, hr₁, hholds⟩ :
      ∃ entry, fragTryReassembleL2 ft now₁ w₁ _ pktId 0 out outLen = _ ∧ _ :=
    fragTryReassembleL2_first hw₁ hver h₂₀ (by omega) (fun k hk => (hb₁ k hk).trans (hpl₁ k hk))
      hfit
  simp only [hr₁, true_and]
  intro ft' hft'
  rw [Buffer.set_self] at hft'
  subst hft'
  have hlen : ethHeaderSize + frag0LenL2 p len +
      (len - ethHeaderSize - frag0LenL2 p len) = len := by omega
  -- the second half is at most one byte longer than the first
  have hsmall : frag0LenL2 p len + (len - ethHeaderSize - frag0LenL2 p len) ≤ reassembleMax := by
    have hdata : fragDataSize = 1600 := rfl
    have hmax : reassembleMax = 4096 := rfl
    unfold frag0LenL2 at hfit ⊢
    omega
  obtain ⟨u, hr₂, hu⟩ : ∃ u, fragTryReassembleL2 ft' now₂ w₂ _ pktId 1 out outLen = _ ∧ _ :=
    fragTryReassembleL2_second hholds (by omega) (restoredTh_le (by omega)) hlen
      (fun k hk => (hb₂ k hk).trans (hpl₂ k)) (by omega) htime hsmall
  simp only [hr₂, true_and]
  have hrest : ∀ j, 14 ≤ j → j < len →
      patchIpv4 u ethHeaderSize (ihlAt p ethHeaderSize) (len - ethHeaderSize) j = p j :=
    patched_eq (by omega) h₂₀ hT hck le_rfl fun j hj hj' _ _ _ _ => hu j hj' (by omega) (by omega)
  -- the ethertype is written last
  have hethertype : p 12 = 0x08 ∧ p 13 = 0x00 := pktIsIpv4Eth_iff.mp hip.2
  intro j hj
  by_cases h₁₃ : j = 13
  · rw [h₁₃, Buffer.set_self, hethertype.2]
  by_cases h₁₂ : j = 12
  · rw [h₁₂, Buffer.set_of_ne (by decide), Buffer.set_self, hethertype.1]
  rw [Buffer.set_of_ne h₁₃, Buffer.set_of_ne h₁₂]
  by_cases h₁₄ : j < 14
  · rw [patchIpv4_of_ne (by omega) (by omega) (by omega) (by omega)]
    exact hu j hj h₁₂ h₁₃
  · exact hrest j (not_lt.mp h₁₄) hj

/-- An ICMP packet of 1486 bytes. -/
def icmpFrame : Packet :=
  packetOf [2, 0, 0, 0, 0, 2, 2, 0, 0, 0, 0, 1, 8, 0, 0x45, 0, 5, 206, 18, 52, 64, 0, 64, 1, 14,
    249, 10, 0, 0, 1, 10, 0, 0, 2, 8]

theorem fragL2_roundTrips_icmp :
    ∃ fs, fragSplitAndEncryptL2 splitEvp (sampleParams .ctr) (sampleCtx Key.zero) 0 1 1 icmpFrame
        1500 (fun _ => 0) (fun _ => 0) = some fs ∧
      SplitRoundTrips
        (cryptoLayer2DecryptFragment splitEvp (sampleParams .ctr) (sampleCtx Key.zero))
        fragTryReassembleL2 1 icmpFrame 1500 fs 1000 2000 := by
  obtain ⟨fs, hfs⟩ := Option.isSome_iff_exists.mp
    (show (fragSplitAndEncryptL2 splitEvp (sampleParams .ctr) (sampleCtx Key.zero) 0 1 1 icmpFrame
      1500 (fun _ => 0) (fun _ => 0)).isSome = true by decide +kernel)
  have hck : Ipv4CksumStored icmpFrame ethHeaderSize := by
    unfold Ipv4CksumStored cryptoCalcIpChecksum cksumOf
    rw [OnesComplement.fold16_eq]
    decide
  exact ⟨fs, hfs, fragL2_roundTrips (Evp.lawful_ofStream _ _ _) (by decide) (by decide) (by decide)
    hck (by decide) (by decide) hfs (by decide) (by decide)⟩

end NetEncryptor

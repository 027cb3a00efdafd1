import NetEncryptor.Core.Fragment
import NetEncryptor.Crypto.Layer3Fragment

/-!
# Splitting and reassembling at layer 3

The two fragments of a packet, decrypted and put into the table one after the other, give the
packet back exactly when the receiver takes the first fragment for the right protocol and the
header checksum is not all ones.  `fragSplitAndEncrypt_spec` says what the two fragments are,
`fragTryReassemble_first` and `fragTryReassemble_second` what the table makes of them.
-/

namespace NetEncryptor

/-! ## Transport headers -/

theorem getTransportHdrSize_congr {t t' : Packet} {proto : UInt8} {n : ℕ}
    (h : ∀ i < n, t i = t' i) : getTransportHdrSize t proto n = getTransportHdrSize t' proto n := by
  unfold getTransportHdrSize
  by_cases hn : n < 20
  · simp only [hn, if_true]
  · rw [h 12 (by omega)]

theorem getTransportHdrSize_le {t : Packet} {proto : UInt8} {n th : ℕ}
    (h : getTransportHdrSize t proto n = some th) : 8 ≤ th ∧ th ≤ n := by
  unfold getTransportHdrSize at h
  simp only at h
  split_ifs at h <;> cases h <;> omega

theorem getTransportHdrSize_le_sixty {t : Packet} {proto : UInt8} {n th : ℕ}
    (h : getTransportHdrSize t proto n = some th) : th ≤ 60 := by
  have := (t 12).toNat_lt
  unfold getTransportHdrSize at h
  simp only at h
  split_ifs at h <;> cases h <;> omega

theorem getTransportHdrSize_prefix {t : Packet} {proto : UInt8} {n m th : ℕ}
    (h : getTransportHdrSize t proto n = some th) (hm : th ≤ m) :
    getTransportHdrSize t proto m = some th := by
  unfold getTransportHdrSize at h ⊢
  simp only at h ⊢
  split_ifs at h ⊢ <;> cases h <;> first | rfl | omega

theorem guessProto_eq {t : Packet} {n : ℕ} (hn : 8 ≤ n) :
    guessProto t n = some (if getTransportHdrSize t 6 n = none then 17 else 6) := by
  have h₁₇ : getTransportHdrSize t 17 n ≠ none := by
    unfold getTransportHdrSize
    rw [if_neg (by decide), if_pos rfl, if_neg (by omega)]
    simp
  unfold guessProto
  by_cases h₆ : getTransportHdrSize t 6 n = none
  · rw [if_neg (not_not.mpr h₆), if_pos h₁₇, if_pos h₆]
  · rw [if_pos h₆, if_neg h₆]

/-! ## The two fragments -/

theorem fragRequireIpv4_eq_some_iff {p : Packet} {len ihl : ℕ} :
    fragRequireIpv4 p len = some ihl ↔
      pktIsIpv4 p len ∧ ihl = ihlAt p ethHeaderSize ∧ 20 ≤ ihl ∧ ethHeaderSize + ihl ≤ len := by
  unfold fragRequireIpv4
  split_ifs with hip
  · rw [ipv4HdrLenAt_eq_some_iff]
    exact ⟨fun h => ⟨hip, h⟩, fun h => h.2⟩
  · exact iff_of_false (by simp) fun h => hip h.1

/-- The plaintext length of the first fragment: the transport header and the first half of what
follows it. -/
def frag0Len (p : Packet) (len : ℕ) : ℕ :=
  let off := ethHeaderSize + ihlAt p ethHeaderSize
  let th := (getTransportHdrSize (p.shift off) (p ipv4ProtoOff) (len - off)).getD 0
  th + (len - off - th) / 2

theorem frag0Len_eq {p : Packet} {len th : ℕ}
    (hth : getTransportHdrSize (p.shift (ethHeaderSize + ihlAt p ethHeaderSize)) (p ipv4ProtoOff)
      (len - (ethHeaderSize + ihlAt p ethHeaderSize)) = some th) :
    frag0Len p len = th + (len - (ethHeaderSize + ihlAt p ethHeaderSize) - th) / 2 := by
  unfold frag0Len
  simp only [hth, Option.getD_some]

/-- The plaintext of a first fragment: `n` bytes of the packet in a zeroed buffer. -/
def frag0Plain (p : Packet) (off n : ℕ) : Packet := Buffer.copy (fun _ => 0) 0 p off n

theorem frag0Plain_apply {p : Packet} {off n k : ℕ} (hk : k < n) :
    frag0Plain p off n k = p (off + k) := by
  unfold frag0Plain
  rw [Buffer.copy_of_mem (Nat.zero_le k) (by omega), Nat.sub_zero]

theorem copy_shift_eq_frag0Plain (p : Packet) (off n : ℕ) :
    Buffer.copy (fun _ => 0) 0 (p.shift off) 0 n = frag0Plain p off n := by
  rw [Buffer.copy_shift]
  rfl

theorem frag0Plain_add (p : Packet) (off m n : ℕ) :
    (frag0Plain p off m).copy m p (off + m) n = frag0Plain p off (m + n) := by
  have h := Buffer.copy_copy_add (fun _ => 0) p 0 off m n
  rw [Nat.zero_add] at h
  exact h

/-- Both splits of TCP and UDP frames, behind their checks of the frame: the payload is cut after
`frag0Len` bytes, and each part is encrypted. -/
def cutAndEncrypt (p : Packet) (len : ℕ) (enc₁ enc₂ : Packet → ℕ → Option (Packet × ℕ)) :
    Option ((Packet × ℕ) × Packet × ℕ) :=
  let off := ethHeaderSize + ihlAt p ethHeaderSize
  match getTransportHdrSize (p.shift off) (p ipv4ProtoOff) (len - off) with
  | none => none
  | some th =>
    if len - off - th = 0 ∨ fragBufSize < frag0Len p len then none
    else
      match enc₁ (frag0Plain p off (frag0Len p len)) (frag0Len p len) with
      | none => none
      | some f₁ =>
        match enc₂ (p.shift (off + frag0Len p len)) (len - off - frag0Len p len) with
        | none => none
        | some f₂ => some (f₁, f₂)

theorem cutAndEncrypt_eq_some_iff {p : Packet} {len : ℕ}
    {enc₁ enc₂ : Packet → ℕ → Option (Packet × ℕ)} {fs : (Packet × ℕ) × Packet × ℕ} :
    cutAndEncrypt p len enc₁ enc₂ = some fs ↔
      ((∃ th, getTransportHdrSize (p.shift (ethHeaderSize + ihlAt p ethHeaderSize)) (p ipv4ProtoOff)
          (len - (ethHeaderSize + ihlAt p ethHeaderSize)) = some th ∧
        ethHeaderSize + ihlAt p ethHeaderSize + th < len) ∧ frag0Len p len ≤ fragBufSize) ∧
      enc₁ (frag0Plain p (ethHeaderSize + ihlAt p ethHeaderSize) (frag0Len p len)) (frag0Len p len) =
        some fs.1 ∧
      enc₂ (p.shift (ethHeaderSize + ihlAt p ethHeaderSize + frag0Len p len))
        (len - (ethHeaderSize + ihlAt p ethHeaderSize) - frag0Len p len) = some fs.2 := by
  unfold cutAndEncrypt
  simp only
  generalize hoff : ethHeaderSize + ihlAt p ethHeaderSize = off
  cases hth : getTransportHdrSize (p.shift off) (p ipv4ProtoOff) (len - off) with
  | none =>
    refine iff_of_false (by simp) fun h => ?_
    obtain ⟨_, h, -⟩ := h.1.1
    cases h
  | some th =>
    by_cases hcond : off + th < len ∧ frag0Len p len ≤ fragBufSize
    swap
    · refine iff_of_false ?_ fun h => hcond ?_
      · simp only
        rw [if_pos (show len - off - th = 0 ∨ fragBufSize < frag0Len p len by omega)]
        simp
      · obtain ⟨_, h', hlt⟩ := h.1.1
        obtain rfl := Option.some.inj h'
        exact ⟨hlt, h.1.2⟩
    simp only
    rw [if_neg (by omega), and_iff_right ⟨⟨th, rfl, hcond.1⟩, hcond.2⟩]
    generalize enc₁ _ _ = x₁
    generalize enc₂ _ _ = x₂
    cases x₁ <;> cases x₂ <;> simp [Prod.ext_iff]

section

variable {evp : Evp} {P : CryptoParams} {ctx : PacketCryptoCtx} {counter₁ counter₂ pktId len : ℕ}
  {p out₁ out₂ : Packet} {fs : (Packet × ℕ) × Packet × ℕ}

theorem tcpUdpFrame_of_fragSplitAndEncrypt
    (h : fragSplitAndEncrypt evp P ctx counter₁ counter₂ pktId p len out₁ out₂ = some fs) :
    TcpUdpFrame p len := by
  unfold fragSplitAndEncrypt at h
  split at h
  · cases h
  cases hreq : fragRequireIpv4 p len with
  | none => rw [hreq] at h; cases h
  | some ihl =>
    rw [hreq] at h
    obtain ⟨hip, rfl, h₂₀, hle⟩ := fragRequireIpv4_eq_some_iff.mp hreq
    simp only at h
    split at h
    · cases h
    · rename_i hproto
      exact ⟨hip, h₂₀, hle, by tauto⟩

theorem fragSplitAndEncrypt_eq_cut (hp : TcpUdpFrame p len) :
    fragSplitAndEncrypt evp P ctx counter₁ counter₂ pktId p len out₁ out₂ = cutAndEncrypt p len
      (fun plain n => cryptoLayer3EncryptFragmentSingle evp P ctx counter₁ p (p.shift ethHeaderSize)
        (ihlAt p ethHeaderSize) plain n pktId 0 out₁ fragBufSize)
      fun plain n => cryptoLayer3EncryptFragmentSingle evp P ctx counter₂ p (p.shift ethHeaderSize)
        (ihlAt p ethHeaderSize) plain n pktId 1 out₂ fragBufSize := by
  have heth : ethHeaderSize = 14 := rfl
  have h₂₀ := hp.ihl_ge
  have hle := hp.ihl_le
  have hreq : fragRequireIpv4 p len = some (ihlAt p ethHeaderSize) :=
    fragRequireIpv4_eq_some_iff.mpr ⟨hp.ipv4, rfl, h₂₀, hle⟩
  have hproto : ¬ (p ipv4ProtoOff ≠ 6 ∧ p ipv4ProtoOff ≠ 17) := by
    have := hp.proto
    tauto
  unfold fragSplitAndEncrypt cutAndEncrypt
  simp only [hreq, if_neg hproto]
  rw [Nat.sub_sub len]
  generalize hoff : ethHeaderSize + ihlAt p ethHeaderSize = off at *
  cases hth : getTransportHdrSize (p.shift off) (p ipv4ProtoOff) (len - off) with
  | none => simp only [ite_self]
  | some th =>
    have hthle := getTransportHdrSize_le hth
    have hfrag : frag0Len p len = th + (len - off - th) / 2 := by
      rw [frag0Len_eq (by rw [hoff]; exact hth), hoff]
    simp only [copy_shift_eq_frag0Plain, Buffer.shift_shift, ← hfrag]
    rewrite [Buffer.copy_shift, frag0Plain_add, ← hfrag,
      if_neg (show ¬ len < 14 + 20 + 8 by omega),
      show len - off - th - (len - off - th) / 2 = len - off - frag0Len p len by omega]
    rfl

/-- **The split.** The fragments are the encryptions of the payload of the packet, cut after
`frag0Len` bytes. -/
theorem fragSplitAndEncrypt_eq_some_iff :
    fragSplitAndEncrypt evp P ctx counter₁ counter₂ pktId p len out₁ out₂ = some fs ↔
      ((TcpUdpFrame p len ∧ ∃ th, getTransportHdrSize
          (p.shift (ethHeaderSize + ihlAt p ethHeaderSize)) (p ipv4ProtoOff)
          (len - (ethHeaderSize + ihlAt p ethHeaderSize)) = some th ∧
        ethHeaderSize + ihlAt p ethHeaderSize + th < len) ∧ frag0Len p len ≤ fragBufSize) ∧
      cryptoLayer3EncryptFragmentSingle evp P ctx counter₁ p (p.shift ethHeaderSize)
        (ihlAt p ethHeaderSize)
        (frag0Plain p (ethHeaderSize + ihlAt p ethHeaderSize) (frag0Len p len)) (frag0Len p len)
        pktId 0 out₁ fragBufSize = some fs.1 ∧
      cryptoLayer3EncryptFragmentSingle evp P ctx counter₂ p (p.shift ethHeaderSize)
        (ihlAt p ethHeaderSize)
        (p.shift (ethHeaderSize + ihlAt p ethHeaderSize + frag0Len p len))
        (len - (ethHeaderSize + ihlAt p ethHeaderSize) - frag0Len p len) pktId 1 out₂ fragBufSize =
          some fs.2 := by
  by_cases hp : TcpUdpFrame p len
  · rw [fragSplitAndEncrypt_eq_cut hp, cutAndEncrypt_eq_some_iff]
    simp only [hp, true_and]
  · exact iff_of_false (fun h => hp (tcpUdpFrame_of_fragSplitAndEncrypt h)) fun h => hp h.1.1.1

theorem fragSplitAndEncrypt_spec
    (h : fragSplitAndEncrypt evp P ctx counter₁ counter₂ pktId p len out₁ out₂ = some fs) :
    ∃ (th : ℕ) (plain₁ plain₂ : Packet),
      getTransportHdrSize (p.shift (ethHeaderSize + ihlAt p ethHeaderSize)) (p ipv4ProtoOff)
        (len - (ethHeaderSize + ihlAt p ethHeaderSize)) = some th ∧
      th ≤ frag0Len p len ∧ ethHeaderSize + ihlAt p ethHeaderSize + frag0Len p len < len ∧
      (∀ k < frag0Len p len, plain₁ k = p (ethHeaderSize + ihlAt p ethHeaderSize + k)) ∧
      (∀ k, plain₂ k = p (ethHeaderSize + ihlAt p ethHeaderSize + (frag0Len p len + k))) ∧
      cryptoLayer3EncryptFragmentSingle evp P ctx counter₁ p (p.shift ethHeaderSize)
        (ihlAt p ethHeaderSize) plain₁ (frag0Len p len) pktId 0 out₁ fragBufSize = some fs.1 ∧
      cryptoLayer3EncryptFragmentSingle evp P ctx counter₂ p (p.shift ethHeaderSize)
        (ihlAt p ethHeaderSize) plain₂
        (len - (ethHeaderSize + ihlAt p ethHeaderSize) - frag0Len p len) pktId 1 out₂ fragBufSize =
          some fs.2 := by
  obtain ⟨⟨⟨-, th, hth, hlt⟩, -⟩, he₁, he₂⟩ := fragSplitAndEncrypt_eq_some_iff.mp h
  have hfrag := frag0Len_eq hth
  refine ⟨th, _, _, hth, by omega, by omega, fun k hk => frag0Plain_apply hk, fun k => ?_, he₁, he₂⟩
  rw [Buffer.shift_apply, ← Nat.add_assoc]

end

/-! ## The table -/

/-- The entry holds the headers of `p`, except for total length, protocol number and checksum, and
the first `n` bytes of its payload. -/
structure HoldsFirst (entry : FragEntry) (p : Packet) (n : ℕ) (pktId : ℕ) (proto : UInt8)
    (now : ℕ) : Prop where
  valid : entry.valid = true
  pktId_eq : entry.pktId = pktId
  timestamp : entry.timestampNs = now
  origProto : entry.origProto = proto
  dataLen : entry.dataLen = n
  ipHdrLen : entry.ipHdrLen = ihlAt p ethHeaderSize
  ethHdr : ∀ j < ethHeaderSize, entry.ethHdr j = p j
  ipHdr : ∀ i < ihlAt p ethHeaderSize, i ≠ 2 → i ≠ 3 → i ≠ 9 → i ≠ 10 → i ≠ 11 →
    entry.ipHdr i = p (ethHeaderSize + i)
  data : ∀ k < n, entry.data k = p (ethHeaderSize + ihlAt p ethHeaderSize + k)

section Table

variable {p w : Packet} {n : ℕ} (hp : pktIsIpv4Eth p) (h₂₀ : 20 ≤ ihlAt p ethHeaderSize)
  (hw : ∀ j < ethHeaderSize + ihlAt p ethHeaderSize,
    j ≠ 16 → j ≠ 17 → j ≠ 23 → j ≠ 24 → j ≠ 25 → w j = p j)
include hp h₂₀ hw

theorem fragRequireIpv4_fragment : fragRequireIpv4 w (ethHeaderSize + ihlAt p ethHeaderSize + n) =
    some (ihlAt p ethHeaderSize) := by
  have heth : ethHeaderSize = 14 := rfl
  have eth : ∀ j ≤ ethHeaderSize, w j = p j := fun j hj =>
    hw j (by omega) (by omega) (by omega) (by omega) (by omega) (by omega)
  refine fragRequireIpv4_eq_some_iff.mpr ⟨⟨by omega, ?_⟩, (ihlAt_congr (eth _ le_rfl)).symm, h₂₀,
    by omega⟩
  exact (Buffer.be16_congr (eth 12 (by decide)) (eth 13 (by decide))).trans hp

theorem fragTryReassemble_first {ft : FragTable} {now pktId outLen : ℕ} {out : Packet}
    (hdata : ∀ k < n, w (ethHeaderSize + ihlAt p ethHeaderSize + k) =
      p (ethHeaderSize + ihlAt p ethHeaderSize + k))
    (hn : 8 ≤ n) (hfit : n ≤ fragDataSize) :
    ∃ entry, fragTryReassemble ft now w (ethHeaderSize + ihlAt p ethHeaderSize + n) pktId 0 out
        outLen = ⟨0, ft.set (pktId % fragTableSize) entry, out, outLen⟩ ∧
      HoldsFirst entry p n pktId
        (if getTransportHdrSize (p.shift (ethHeaderSize + ihlAt p ethHeaderSize)) 6 n = none then 17
          else 6) now := by
  have heth : ethHeaderSize = 14 := rfl
  have hlen : ethHeaderSize + ihlAt p ethHeaderSize + n - ethHeaderSize - ihlAt p ethHeaderSize =
      n := by omega
  have hth : getTransportHdrSize (w.shift (ethHeaderSize + ihlAt p ethHeaderSize)) 6 n =
      getTransportHdrSize (p.shift (ethHeaderSize + ihlAt p ethHeaderSize)) 6 n :=
    getTransportHdrSize_congr hdata
  unfold fragTryReassemble
  simp only [fragRequireIpv4_fragment hp h₂₀ hw, hlen, if_true, guessProto_eq hn, hth]
  unfold fragStorePending
  simp only [if_neg (not_lt.mpr hfit)]
  refine ⟨_, rfl, rfl, rfl, rfl, rfl, rfl, rfl, fun j hj => ?_, fun i hi h₂ h₃ h₉ h₁₀ h₁₁ => ?_,
    fun k hk => ?_⟩
  · show Buffer.copy _ 0 w 0 14 j = p j
    rw [Buffer.copy_of_mem (Nat.zero_le j) (by omega), Nat.zero_add, Nat.sub_zero]
    exact hw j (by omega) (by omega) (by omega) (by omega) (by omega) (by omega)
  · show Buffer.copy _ 0 (w.shift ethHeaderSize) 0 (ihlAt p ethHeaderSize) i = _
    rw [Buffer.copy_of_mem (Nat.zero_le i) (by omega), Nat.zero_add, Nat.sub_zero,
      Buffer.shift_apply]
    exact hw _ (by omega) (by omega) (by omega) (by omega) (by omega) (by omega)
  · show Buffer.copy _ 0 (w.shift _) 0 n k = _
    rw [Buffer.copy_of_mem (Nat.zero_le k) (by omega), Nat.zero_add, Nat.sub_zero,
      Buffer.shift_apply]
    exact hdata k hk

omit hp h₂₀ hw in
/-- What is joined is the packet before its header is patched, with the protocol number that the
entry has. -/
theorem joinFragments_eq {entry : FragEntry} {now pktId s len : ℕ} {proto : UInt8}
    (payload out : Packet) (h₂₀ : 20 ≤ ihlAt p ethHeaderSize)
    (he : HoldsFirst entry p n pktId proto now)
    (hth : ∃ th, getTransportHdrSize (p.shift (ethHeaderSize + ihlAt p ethHeaderSize)) proto n =
      some th)
    (hlen : ethHeaderSize + ihlAt p ethHeaderSize + n + s = len)
    (hs : ∀ k < s, payload k = p (ethHeaderSize + ihlAt p ethHeaderSize + (n + k))) :
    ∃ u, joinFragments entry payload s out =
        (patchIpv4 u ethHeaderSize (ihlAt p ethHeaderSize) (len - ethHeaderSize), len) ∧
      u ipv4ProtoOff = proto ∧
      ∀ j < len, j ≠ 16 → j ≠ 17 → j ≠ 23 → j ≠ 24 → j ≠ 25 → u j = p j := by
  have heth : ethHeaderSize = 14 := rfl
  have hpo : ipv4ProtoOff = 23 := rfl
  obtain ⟨th, hth⟩ := hth
  have hthle := getTransportHdrSize_le hth
  have hentry : getTransportHdrSize entry.data proto n = some th :=
    (getTransportHdrSize_congr he.data).trans hth
  unfold joinFragments fragPatchIpv4
  simp only [he.origProto, he.dataLen, he.ipHdrLen, hentry, Option.getD_some]
  have hipHdr := he.ipHdr
  have hdata := he.data
  generalize hoff : ethHeaderSize + ihlAt p ethHeaderSize = off at *
  rw [show 14 + ihlAt p ethHeaderSize = off from hoff,
    show off + th + (n - th) = off + n by omega, hlen]
  refine ⟨_, rfl, ?_, fun j hj h₁₆ h₁₇ h₂₃ h₂₄ h₂₅ => ?_⟩
  · rw [Buffer.copy_of_lt (by omega), Buffer.copy_of_lt (by omega), Buffer.copy_of_lt (by omega),
      Buffer.set_self]
  by_cases hs' : off + n ≤ j
  · obtain ⟨k, rfl⟩ := Nat.exists_eq_add_of_le hs'
    rw [Buffer.copy_add (by omega), Nat.zero_add, hs k (by omega), Nat.add_assoc]
  rw [Buffer.copy_of_lt (by omega)]
  by_cases hd : off + th ≤ j
  · obtain ⟨k, rfl⟩ := Nat.exists_eq_add_of_le hd
    rw [Buffer.copy_add (by omega), hdata _ (by omega), Nat.add_assoc]
  rw [Buffer.copy_of_lt (by omega)]
  by_cases ht : off ≤ j
  · obtain ⟨k, rfl⟩ := Nat.exists_eq_add_of_le ht
    rw [Buffer.copy_add (by omega), Nat.zero_add, hdata _ (by omega)]
  rw [Buffer.copy_of_lt (by omega), Buffer.set_of_ne (by omega)]
  by_cases hi : ethHeaderSize ≤ j
  · obtain ⟨k, rfl⟩ := Nat.exists_eq_add_of_le hi
    rw [show (14 : ℕ) = ethHeaderSize from rfl, Buffer.copy_add (by omega), Nat.zero_add]
    exact hipHdr k (by omega) (by omega) (by omega) (by omega) (by omega) (by omega)
  · rw [Buffer.copy_of_lt (by omega), Buffer.copy_of_mem (Nat.zero_le j) (by omega), Nat.zero_add,
      Nat.sub_zero]
    exact he.ethHdr j (by omega)

theorem fragTryReassemble_second {ft : FragTable} {now now' pktId n₁ outLen len : ℕ}
    {proto : UInt8} {out : Packet} (he : HoldsFirst (ft (pktId % fragTableSize)) p n₁ pktId proto now)
    (hth : ∃ th, getTransportHdrSize (p.shift (ethHeaderSize + ihlAt p ethHeaderSize)) proto n₁ =
      some th)
    (hlen : ethHeaderSize + ihlAt p ethHeaderSize + n₁ + n = len)
    (hdata : ∀ k < n, w (ethHeaderSize + ihlAt p ethHeaderSize + k) =
      p (ethHeaderSize + ihlAt p ethHeaderSize + (n₁ + k)))
    (htime : now ≤ now' ∧ now' - now < fragTimeoutNs) (hmax : n₁ + n ≤ reassembleMax) :
    ∃ u, fragTryReassemble ft now' w (ethHeaderSize + ihlAt p ethHeaderSize + n) pktId 1 out
        outLen = ⟨1, ft.invalidate (pktId % fragTableSize),
          patchIpv4 u ethHeaderSize (ihlAt p ethHeaderSize) (len - ethHeaderSize), len⟩ ∧
      u ipv4ProtoOff = proto ∧
      ∀ j < len, j ≠ 16 → j ≠ 17 → j ≠ 23 → j ≠ 24 → j ≠ 25 → u j = p j := by
  have heth : ethHeaderSize = 14 := rfl
  have hmax' : reassembleMax = 4096 := rfl
  have hpay : ethHeaderSize + ihlAt p ethHeaderSize + n - ethHeaderSize - ihlAt p ethHeaderSize =
      n := by omega
  have htotal : ((ft (pktId % fragTableSize)).dataLen + n) % 2 ^ 32 = n₁ + n := by
    rw [he.dataLen]
    exact Nat.mod_eq_of_lt (by omega)
  obtain ⟨u, hu, hproto, hrest⟩ := joinFragments_eq
    (w.shift (ethHeaderSize + ihlAt p ethHeaderSize)) out h₂₀ he hth hlen hdata
  refine ⟨u, ?_, hproto, hrest⟩
  unfold fragTryReassemble
  simp only [fragRequireIpv4_fragment hp h₂₀ hw, hpay, htotal]
  rw [if_neg (by decide), if_pos trivial, if_neg (by simp [he.valid, he.pktId_eq]),
    if_neg (by rw [he.timestamp, usub_of_le htime.1]; omega)]
  simp only [hu]

end Table

/-! ## The round trip -/

/-- A joined packet is the original one exactly when it has got the original protocol number and
the original checksum is not all ones. -/
theorem joined_eq_iff {p u : Packet} {len : ℕ} {proto : UInt8} (hp : TcpUdpFrame p len)
    (hip : Ipv4HeaderOk p ethHeaderSize) (hT : p.be16 ipv4TotlenOff = len - ethHeaderSize)
    (hproto : u ipv4ProtoOff = proto)
    (hu : ∀ j < len, j ≠ 16 → j ≠ 17 → j ≠ 23 → j ≠ 24 → j ≠ 25 → u j = p j) :
    (∀ j < len, patchIpv4 u ethHeaderSize (ihlAt p ethHeaderSize) (len - ethHeaderSize) j = p j) ↔
      proto = p ipv4ProtoOff ∧ p.be16 (ethHeaderSize + 10) ≠ 65535 := by
  have heth : ethHeaderSize = 14 := rfl
  have hpo : ipv4ProtoOff = 23 := rfl
  have hto : ipv4TotlenOff = 16 := rfl
  have h₂₀ := hp.ihl_ge
  have hle := hp.ihl_le
  have hword := p.be16_lt ipv4TotlenOff
  by_cases hpr : proto = p ipv4ProtoOff
  · have hu' : ∀ j < len, j ≠ 16 → j ≠ 17 → j ≠ 24 → j ≠ 25 → u j = p j := by
      intro j hj h₁₆ h₁₇ h₂₄ h₂₅
      by_cases h₂₃ : j = ipv4ProtoOff
      · rw [h₂₃, hproto, hpr]
      · exact hu j hj h₁₆ h₁₇ (by omega) h₂₄ h₂₅
    have hhdr : (∀ i < ihlAt p ethHeaderSize, patchIpv4 u ethHeaderSize (ihlAt p ethHeaderSize)
          (len - ethHeaderSize) (ethHeaderSize + i) = p (ethHeaderSize + i)) ↔
        (len - ethHeaderSize) % 65536 = p.be16 ipv4TotlenOff ∧
          p.be16 (ethHeaderSize + 10) ≠ 65535 :=
      patchIpv4_eq_iff hip fun i hi h₂ h₃ h₁₀ h₁₁ =>
        hu' (ethHeaderSize + i) (by omega) (by omega) (by omega) (by omega) (by omega)
    rw [Nat.mod_eq_of_lt (by omega)] at hhdr
    refine ⟨fun h => ⟨hpr, (hhdr.mp fun i hi => h _ (by omega)).2⟩, fun h j hj => ?_⟩
    by_cases hj' : ethHeaderSize ≤ j ∧ j < ethHeaderSize + ihlAt p ethHeaderSize
    · obtain ⟨i, rfl⟩ := Nat.exists_eq_add_of_le hj'.1
      exact hhdr.mpr ⟨hT.symm, h.2⟩ i (by omega)
    · rw [patchIpv4_of_ne (by omega) (by omega) (by omega) (by omega)]
      exact hu' j hj (by omega) (by omega) (by omega) (by omega)
  · refine iff_of_false (fun h => hpr ?_) fun h => hpr h.1
    have := h ipv4ProtoOff (by omega)
    rwa [patchIpv4_of_ne (by omega) (by omega) (by omega) (by omega), hproto] at this

/-- Both fragments decrypt, the first one is stored, and the second one, given to any table that
still has the first one in its slot, completes a packet with the length and the bytes of `p`. -/
def FragRoundTrips (evp : Evp) (P : CryptoParams) (ctx : PacketCryptoCtx) (p : Packet) (len : ℕ)
    (fs : (Packet × ℕ) × Packet × ℕ) (ft : FragTable) (now₁ now₂ : ℕ) : Prop :=
  ∃ d₁ d₂, cryptoLayer3DecryptFragment evp P ctx fs.1.1 fs.1.2 = some d₁ ∧
    cryptoLayer3DecryptFragment evp P ctx fs.2.1 fs.2.2 = some d₂ ∧
    ∀ out outLen,
      let r₁ := fragTryReassemble ft now₁ d₁.packet d₁.len d₁.pktId d₁.fragIndex out outLen
      r₁.ret = 0 ∧ ∀ ft' : FragTable,
        ft' (d₂.pktId % fragTableSize) = r₁.table (d₂.pktId % fragTableSize) →
          let r₂ := fragTryReassemble ft' now₂ d₂.packet d₂.len d₂.pktId d₂.fragIndex out outLen
          r₂.ret = 1 ∧ r₂.outLen = len ∧ ∀ j < len, r₂.outBuf j = p j

/-- The protocol that the receiver takes the first fragment of the packet for. -/
def guessedProto (p : Packet) (len : ℕ) : UInt8 :=
  if getTransportHdrSize (p.shift (ethHeaderSize + ihlAt p ethHeaderSize)) 6 (frag0Len p len) = none
  then 17 else 6

/-- The packet is a TCP one, or its first fragment cannot be taken for one. -/
def ProtoGuessed (p : Packet) (len : ℕ) : Prop :=
  p ipv4ProtoOff = 6 ∨ getTransportHdrSize (p.shift (ethHeaderSize + ihlAt p ethHeaderSize)) 6
    (frag0Len p len) = none

instance (p : Packet) (len : ℕ) : Decidable (ProtoGuessed p len) :=
  inferInstanceAs (Decidable (_ ∨ _))

section

variable {p : Packet} {len th : ℕ} (hth : getTransportHdrSize
  (p.shift (ethHeaderSize + ihlAt p ethHeaderSize)) (p ipv4ProtoOff)
  (len - (ethHeaderSize + ihlAt p ethHeaderSize)) = some th) (hle : th ≤ frag0Len p len)
include hth hle

theorem guessedProto_eq_iff (hp : TcpUdpFrame p len) :
    guessedProto p len = p ipv4ProtoOff ↔ ProtoGuessed p len := by
  have hpre := getTransportHdrSize_prefix hth hle
  unfold guessedProto ProtoGuessed
  rcases hp.proto with e | e <;> rw [e] at hpre ⊢
  · simp [hpre]
  · simp

theorem getTransportHdrSize_guessedProto :
    ∃ th', getTransportHdrSize (p.shift (ethHeaderSize + ihlAt p ethHeaderSize))
      (guessedProto p len) (frag0Len p len) = some th' := by
  have h₈ := getTransportHdrSize_le hth
  rw [← Option.ne_none_iff_exists']
  unfold guessedProto
  split_ifs with h₆
  · unfold getTransportHdrSize
    rw [if_neg (by decide), if_pos rfl, if_neg (by omega)]
    simp
  · exact h₆

end

section

variable {evp : Evp} {P : CryptoParams} {ctx : PacketCryptoCtx}
  {counter₁ counter₂ pktId len now₁ now₂ : ℕ} {p out₁ out₂ : Packet}
  {fs : (Packet × ℕ) × Packet × ℕ} (ft : FragTable) (hevp : evp.Lawful) (hns : P.NonceSizeOk)
  (hp : TcpUdpFrame p len)
  (hsplit : fragSplitAndEncrypt evp P ctx counter₁ counter₂ pktId p len out₁ out₂ = some fs)
  (hfit : frag0Len p len ≤ fragDataSize) (htime : now₁ ≤ now₂ ∧ now₂ - now₁ < fragTimeoutNs)
include hevp hns hp hsplit hfit htime

/-- The two fragments, decrypted and put into the table, give the packet with the protocol that
the receiver guessed and the header patched. -/
theorem frag_reassembled :
    ∃ d₁ d₂, cryptoLayer3DecryptFragment evp P ctx fs.1.1 fs.1.2 = some d₁ ∧
      cryptoLayer3DecryptFragment evp P ctx fs.2.1 fs.2.2 = some d₂ ∧
      ∀ out outLen, ∃ entry,
        fragTryReassemble ft now₁ d₁.packet d₁.len d₁.pktId d₁.fragIndex out outLen =
          ⟨0, ft.set (d₂.pktId % fragTableSize) entry, out, outLen⟩ ∧
        ∀ ft' : FragTable, ft' (d₂.pktId % fragTableSize) = entry →
          ∃ u, fragTryReassemble ft' now₂ d₂.packet d₂.len d₂.pktId d₂.fragIndex out outLen =
              ⟨1, ft'.invalidate (d₂.pktId % fragTableSize),
                patchIpv4 u ethHeaderSize (ihlAt p ethHeaderSize) (len - ethHeaderSize), len⟩ ∧
            u ipv4ProtoOff = guessedProto p len ∧
            ∀ j < len, j ≠ 16 → j ≠ 17 → j ≠ 23 → j ≠ 24 → j ≠ 25 → u j = p j := by
  obtain ⟨th, plain₁, plain₂, hth, hthle, hlt, hpl₁, hpl₂, he₁, he₂⟩ :=
    fragSplitAndEncrypt_spec hsplit
  have h₂₀ := hp.ihl_ge
  have hthge := getTransportHdrSize_le hth
  have hguess := getTransportHdrSize_guessedProto hth hthle
  obtain ⟨hl₁, hf₁⟩ := cryptoLayer3EncryptFragmentSingle_frame hns he₁
  obtain ⟨hl₂, hf₂⟩ := cryptoLayer3EncryptFragmentSingle_frame hns he₂
  obtain ⟨w₁, hd₁, hw₁, hb₁⟩ := hf₁.decrypt hp.ipv4.2 rfl hevp
  obtain ⟨w₂, hd₂, hw₂, hb₂⟩ := hf₂.decrypt hp.ipv4.2 rfl hevp
  refine ⟨_, _, hl₁ ▸ hd₁, hl₂ ▸ hd₂, fun out outLen => ?_⟩
  obtain ⟨entry, hentry, hholds⟩ : ∃ entry, fragTryReassemble ft now₁ w₁
      (ethHeaderSize + ihlAt p ethHeaderSize + frag0Len p len) (pktId % 65536) 0 out outLen =
        ⟨0, ft.set (pktId % 65536 % fragTableSize) entry, out, outLen⟩ ∧
      HoldsFirst entry p (frag0Len p len) (pktId % 65536) (guessedProto p len) now₁ :=
    fragTryReassemble_first hp.ipv4.2 h₂₀ hw₁ (fun k hk => (hb₁ k hk).trans (hpl₁ k hk))
      (by omega) hfit
  refine ⟨entry, hentry, fun ft' hft' => ?_⟩
  subst hft'
  -- the second half is at most one byte longer than the first
  have hsmall : frag0Len p len + (len - (ethHeaderSize + ihlAt p ethHeaderSize) - frag0Len p len) ≤
      reassembleMax := by
    have hhalf := frag0Len_eq hth
    have hdata : fragDataSize = 1600 := rfl
    have hmax : reassembleMax = 4096 := rfl
    omega
  exact fragTryReassemble_second hp.ipv4.2 h₂₀ hw₂ hholds hguess (by omega)
    (fun k hk => (hb₂ k hk).trans (hpl₂ k)) htime hsmall

section Exact

variable (hip : Ipv4HeaderOk p ethHeaderSize) (hT : p.be16 ipv4TotlenOff = len - ethHeaderSize)
include hip hT

theorem protoGuessed_of_fragRoundTrips (h : FragRoundTrips evp P ctx p len fs ft now₁ now₂) :
    ProtoGuessed p len ∧ p.be16 (ethHeaderSize + 10) ≠ 65535 := by
  obtain ⟨d₁, d₂, hd₁, hd₂, hall⟩ := frag_reassembled ft hevp hns hp hsplit hfit htime
  obtain ⟨th, _, _, hth, hle, -⟩ := fragSplitAndEncrypt_spec hsplit
  obtain ⟨d₁', d₂', hd₁', hd₂', h⟩ := h
  obtain rfl := Option.some.inj (hd₁.symm.trans hd₁')
  obtain rfl := Option.some.inj (hd₂.symm.trans hd₂')
  obtain ⟨entry, hr₁, hsecond⟩ := hall (fun _ => 0) 0
  obtain ⟨u, hr₂, hproto, hu⟩ := hsecond (fun _ => entry) rfl
  have hback := (h (fun _ => 0) 0).2 (fun _ => entry)
    (by rw [hr₁]; exact (Buffer.set_self _ _ _).symm)
  simp only [hr₂] at hback
  rw [← guessedProto_eq_iff hth hle hp]
  exact (joined_eq_iff hp hip hT hproto hu).mp hback.2.2

/-- **The layer-3 split round trip.** The fragments of a packet give it back exactly when the
receiver takes the first one for the right protocol and the header checksum is not all ones. -/
theorem frag_roundTrips_iff :
    FragRoundTrips evp P ctx p len fs ft now₁ now₂ ↔
      ProtoGuessed p len ∧ p.be16 (ethHeaderSize + 10) ≠ 65535 := by
  refine ⟨protoGuessed_of_fragRoundTrips ft hevp hns hp hsplit hfit htime hip hT, fun hcond => ?_⟩
  obtain ⟨d₁, d₂, hd₁, hd₂, hall⟩ := frag_reassembled ft hevp hns hp hsplit hfit htime
  obtain ⟨th, _, _, hth, hle, -⟩ := fragSplitAndEncrypt_spec hsplit
  rw [← guessedProto_eq_iff hth hle hp] at hcond
  refine ⟨d₁, d₂, hd₁, hd₂, fun out outLen => ?_⟩
  obtain ⟨entry, hr₁, hsecond⟩ := hall out outLen
  simp only [hr₁, true_and]
  intro ft' hft'
  obtain ⟨u, hr₂, hproto, hu⟩ := hsecond ft' (hft'.trans (Buffer.set_self _ _ _))
  simp only [hr₂, true_and]
  exact (joined_eq_iff hp hip hT hproto hu).mpr hcond

end Exact

end

/-- AES-128-CTR under the zero key, from the IV of the sample salt and counter `1` on. -/
def secondKeystream : List UInt8 :=
  [78, 166, 36, 98, 187, 4, 197, 244, 89, 17, 201, 199, 171, 22, 94, 193, 66, 8, 235, 191, 145, 16,
    189, 140, 145, 85, 128, 41, 127, 107, 86, 192]

/-- The key streams of the counters `0` and `1`. -/
def splitEvp : Evp :=
  Evp.ofStream (fun _ _ iv i =>
    (if iv.getD 3 0 = 0 then sampleKeystream else secondKeystream).getD i 0) (fun _ _ _ _ => 0)
    fun _ _ _ _ => ⟨List.replicate 16 0, length_zeroTag⟩

/-- A UDP datagram that carries "ping". -/
def pingFrame : Packet :=
  packetOf [2, 0, 0, 0, 0, 2, 2, 0, 0, 0, 0, 1, 8, 0, 0x45, 0, 0, 32, 18, 52, 64, 0, 64, 17, 20, 151,
    10, 0, 0, 1, 10, 0, 0, 2, 19, 136, 19, 137, 0, 12, 229, 241, 112, 105, 110, 103]

theorem frag_roundTrips_ping :
    ∃ fs, fragSplitAndEncrypt splitEvp (sampleParams .ctr) (sampleCtx Key.zero) 0 1 1 pingFrame 46
        (fun _ => 0) (fun _ => 0) = some fs ∧
      FragRoundTrips splitEvp (sampleParams .ctr) (sampleCtx Key.zero) pingFrame 46 fs
        fragTableInit 1000 2000 := by
  obtain ⟨fs, hfs⟩ := Option.isSome_iff_exists.mp
    (show (fragSplitAndEncrypt splitEvp (sampleParams .ctr) (sampleCtx Key.zero) 0 1 1 pingFrame 46
      (fun _ => 0) (fun _ => 0)).isSome = true by decide)
  have hp : TcpUdpFrame pingFrame 46 := ⟨by decide, by decide, by decide, by decide⟩
  have hip : Ipv4HeaderOk pingFrame ethHeaderSize :=
    ⟨by decide, by unfold neRxIpv4HeaderCsumOk; rw [OnesComplement.fold16_eq]; decide⟩
  exact ⟨fs, hfs, (frag_roundTrips_iff fragTableInit (Evp.lawful_ofStream _ _ _) (by decide) hp hfs
    (by decide) (by decide) hip (by decide)).mpr (by decide)⟩

/-- A UDP datagram that carries "SEE PAGE 12 OF THE NOTES".  Its fifth letter, `0x50`, stands where
a TCP header of 20 bytes has its data offset. -/
def seePageFrame : Packet :=
  packetOf [2, 0, 0, 0, 0, 2, 2, 0, 0, 0, 0, 1, 8, 0, 0x45, 0, 0, 52, 18, 52, 64, 0, 64, 17, 20, 131,
    10, 0, 0, 1, 10, 0, 0, 2, 19, 136, 19, 137, 0, 32, 213, 135, 83, 69, 69, 32, 80, 65, 71, 69, 32,
    49, 50, 32, 79, 70, 32, 84, 72, 69, 32, 78, 79, 84, 69, 83]

/-- It comes back as a TCP packet. -/
theorem frag_not_roundTrips_seePage :
    (TcpUdpFrame seePageFrame 66 ∧ Ipv4HeaderOk seePageFrame ethHeaderSize ∧
      seePageFrame.be16 ipv4TotlenOff = 66 - ethHeaderSize ∧ frag0Len seePageFrame 66 = 20) ∧
    ∃ fs, fragSplitAndEncrypt splitEvp (sampleParams .ctr) (sampleCtx Key.zero) 0 1 1 seePageFrame
        66 (fun _ => 0) (fun _ => 0) = some fs ∧
      ¬ FragRoundTrips splitEvp (sampleParams .ctr) (sampleCtx Key.zero) seePageFrame 66 fs
        fragTableInit 1000 2000 := by
  obtain ⟨fs, hfs⟩ := Option.isSome_iff_exists.mp
    (show (fragSplitAndEncrypt splitEvp (sampleParams .ctr) (sampleCtx Key.zero) 0 1 1 seePageFrame
      66 (fun _ => 0) (fun _ => 0)).isSome = true by decide)
  have hp : TcpUdpFrame seePageFrame 66 := ⟨by decide, by decide, by decide, by decide⟩
  have hip : Ipv4HeaderOk seePageFrame ethHeaderSize :=
    ⟨by decide, by unfold neRxIpv4HeaderCsumOk; rw [OnesComplement.fold16_eq]; decide⟩
  refine ⟨⟨hp, hip, by decide, by decide⟩, fs, hfs, fun h => ?_⟩
  exact absurd (protoGuessed_of_fragRoundTrips fragTableInit (Evp.lawful_ofStream _ _ _) (by decide)
    hp hfs (by decide) (by decide) hip (by decide) h) (by decide)

end NetEncryptor

import NetEncryptor.Core.FragmentLengths

/-!
# What the reassembly has room for

A slot keeps 1600 bytes of a first fragment, and the callers have buffers of 4096 bytes for the
packet.  `ret_eq_zero_iff` and `ret_eq_one_iff` say when a call stores a fragment and when it
completes a packet.  The sender cuts by its own limits, so a first fragment may be too long for the
slot (`fragmentsAccepted_iff`).  The receiver adds up the two plaintexts and forgets the headers that
it puts before them, so a packet may be too long for its buffer (`reassemblyFits_iff`).
-/

namespace NetEncryptor

open Buffer

/-! ## When a call succeeds -/

namespace SplitLayer

/-- What the layer asks of a first fragment, its length apart. -/
def FirstOk : SplitLayer → Packet → ℕ → Prop
  | l2, pkt, pktLen => wireEthLen + 20 ≤ pktLen ∧ (pkt ethHeaderSize).toNat / 16 = 4 ∧
    20 ≤ ihlAt pkt ethHeaderSize ∧ ihlAt pkt ethHeaderSize ≤ pktLen - wireEthLen
  | l3, pkt, pktLen => fragRequireIpv4 pkt pktLen ≠ none ∧
    guessProto (pkt.shift (bodyOff .l3 pkt)) (bodyLen .l3 pkt pktLen) ≠ none
  | l4, pkt, pktLen => pktIsIpv4 pkt pktLen

/-- What the layer asks of a second fragment, its length apart. -/
def SecondOk : SplitLayer → Packet → ℕ → Prop
  | l2, _, pktLen => wireEthLen + 20 ≤ pktLen
  | l3, pkt, pktLen => fragRequireIpv4 pkt pktLen ≠ none
  | l4, pkt, pktLen => pktIsIpv4 pkt pktLen

/-- The check of the total length, in `uint32_t` arithmetic. -/
def TotalLenOk : SplitLayer → ℕ → ℕ → Prop
  | l2, firstLen, secondLen => (firstLen + secondLen) % 2 ^ 32 ≤ reassembleMax
  | l3, firstLen, secondLen => (firstLen + secondLen) % 2 ^ 32 ≤ reassembleMax
  | l4, firstLen, secondLen =>
    8 ≤ (firstLen + secondLen) % 2 ^ 32 ∧ (firstLen + secondLen) % 2 ^ 32 ≤ reassembleMax

end SplitLayer

structure WaitsFor (entry : FragEntry) (c : ReassembleCall) : Prop where
  valid : entry.valid = true
  pktId : entry.pktId = c.pktId
  inTime : usub c.now entry.timestampNs ≤ fragTimeoutNs

section

variable {layer : SplitLayer} {ft : FragTable} {c : ReassembleCall}

theorem fragStorePending_eq_none_iff {entry : FragEntry} {pktId ipHdrLen dataLen now : ℕ}
    {eth ip data : Packet} {proto : UInt8} :
    fragStorePending entry pktId eth ip ipHdrLen proto data dataLen now = none ↔
      fragDataSize < dataLen := by
  unfold fragStorePending
  split_ifs with h
  · exact iff_of_true rfl h
  · exact iff_of_false (by simp) h

theorem ret_of_pending {entry : FragEntry} {pktId ipHdrLen dataLen now : ℕ} {eth ip data : Packet}
    {proto : UInt8} {refused : Reassembly} {stored : FragEntry → Reassembly}
    (hrefused : refused.ret = -1) (hstored : ∀ e, (stored e).ret = 0) :
    (match fragStorePending entry pktId eth ip ipHdrLen proto data dataLen now with
      | none => refused
      | some e => stored e).ret = 0 ↔ dataLen ≤ fragDataSize := by
  split
  · rename_i hpend
    rw [hrefused]
    exact iff_of_false (by decide) (not_le.mpr (fragStorePending_eq_none_iff.mp hpend))
  · rename_i hpend
    refine iff_of_true (hstored _) (not_lt.mp fun h => ?_)
    rw [fragStorePending_eq_none_iff.mpr h] at hpend
    cases hpend

theorem fragTryReassembleL2_first_iff (h₀ : c.fragIndex = 0) :
    (c.result fragTryReassembleL2 ft).ret = 0 ↔
      SplitLayer.l2.FirstOk c.pktData c.pktLen ∧
        SplitLayer.l2.bodyLen c.pktData c.pktLen ≤ fragDataSize := by
  unfold ReassembleCall.result fragTryReassembleL2
  simp only [h₀, if_true]
  split_ifs with hlen hhdr
  · exact iff_of_false (by simp) fun h => absurd h.1.1 (not_le.mpr hlen)
  · refine iff_of_false (by simp) fun h => ?_
    rcases hhdr with hver | hihl | hle
    · exact hver h.1.2.1
    · exact absurd h.1.2.2.1 (not_le.mpr hihl)
    · exact absurd h.1.2.2.2 (not_le.mpr hle)
  · rw [not_or, not_or, not_not, not_lt, not_lt] at hhdr
    refine Iff.trans ?_ (and_iff_right ⟨not_lt.mp hlen, hhdr⟩).symm
    exact ret_of_pending rfl fun _ => rfl

theorem fragTryReassemble_first_iff (h₀ : c.fragIndex = 0) :
    (c.result fragTryReassemble ft).ret = 0 ↔
      SplitLayer.l3.FirstOk c.pktData c.pktLen ∧
        SplitLayer.l3.bodyLen c.pktData c.pktLen ≤ fragDataSize := by
  unfold ReassembleCall.result fragTryReassemble
  simp only [h₀, if_true]
  cases hreq : fragRequireIpv4 c.pktData c.pktLen with
  | none => exact iff_of_false (by simp) fun h => h.1.1 hreq
  | some ihl =>
    obtain ⟨-, rfl, -⟩ := fragRequireIpv4_eq_some_iff.mp hreq
    simp only
    cases hguess : guessProto (c.pktData.shift (ethHeaderSize + ihlAt c.pktData ethHeaderSize))
        (c.pktLen - ethHeaderSize - ihlAt c.pktData ethHeaderSize) with
    | none => exact iff_of_false (by simp) fun h => h.1.2 hguess
    | some proto =>
      have hfirst : SplitLayer.l3.FirstOk c.pktData c.pktLen :=
        ⟨by simp [hreq], fun h => Option.some_ne_none proto (hguess.symm.trans h)⟩
      exact (ret_of_pending rfl fun _ => rfl).trans (and_iff_right hfirst).symm

theorem fragTryReassembleL4_first_iff (h₀ : c.fragIndex = 0) :
    (c.result fragTryReassembleL4 ft).ret = 0 ↔
      SplitLayer.l4.FirstOk c.pktData c.pktLen ∧
        SplitLayer.l4.bodyLen c.pktData c.pktLen ≤ fragDataSize := by
  unfold ReassembleCall.result fragTryReassembleL4
  by_cases hip : pktIsIpv4 c.pktData c.pktLen
  · rw [if_neg (not_not.mpr hip), if_pos h₀]
    exact (ret_of_pending rfl fun _ => rfl).trans (and_iff_right hip).symm
  · rw [if_pos hip]
    exact iff_of_false (by simp) fun h => hip h.1

/-- **When a call stores.** The index is `0`, the layer takes the fragment and the slot has room for
it. -/
theorem ret_eq_zero_iff :
    (c.result layer.reassemble ft).ret = 0 ↔ c.fragIndex = 0 ∧
      layer.FirstOk c.pktData c.pktLen ∧ layer.bodyLen c.pktData c.pktLen ≤ fragDataSize := by
  by_cases h₀ : c.fragIndex = 0
  · rw [and_iff_right h₀]
    cases layer with
    | l2 => exact fragTryReassembleL2_first_iff h₀
    | l3 => exact fragTryReassemble_first_iff h₀
    | l4 => exact fragTryReassembleL4_first_iff h₀
  · refine iff_of_false ?_ fun h => h₀ h.1
    have hout := layer.outcome ft c
    generalize c.result layer.reassemble ft = r at hout ⊢
    cases hout with
    | refused => simp
    | stored hstored => exact absurd hstored.fragIndex h₀
    | dropped => simp
    | completed => simp

theorem ret_of_second {tooLong : Prop} [Decidable tooLong] {refused dropped completed : Reassembly}
    (hrefused : refused.ret = -1) (hdropped : dropped.ret = -1) (hcompleted : completed.ret = 1) :
    (if (ft c.slot).valid = false ∨ (ft c.slot).pktId ≠ c.pktId then refused
      else if fragTimeoutNs < usub c.now (ft c.slot).timestampNs ∨ tooLong then dropped
      else completed).ret = 1 ↔ WaitsFor (ft c.slot) c ∧ ¬ tooLong := by
  split_ifs with hent hlate
  · rw [hrefused]
    refine iff_of_false (by decide) fun h => ?_
    rcases hent with hvalid | hid
    · exact absurd hvalid (by simp [h.1.valid])
    · exact hid h.1.pktId
  · rw [hdropped]
    refine iff_of_false (by decide) fun h => ?_
    rcases hlate with hlate | hlong
    · exact absurd h.1.inTime (not_le.mpr hlate)
    · exact h.2 hlong
  · rw [not_or, Bool.not_eq_false, not_not] at hent
    rw [not_or, not_lt] at hlate
    exact iff_of_true hcompleted ⟨⟨hent.1, hent.2, hlate.1⟩, hlate.2⟩

/-- **When a call completes.** The index is `1`, the layer takes the fragment, the slot waits for it
and the total length passes the check. -/
theorem ret_eq_one_iff :
    (c.result layer.reassemble ft).ret = 1 ↔ c.fragIndex = 1 ∧
      layer.SecondOk c.pktData c.pktLen ∧ WaitsFor (ft c.slot) c ∧
      layer.TotalLenOk (ft c.slot).dataLen (layer.bodyLen c.pktData c.pktLen) := by
  by_cases h₁ : c.fragIndex = 1
  swap
  · refine iff_of_false ?_ fun h => h₁ h.1
    have hout := layer.outcome ft c
    generalize c.result layer.reassemble ft = r at hout ⊢
    cases hout with
    | refused => simp
    | stored => simp
    | dropped => simp
    | completed h => exact absurd h h₁
  have h₀ : ¬ c.fragIndex = 0 := by
    rw [h₁]
    decide
  rw [and_iff_right h₁]
  cases layer with
  | l2 =>
    show (ReassembleCall.result c fragTryReassembleL2 ft).ret = 1 ↔ _
    unfold ReassembleCall.result fragTryReassembleL2
    by_cases hlen : c.pktLen < wireEthLen + 20
    · rw [if_pos hlen]
      exact iff_of_false (by simp) fun h => absurd h.1 (not_le.mpr hlen)
    · rw [if_neg hlen, if_neg h₀, if_pos h₁]
      refine (ret_of_second rfl rfl rfl).trans ?_
      rw [not_lt]
      exact (and_iff_right (not_lt.mp hlen)).symm
  | l3 =>
    show (ReassembleCall.result c fragTryReassemble ft).ret = 1 ↔ _
    unfold ReassembleCall.result fragTryReassemble
    cases hreq : fragRequireIpv4 c.pktData c.pktLen with
    | none => exact iff_of_false (by simp) fun h => h.1 hreq
    | some ihl =>
      obtain ⟨-, rfl, -⟩ := fragRequireIpv4_eq_some_iff.mp hreq
      have hsecond : SplitLayer.l3.SecondOk c.pktData c.pktLen := by
        show fragRequireIpv4 c.pktData c.pktLen ≠ none
        rw [hreq]
        exact Option.some_ne_none _
      simp only [if_neg h₀, if_pos h₁]
      refine (ret_of_second rfl rfl rfl).trans ?_
      rw [not_lt]
      exact (and_iff_right hsecond).symm
  | l4 =>
    show (ReassembleCall.result c fragTryReassembleL4 ft).ret = 1 ↔ _
    unfold ReassembleCall.result fragTryReassembleL4
    by_cases hip : pktIsIpv4 c.pktData c.pktLen
    · rw [if_neg (not_not.mpr hip), if_neg h₀, if_pos h₁]
      refine (ret_of_second rfl rfl rfl).trans ?_
      rw [not_or, not_lt, not_lt]
      exact (and_iff_right hip).symm
    · rw [if_pos hip]
      exact iff_of_false (by simp) fun h => hip h.1

end

/-! ## First fragments of the sender -/

section

variable {evp : Evp} {P : CryptoParams} {ctx : PacketCryptoCtx} {counter₁ counter₂ pktId len : ℕ}
  {p out₁ out₂ : Packet} {fs : (Packet × ℕ) × Packet × ℕ}

variable (evp P ctx) in
/-- The fragment decrypts to the given one, which has its packet id, its index and `n` bytes of
plaintext. -/
structure DecryptsTo (layer : SplitLayer) (f : Packet × ℕ) (pktId : ℕ) (fragIndex : UInt8) (n : ℕ)
    (d : DecryptedFragment) : Prop where
  decrypt : layer.decryptFragment evp P ctx f.1 f.2 = some d
  pktId_eq : d.pktId = pktId
  fragIndex_eq : d.fragIndex = fragIndex
  bodyLen : layer.bodyLen d.packet d.len = n

section

variable {counter n outMax : ℕ} {plain outBuf : Packet} {fragIndex : UInt8} {f : Packet × ℕ}
  (hevp : evp.Lawful) (hns : P.NonceSizeOk) (hid : pktId < 65536)
include hevp hns hid

theorem decryptsTo_l2
    (he : cryptoLayer2EncryptFragmentSingle evp P ctx counter p plain n pktId fragIndex outBuf
      outMax = some f) :
    ∃ d, DecryptsTo evp P ctx .l2 f pktId fragIndex n d ∧ d.len = ethHeaderSize + n ∧
      ∀ k < n, d.packet (ethHeaderSize + k) = plain k := by
  obtain ⟨hl, hf⟩ := cryptoLayer2EncryptFragmentSingle_frame hns he
  obtain ⟨w, hd, -, hb⟩ := hf.decrypt hevp
  rw [← hl] at hd
  exact ⟨_, ⟨hd, Nat.mod_eq_of_lt hid, rfl, Nat.add_sub_cancel_left _ _⟩, rfl, hb⟩

variable (hp : TcpUdpFrame p len)
include hp

theorem decryptsTo_l3
    (he : cryptoLayer3EncryptFragmentSingle evp P ctx counter p (p.shift ethHeaderSize)
      (ihlAt p ethHeaderSize) plain n pktId fragIndex outBuf outMax = some f) :
    ∃ d, DecryptsTo evp P ctx .l3 f pktId fragIndex n d ∧
      fragRequireIpv4 d.packet d.len = some (ihlAt p ethHeaderSize) := by
  obtain ⟨hl, hf⟩ := cryptoLayer3EncryptFragmentSingle_frame hns he
  obtain ⟨w, hd, hw, -⟩ := hf.decrypt hp.ipv4.2 rfl hevp
  rw [← hl] at hd
  have hreq : fragRequireIpv4 w (ethHeaderSize + ihlAt p ethHeaderSize + n) =
      some (ihlAt p ethHeaderSize) := fragRequireIpv4_fragment hp.ipv4.2 hp.ihl_ge hw
  have hihl := (fragRequireIpv4_eq_some_iff.mp hreq).2.1
  refine ⟨_, ⟨hd, Nat.mod_eq_of_lt hid, rfl, ?_⟩, hreq⟩
  show ethHeaderSize + ihlAt p ethHeaderSize + n - ethHeaderSize - ihlAt w ethHeaderSize = n
  omega

theorem decryptsTo_l4
    (he : cryptoLayer4EncryptFragmentSingle evp P ctx counter p (p.shift ethHeaderSize)
      (ihlAt p ethHeaderSize) (p.shift (ethHeaderSize + ihlAt p ethHeaderSize)) plain n pktId
      fragIndex outBuf outMax = some f) :
    ∃ d, DecryptsTo evp P ctx .l4 f pktId fragIndex n d ∧ pktIsIpv4 d.packet d.len := by
  have h₂₀ := hp.ihl_ge
  obtain ⟨hl, hf⟩ := cryptoLayer4EncryptFragmentSingle_frame hns h₂₀ he
  obtain ⟨w, hd, hw, -⟩ := hf.decrypt hp.ipv4.2 rfl h₂₀ hp.proto hevp
  rw [← hl] at hd
  exact ⟨_, ⟨hd, Nat.mod_eq_of_lt hid, rfl, l4PlainLen_fragmentL4 h₂₀ hw⟩,
    pktIsIpv4_fragmentL4 hp.ipv4.2 h₂₀ hw⟩

/-- **Decrypted fragments.** Each has its part of the plaintext, and the first one passes the checks
that do not concern its length. -/
theorem decryptsTo_of_split {layer : SplitLayer} (hver : (p ethHeaderSize).toNat / 16 = 4)
    (h : layer.splitAndEncrypt evp P ctx counter₁ counter₂ pktId p len out₁ out₂ = some fs) :
    ∃ d₁ d₂, DecryptsTo evp P ctx layer fs.1 pktId 0 (layer.firstLen p len) d₁ ∧
      layer.FirstOk d₁.packet d₁.len ∧
      DecryptsTo evp P ctx layer fs.2 pktId 1 (layer.secondLen p len) d₂ := by
  have heth : ethHeaderSize = 14 := rfl
  have hwire : wireEthLen = ethHeaderSize := rfl
  have h₂₀ := hp.ihl_ge
  cases layer with
  | l2 =>
    obtain ⟨-, he₁, he₂⟩ := fragSplitAndEncryptL2_eq_some_iff.mp h
    obtain ⟨d₁, hd₁, hlen, hb⟩ := decryptsTo_l2 hevp hns hid he₁
    obtain ⟨d₂, hd₂, -⟩ := decryptsTo_l2 hevp hns hid he₂
    refine ⟨d₁, d₂, hd₁, ?_, hd₂⟩
    have hle : ihlAt p ethHeaderSize ≤ frag0LenL2 p len := by
      unfold frag0LenL2
      omega
    have hbyte : d₁.packet ethHeaderSize = p ethHeaderSize :=
      (hb 0 (by omega)).trans (frag0Plain_apply (by omega))
    have hihl : ihlAt d₁.packet ethHeaderSize = ihlAt p ethHeaderSize := ihlAt_congr hbyte
    exact ⟨by omega, hbyte.symm ▸ hver, by omega, by omega⟩
  | l3 =>
    obtain ⟨⟨⟨-, th, hth, -⟩, -⟩, he₁, he₂⟩ := fragSplitAndEncrypt_eq_some_iff.mp h
    have h₈ := getTransportHdrSize_le hth
    have hfrag := frag0Len_eq hth
    obtain ⟨d₁, hd₁, hreq⟩ := decryptsTo_l3 hevp hns hid hp he₁
    obtain ⟨d₂, hd₂, -⟩ := decryptsTo_l3 hevp hns hid hp he₂
    refine ⟨d₁, d₂, hd₁, ⟨by simp [hreq], ?_⟩, hd₂⟩
    rw [hd₁.bodyLen, guessProto_eq (by omega)]
    exact Option.some_ne_none _
  | l4 =>
    obtain ⟨-, he₁, he₂⟩ := fragSplitAndEncryptL4_eq_some_iff.mp h
    obtain ⟨d₁, hd₁, hip⟩ := decryptsTo_l4 hevp hns hid hp he₁
    obtain ⟨d₂, hd₂, -⟩ := decryptsTo_l4 hevp hns hid hp he₂
    exact ⟨d₁, d₂, hd₁, hip, hd₂⟩

end

theorem dataLen_of_stored {layer : SplitLayer} {ft : FragTable} {c : ReassembleCall}
    (h : (c.result layer.reassemble ft).ret = 0) :
    ((c.result layer.reassemble ft).table c.slot).dataLen = layer.bodyLen c.pktData c.pktLen := by
  have hout := layer.outcome ft c
  generalize c.result layer.reassemble ft = r at hout h ⊢
  cases hout with
  | refused => simp at h
  | stored hstored =>
    show FragEntry.dataLen (Buffer.set _ c.slot _ c.slot) = _
    rw [Buffer.set_self]
    exact hstored.dataLen
  | dropped => simp at h
  | completed => simp at h

variable (evp P ctx) in
/-- Both fragments decrypt, the first one is stored in any table at any time, and the total length
passes the check of the second call. -/
def FragmentsAccepted (layer : SplitLayer) (pktId : ℕ) (fs : (Packet × ℕ) × Packet × ℕ) : Prop :=
  ∃ d₁ d₂, layer.decryptFragment evp P ctx fs.1.1 fs.1.2 = some d₁ ∧
    layer.decryptFragment evp P ctx fs.2.1 fs.2.2 = some d₂ ∧
    (d₁.pktId = pktId ∧ d₁.fragIndex = 0 ∧ d₂.pktId = pktId ∧ d₂.fragIndex = 1) ∧
    ∀ ft now out outLen,
      let r₁ := layer.reassemble ft now d₁.packet d₁.len d₁.pktId d₁.fragIndex out outLen
      r₁.ret = 0 ∧ layer.TotalLenOk (r₁.table (pktId % fragTableSize)).dataLen
        (layer.bodyLen d₂.packet d₂.len)

/-- The headers and half of the rest are at most 1600 bytes long, or 1601 if the rest is odd. -/
def FitsSlot (layer : SplitLayer) (p : Packet) (len : ℕ) : Prop :=
  let ihl := ihlAt p ethHeaderSize
  let th := (transportHdrSizeAt p len).getD 0
  match layer with
  | .l2 => len + ihl + th ≤ ethHeaderSize + 2 * fragDataSize + 1
  | .l3 => len + th ≤ ethHeaderSize + ihl + 2 * fragDataSize + 1
  | .l4 => len + th ≤ ethHeaderSize + ihl + 2 * fragDataSize + 1

instance (layer : SplitLayer) (p : Packet) (len : ℕ) : Decidable (FitsSlot layer p len) := by
  cases layer <;> exact inferInstanceAs (Decidable (_ ≤ _))

theorem fitsSlot_iff {layer : SplitLayer} {th : ℕ} (hp : TcpUdpFrame p len)
    (hth : transportHdrSizeAt p len = some th) :
    FitsSlot layer p len ↔ layer.firstLen p len ≤ fragDataSize := by
  have hfirst := firstLen_eq layer hth
  have hle := hp.ihl_le
  have hthle := getTransportHdrSize_le hth
  unfold FitsSlot
  simp only [hth, Option.getD_some]
  cases layer with
  | l2 =>
    have hoff : SplitLayer.l2.plainOff p = ethHeaderSize := rfl
    show len + ihlAt p ethHeaderSize + th ≤ ethHeaderSize + 2 * fragDataSize + 1 ↔ _
    omega
  | l3 =>
    have hoff : SplitLayer.l3.plainOff p = ethHeaderSize + ihlAt p ethHeaderSize := rfl
    show len + th ≤ ethHeaderSize + ihlAt p ethHeaderSize + 2 * fragDataSize + 1 ↔ _
    omega
  | l4 =>
    have hoff : SplitLayer.l4.plainOff p = ethHeaderSize + ihlAt p ethHeaderSize := rfl
    show len + th ≤ ethHeaderSize + ihlAt p ethHeaderSize + 2 * fragDataSize + 1 ↔ _
    omega

theorem transportHdrSizeAt_of_split {layer : SplitLayer} (hp : TcpUdpFrame p len)
    (h : layer.splitAndEncrypt evp P ctx counter₁ counter₂ pktId p len out₁ out₂ = some fs) :
    ∃ th, transportHdrSizeAt p len = some th ∧ ethHeaderSize + ihlAt p ethHeaderSize + th < len := by
  cases layer with
  | l2 =>
    obtain ⟨⟨hsplits, -⟩, -⟩ := fragSplitAndEncryptL2_eq_some_iff.mp h
    obtain ⟨th, hth⟩ := Option.ne_none_iff_exists'.mp (hsplits.transport hp.proto)
    refine ⟨th, hth, ?_⟩
    have happ : appOffL2 p len = th := by
      unfold appOffL2
      rw [hth, Option.getD_some]
    exact happ ▸ hsplits.app
  | l3 =>
    obtain ⟨⟨⟨-, th, hth, hlt⟩, -⟩, -⟩ := fragSplitAndEncrypt_eq_some_iff.mp h
    exact ⟨th, hth, hlt⟩
  | l4 =>
    obtain ⟨⟨⟨-, th, hth, hlt⟩, -⟩, -⟩ := fragSplitAndEncryptL4_eq_some_iff.mp h
    exact ⟨th, hth, hlt⟩

/-- The second part is at most one byte longer than half, so that a first part with room in its slot
leaves a total that passes the check. -/
theorem totalLenOk_of_firstLen_le {layer : SplitLayer} {th : ℕ}
    (hth : transportHdrSizeAt p len = some th)
    (hlt : ethHeaderSize + ihlAt p ethHeaderSize + th < len)
    (hle : layer.firstLen p len ≤ fragDataSize) :
    layer.TotalLenOk (layer.firstLen p len) (layer.secondLen p len) := by
  have hfirst := firstLen_eq layer hth
  have h₈ := getTransportHdrSize_le hth
  have hsecond : layer.secondLen p len = len - layer.plainOff p - layer.firstLen p len := rfl
  have hdata : fragDataSize = 1600 := rfl
  have hmax : reassembleMax = 4096 := rfl
  have hplain : layer.plainOff p ≤ ethHeaderSize + ihlAt p ethHeaderSize := by
    cases layer
    · exact Nat.le_add_right _ _
    · exact le_rfl
    · exact le_rfl
  have hsum : (layer.firstLen p len + layer.secondLen p len) % 2 ^ 32 =
      layer.firstLen p len + layer.secondLen p len := Nat.mod_eq_of_lt (by omega)
  cases layer with
  | l2 => exact hsum.le.trans (by omega)
  | l3 => exact hsum.le.trans (by omega)
  | l4 =>
    have hoff : SplitLayer.l4.plainOff p = ethHeaderSize + ihlAt p ethHeaderSize := rfl
    exact ⟨hsum.symm ▸ by omega, hsum.le.trans (by omega)⟩

theorem firstLen_le_of_fragmentsAccepted {layer : SplitLayer} (hevp : evp.Lawful)
    (hns : P.NonceSizeOk) (hp : TcpUdpFrame p len) (hver : (p ethHeaderSize).toNat / 16 = 4)
    (hid : pktId < 65536)
    (h : layer.splitAndEncrypt evp P ctx counter₁ counter₂ pktId p len out₁ out₂ = some fs)
    (hacc : FragmentsAccepted evp P ctx layer pktId fs) : layer.firstLen p len ≤ fragDataSize := by
  obtain ⟨d₁, -, hd₁, -⟩ := decryptsTo_of_split hevp hns hid hp hver h
  obtain ⟨d, _, hdec, -, -, hstores⟩ := hacc
  obtain rfl : d = d₁ := Option.some.inj (hdec.symm.trans hd₁.decrypt)
  have hret := (hstores fragTableInit 0 p 0).1
  have hbody := (@ret_eq_zero_iff layer fragTableInit
    ⟨d.packet, d.len, d.pktId, d.fragIndex, p, 0, 0⟩).mp hret
  rw [← hd₁.bodyLen]
  exact hbody.2.2

/-- **Sender and receiver.** The fragments of a packet are accepted exactly when the first one fits a
slot. -/
theorem fragmentsAccepted_iff {layer : SplitLayer} (hevp : evp.Lawful) (hns : P.NonceSizeOk)
    (hp : TcpUdpFrame p len) (hver : (p ethHeaderSize).toNat / 16 = 4) (hid : pktId < 65536)
    (h : layer.splitAndEncrypt evp P ctx counter₁ counter₂ pktId p len out₁ out₂ = some fs) :
    FragmentsAccepted evp P ctx layer pktId fs ↔ FitsSlot layer p len := by
  obtain ⟨th, hth, hlt⟩ := transportHdrSizeAt_of_split hp h
  rw [fitsSlot_iff hp hth]
  constructor
  · exact firstLen_le_of_fragmentsAccepted hevp hns hp hver hid h
  · intro hle
    obtain ⟨d₁, d₂, hd₁, hfirst, hd₂⟩ := decryptsTo_of_split hevp hns hid hp hver h
    refine ⟨d₁, d₂, hd₁.decrypt, hd₂.decrypt,
      ⟨hd₁.pktId_eq, hd₁.fragIndex_eq, hd₂.pktId_eq, hd₂.fragIndex_eq⟩, ?_⟩
    intro ft now out outLen
    have hret := (@ret_eq_zero_iff layer ft
      ⟨d₁.packet, d₁.len, d₁.pktId, d₁.fragIndex, out, outLen, now⟩).mpr
        ⟨hd₁.fragIndex_eq, hfirst, hd₁.bodyLen.symm ▸ hle⟩
    refine ⟨hret, ?_⟩
    -- the slot now holds the first part, and the second call adds the second one
    have hdata := dataLen_of_stored hret
    rw [hd₁.bodyLen] at hdata
    rw [← hd₁.pktId_eq, hd₂.bodyLen]
    exact hdata.symm ▸ totalLenOk_of_firstLen_le hth hlt hle

end

theorem fragmentsAccepted_iff_ping :
    ∃ fs, SplitLayer.l4.splitAndEncrypt splitEvp (sampleParams .ctr) (sampleCtx Key.zero) 0 1 1
        pingFrame 46 (fun _ => 0) (fun _ => 0) = some fs ∧
      FragmentsAccepted splitEvp (sampleParams .ctr) (sampleCtx Key.zero) .l4 1 fs := by
  obtain ⟨fs, hfs⟩ := Option.isSome_iff_exists.mp
    (show (SplitLayer.l4.splitAndEncrypt splitEvp (sampleParams .ctr) (sampleCtx Key.zero) 0 1 1
      pingFrame 46 (fun _ => 0) (fun _ => 0)).isSome = true by decide)
  have hp : TcpUdpFrame pingFrame 46 := ⟨by decide, by decide, by decide, by decide⟩
  exact ⟨fs, hfs, (fragmentsAccepted_iff (Evp.lawful_ofStream _ _ _) (by decide) hp (by decide)
    (by decide) hfs).mpr (by decide)⟩

/-- A UDP datagram of 3286 bytes, which carries zeros. -/
def jumboFrame : Packet :=
  packetOf [2, 0, 0, 0, 0, 2, 2, 0, 0, 0, 0, 1, 8, 0, 0x45, 0, 12, 214, 18, 52, 64, 0, 64, 17, 7, 225,
    10, 0, 0, 1, 10, 0, 0, 2, 19, 136, 19, 137, 12, 194, 171, 86]

/-- The sender splits it at every layer, and the receiver has no room for the first fragment. -/
theorem not_fragmentsAccepted_jumbo :
    TcpUdpFrame jumboFrame 3300 ∧ jumboFrame.be16 ipv4TotlenOff = 3300 - ethHeaderSize ∧
    ∀ layer : SplitLayer, ∃ fs, layer.splitAndEncrypt splitEvp (sampleParams .ctr)
        (sampleCtx Key.zero) 0 1 1 jumboFrame 3300 (fun _ => 0) (fun _ => 0) = some fs ∧
      ¬ FragmentsAccepted splitEvp (sampleParams .ctr) (sampleCtx Key.zero) layer 1 fs := by
  have hp : TcpUdpFrame jumboFrame 3300 := ⟨by decide, by decide, by decide, by decide⟩
  have hth : transportHdrSizeAt jumboFrame 3300 = some 8 := by decide
  refine ⟨hp, by decide, fun layer => ?_⟩
  have hns : (sampleParams .ctr).NonceSizeOk := by decide
  have hsplit : layer.splitAndEncrypt splitEvp (sampleParams .ctr) (sampleCtx Key.zero) 0 1 1
      jumboFrame 3300 (fun _ => 0) (fun _ => 0) ≠ none :=
    (splitAndEncrypt_ne_none_iff layer hns hp hth).mpr
      ⟨⟨rfl, fun _ => by decide, by decide, by cases layer <;> decide, by cases layer <;> decide⟩,
        encryptPayload_ofStream_fst, encryptPayload_ofStream_fst⟩
  obtain ⟨fs, hfs⟩ := Option.ne_none_iff_exists'.mp hsplit
  refine ⟨fs, hfs, fun hacc => ?_⟩
  have hle := firstLen_le_of_fragmentsAccepted (Evp.lawful_ofStream _ _ _) hns hp (by decide)
    (by decide) hfs hacc
  exact absurd hle (by cases layer <;> decide)

/-! ## Completed packets -/

/-- The size of the callers' buffers for a packet. -/
def reassBufSize : ℕ := 4096

/-- Where the second part begins in a joined packet. -/
def SplitLayer.secondOff : SplitLayer → FragEntry → ℕ
  | l2, entry =>
    let tailLen := entry.dataLen - entry.ipHdrLen
    if entry.ipHdrLen < entry.dataLen then ethHeaderSize + entry.ipHdrLen +
      max (restoredTh (entry.data.shift entry.ipHdrLen) entry.origProto tailLen) tailLen
    else ethHeaderSize + entry.ipHdrLen
  | l3, entry => ethHeaderSize + entry.ipHdrLen + joinedLenL4 entry
  | l4, entry => ethHeaderSize + entry.ipHdrLen + joinedLenL4 entry

/-- Where the checksum field of an IP header behind an Ethernet header ends. -/
def ipv4CsumEnd : ℕ := ethHeaderSize + 12

theorem patchIpv4_fills {f : Packet → Packet} {n : ℕ} (h : FillsFrom ipv4CsumEnd n f)
    (ipHdrLen ipTotal : ℕ) :
    FillsFrom ipv4CsumEnd n fun b => patchIpv4 (f b) ethHeaderSize ipHdrLen ipTotal := by
  refine h.congr fun b j hj => ?_
  unfold ipv4CsumEnd at hj
  exact patchIpv4_of_ne (by omega) (by omega) (by omega) (by omega)

section

variable (entry : FragEntry) (second : Packet) (n : ℕ)

theorem fills_parts {f : Packet → Packet} {off : ℕ} (h : FillsFrom ipv4CsumEnd off f)
    (data : Packet) (th firstLen : ℕ) :
    FillsFrom ipv4CsumEnd (off + max th firstLen + n) fun b =>
      (((f b).copy off data 0 th).copy (off + th) data th (firstLen - th)).copy
        (off + th + (firstLen - th)) second 0 n := by
  rw [← add_tsub_eq_max, ← Nat.add_assoc]
  exact ((h.copy data 0 th).copy data th (firstLen - th)).copy second 0 n

/-- **The join.** It fills the buffer up to the length that it reports. -/
theorem SplitLayer.join_fills (layer : SplitLayer) :
    FillsFrom ipv4CsumEnd (layer.secondOff entry + n) fun b => (layer.join entry second n b).1 := by
  have hframe := (@fillsFrom_id UInt8 ipv4CsumEnd).copy entry.ethHdr 0 ethHeaderSize
  rw [Nat.zero_add] at hframe
  cases layer with
  | l2 =>
    have hhdr := hframe.copy entry.data 0 entry.ipHdrLen
    have h₁₂ : 12 < ipv4CsumEnd := by decide
    have h₁₃ : 13 < ipv4CsumEnd := by decide
    show FillsFrom _ _ fun b => (joinFragmentsL2 entry second n b).1
    unfold joinFragmentsL2 secondOff
    by_cases hlt : entry.ipHdrLen < entry.dataLen
    · simp only [if_pos hlt]
      exact ((patchIpv4_fills (fills_parts second n hhdr (entry.data.shift _) _ _) _ _).set h₁₂
        _).set h₁₃ _
    · simp only [if_neg hlt]
      exact ((patchIpv4_fills (hhdr.copy second 0 n) _ _).set h₁₂ _).set h₁₃ _
  | l3 =>
    have hhdr := (hframe.copy entry.ipHdr 0 entry.ipHdrLen).set
      (show ipv4ProtoOff < ipv4CsumEnd by decide) entry.origProto
    exact patchIpv4_fills (fills_parts second n hhdr entry.data _ _) _ _
  | l4 =>
    have hhdr := hframe.copy entry.ipHdr 0 entry.ipHdrLen
    exact patchIpv4_fills (fills_parts second n hhdr entry.data _ _) _ _

theorem SplitLayer.join_snd (layer : SplitLayer) (b : Packet) :
    (layer.join entry second n b).2 = layer.secondOff entry + n := by
  have hmax : ∀ off th m : ℕ, off + th + (m - th) + n = off + max th m + n := fun off th m => by
    rw [← add_tsub_eq_max, ← Nat.add_assoc]
  cases layer with
  | l2 =>
    show (joinFragmentsL2 entry second n b).2 = _
    unfold joinFragmentsL2 secondOff
    by_cases hlt : entry.ipHdrLen < entry.dataLen
    · simp only [if_pos hlt]
      exact hmax _ _ _
    · simp only [if_neg hlt]
      rfl
  | l3 => exact hmax _ _ _
  | l4 => exact hmax _ _ _

end

section

variable {layer : SplitLayer} {ft : FragTable} {c : ReassembleCall}

/-- The bytes of its buffer that a call writes. -/
def writtenBytes (layer : SplitLayer) (ft : FragTable) (c : ReassembleCall) : Set ℕ :=
  written fun buf => ({ c with outBuf := buf }.result layer.reassemble ft).outBuf

theorem result_of_ret_eq_one (hret : (c.result layer.reassemble ft).ret = 1) :
    ∃ out, out = layer.join (ft c.slot) (c.pktData.shift (layer.bodyOff c.pktData))
        (layer.bodyLen c.pktData c.pktLen) c.outBuf ∧
      c.result layer.reassemble ft = ⟨1, ft.invalidate c.slot, out.1, out.2⟩ := by
  have hout := layer.outcome ft c
  generalize c.result layer.reassemble ft = r at hout hret ⊢
  cases hout with
  | refused => simp at hret
  | stored _ => simp at hret
  | dropped _ => simp at hret
  | completed _ _ _ _ hjoin => exact ⟨_, hjoin, rfl⟩

/-- What the call writes, and the length that it reports, are inside the callers' buffer. -/
structure FitsBuffer (layer : SplitLayer) (ft : FragTable) (c : ReassembleCall) : Prop where
  writes : ∀ j ∈ writtenBytes layer ft c, j < reassBufSize
  outLen : (c.result layer.reassemble ft).outLen ≤ reassBufSize

theorem call_fills (hret : (c.result layer.reassemble ft).ret = 1) :
    FillsFrom ipv4CsumEnd
      (layer.secondOff (ft c.slot) + layer.bodyLen c.pktData c.pktLen) fun buf =>
        ({ c with outBuf := buf }.result layer.reassemble ft).outBuf := by
  obtain ⟨h₁, hsecond, hwaits, htotal⟩ := ret_eq_one_iff.mp hret
  refine (layer.join_fills (ft c.slot) (c.pktData.shift (layer.bodyOff c.pktData))
    (layer.bodyLen c.pktData c.pktLen)).congr fun b j _ => ?_
  have hret' : ({ c with outBuf := b }.result layer.reassemble ft).ret = 1 :=
    ret_eq_one_iff.mpr ⟨h₁, hsecond, ⟨hwaits.valid, hwaits.pktId, hwaits.inTime⟩, htotal⟩
  obtain ⟨out, rfl, hr⟩ := result_of_ret_eq_one hret'
  rw [hr]
  rfl

theorem outLen_of_ret_eq_one (hret : (c.result layer.reassemble ft).ret = 1) :
    (c.result layer.reassemble ft).outLen =
      layer.secondOff (ft c.slot) + layer.bodyLen c.pktData c.pktLen := by
  obtain ⟨out, rfl, hr⟩ := result_of_ret_eq_one hret
  rw [hr]
  exact layer.join_snd _ _ _ _

theorem fitsBuffer_iff (hret : (c.result layer.reassemble ft).ret = 1) :
    FitsBuffer layer ft c ↔
      layer.secondOff (ft c.slot) + layer.bodyLen c.pktData c.pktLen ≤ reassBufSize := by
  have hlen := outLen_of_ret_eq_one hret
  constructor
  · intro h
    exact hlen ▸ h.outLen
  · intro h
    refine ⟨fun j hj => ?_, hlen.symm ▸ h⟩
    by_contra hge
    have : Nontrivial UInt8 := ⟨0, 1, by decide⟩
    have hbehind : ipv4CsumEnd ≤ j := le_trans (by decide) (not_lt.mp hge)
    have hlt := ((call_fills hret).mem_written_iff hbehind).mp hj
    exact hge (hlt.trans_le h)

end

/-! ### The header that is restored -/

/-- If the slot is valid, it has room for the header that the join restores. -/
def FragEntry.HeaderKept (entry : FragEntry) : Prop :=
  entry.valid = true → restoredTh entry.data entry.origProto entry.dataLen ≤ entry.dataLen

theorem restoredTh_le_of_guessProto {old payload : Packet} {n : ℕ} {proto : UInt8}
    (h : guessProto payload n = some proto) : restoredTh (old.copy 0 payload 0 n) proto n ≤ n := by
  have hne : getTransportHdrSize payload proto n ≠ none := by
    unfold guessProto at h
    split_ifs at h with h₆ h₁₇
    · exact Option.some.inj h ▸ h₆
    · exact Option.some.inj h ▸ h₁₇
  obtain ⟨th, hth⟩ := Option.ne_none_iff_exists'.mp hne
  have hcopy : getTransportHdrSize (old.copy 0 payload 0 n) proto n = some th :=
    (getTransportHdrSize_congr fun i hi => by
      rw [copy_of_mem (Nat.zero_le i) (by omega), Nat.zero_add, Nat.sub_zero]).trans hth
  rw [restoredTh_of_some hcopy]
  exact (getTransportHdrSize_le hth).2

section

variable {ft : FragTable} {c : ReassembleCall}

theorem headerKept_of_stored (hret : (c.result fragTryReassemble ft).ret = 0) :
    ((c.result fragTryReassemble ft).table c.slot).HeaderKept := by
  have h₀ := (@ret_eq_zero_iff .l3 ft c).mp hret
  revert hret
  unfold ReassembleCall.result fragTryReassemble
  simp only [h₀.1, if_true]
  split
  · nofun
  split
  · nofun
  rename_i hguess
  split
  · nofun
  rename_i hpend
  intro _ _
  simp only [ReassembleCall.slot, set_self]
  unfold fragStorePending at hpend
  split at hpend
  · cases hpend
  · obtain rfl := Option.some.inj hpend
    exact restoredTh_le_of_guessProto hguess

theorem headerKept_call (h : ∀ i, (ft i).HeaderKept) (i : ℕ) :
    ((c.result fragTryReassemble ft).table i).HeaderKept := by
  by_cases hslot : i = c.slot
  · subst hslot
    have hout := @fragTryReassemble_outcome ft c
    have hstored := @headerKept_of_stored ft c
    generalize c.result fragTryReassemble ft = r at hout hstored ⊢
    cases hout with
    | refused => exact h _
    | stored _ => exact hstored rfl
    | dropped _ => exact fun hi => absurd hi (by simp [FragTable.valid_invalidate])
    | completed => exact fun hi => absurd hi (by simp [FragTable.valid_invalidate])
  · have hne : (c.result SplitLayer.l3.reassemble ft).table i = ft i := result_table_of_ne hslot
    show ((c.result SplitLayer.l3.reassemble ft).table i).HeaderKept
    rw [hne]
    exact h i

end

/-- **The header invariant.** It holds of the layer-3 table after every history. -/
theorem headerKept {as : List TableEvent} {s : FragTableState}
    (hrun : Runs.run (fragTableStep .l3) FragTableState.init as = some s) (i : ℕ) :
    (s.table i).HeaderKept := by
  refine Runs.invariant_run (I := fun s => ∀ i, (s.table i).HeaderKept)
    (fun s e s' h hstep => ?_) (fun _ hi => absurd hi Bool.false_ne_true) hrun i
  cases e with
  | reassemble c =>
    obtain ⟨-, rfl⟩ := fragTableStep_reassemble.mp hstep
    exact headerKept_call h
  | gc now =>
    obtain ⟨-, rfl⟩ := fragTableStep_gc.mp hstep
    intro i hi
    have hgc : fragTableGc s.table now i = s.table i := fragTableGc_of_valid hi
    have hkept : (fragTableGc s.table now i).HeaderKept := hgc.symm ▸ h i
    exact hkept hi

/-! ### The condition -/

/-- Where the second part begins behind a first fragment: behind Ethernet and IP header and the
fragment's plaintext, which is at layers 2 and 4 as long as a transport header at least. -/
def SplitLayer.headLen (layer : SplitLayer) (first : ReassembleCall) : ℕ :=
  let ihl := ihlAt first.pktData ethHeaderSize
  let firstLen := layer.bodyLen first.pktData first.pktLen
  let minTh := if first.pktData ipv4ProtoOff = 6 then 20 else 8
  match layer with
  | .l2 =>
    if ihl < firstLen then ethHeaderSize + ihl + max minTh (firstLen - ihl) else ethHeaderSize + ihl
  | .l3 => ethHeaderSize + ihl + firstLen
  | .l4 => ethHeaderSize + ihl + max minTh firstLen

theorem max_restoredTh (data : Packet) (proto : UInt8) (n : ℕ) :
    max (restoredTh data proto n) n = max (if proto = 6 then 20 else 8) n := by
  unfold restoredTh getTransportHdrSize
  simp only
  split_ifs <;> simp only [Option.getD_some, Option.getD_none]
  all_goals omega

theorem secondOff_eq {layer : SplitLayer} {entry : FragEntry} {first : ReassembleCall}
    (he : StoredBy layer entry first) (hkept : layer = .l3 → entry.HeaderKept) :
    layer.secondOff entry = layer.headLen first := by
  have hlen := he.dataLen
  have hihl := he.ipHdrLen
  cases layer with
  | l2 =>
    unfold SplitLayer.secondOff SplitLayer.headLen
    simp only [max_restoredTh, hlen, hihl, he.origProto (by decide)]
  | l3 =>
    have hle := hkept rfl he.valid
    show ethHeaderSize + entry.ipHdrLen + max _ entry.dataLen =
      ethHeaderSize + ihlAt first.pktData ethHeaderSize + _
    rw [max_eq_right hle, hlen, hihl]
  | l4 =>
    unfold SplitLayer.secondOff SplitLayer.headLen joinedLenL4
    simp only [max_restoredTh, hlen, hihl, he.origProto (by decide)]

/-- **Reassembled packets.** After any history, a call that completes a packet stays inside the
callers' buffer exactly when headers and both parts do. -/
theorem reassemblyFits_iff {layer : SplitLayer} {as : List TableEvent} {s : FragTableState}
    {c : ReassembleCall} (hrun : Runs.run (fragTableStep layer) FragTableState.init as = some s)
    (hnow : s.clock ≤ c.now) (hret : (c.result layer.reassemble s.table).ret = 1) :
    ∃ first, LastStore layer as c.slot first ∧ (FitsBuffer layer s.table c ↔
      layer.headLen first + layer.bodyLen c.pktData c.pktLen ≤ reassBufSize) := by
  obtain ⟨-, first, hlast, -, -, hstored, -⟩ := completed_lastStore hrun hnow hret
  refine ⟨first, hlast, ?_⟩
  rw [fitsBuffer_iff hret, secondOff_eq hstored]
  rintro rfl
  exact headerKept hrun c.slot

theorem reassemblyFits_iff_ping :
    ∃ s, Runs.run (fragTableStep .l3) FragTableState.init [.reassemble (pingCall 0 1000)] = some s ∧
      ((pingCall 1 2000).result fragTryReassemble s.table).ret = 1 ∧
      FitsBuffer .l3 s.table (pingCall 1 2000) := by
  have hret : ((pingCall 1 2000).result fragTryReassemble
      ((pingCall 0 1000).result fragTryReassemble fragTableInit).table).ret = 1 := by decide
  obtain ⟨first, hlast, hfits⟩ :=
    @reassemblyFits_iff .l3 [.reassemble (pingCall 0 1000)] _ (pingCall 1 2000) run_singleton
      (show 1000 ≤ 2000 by decide) hret
  refine ⟨_, run_singleton, hret, hfits.mpr ?_⟩
  rw [hlast.eq_of_singleton]
  decide

/-- A fragment with 1600 bytes of plaintext, then one with 2496, as one call at a time. -/
def overlongCall (layer : SplitLayer) (fragIndex : UInt8) (now : ℕ) : ReassembleCall :=
  ⟨pingFrame, layer.bodyOff pingFrame + if fragIndex = 0 then 1600 else 2496, 7, fragIndex,
    fun _ => 0, 0, now⟩

/-- The two parts are as long together as the check allows, which is the size of the buffer, and the
packet is longer. -/
theorem not_fitsBuffer_overlong :
    reassembleMax = reassBufSize ∧
    ∀ layer : SplitLayer, ∃ s, Runs.run (fragTableStep layer) FragTableState.init
        [.reassemble (overlongCall layer 0 1000)] = some s ∧
      s.clock ≤ (overlongCall layer 1 2000).now ∧
      ((overlongCall layer 1 2000).result layer.reassemble s.table).ret = 1 ∧
      ¬ FitsBuffer layer s.table (overlongCall layer 1 2000) := by
  refine ⟨rfl, fun layer => ⟨_, run_singleton, show 1000 ≤ 2000 by decide, ?_, fun h => ?_⟩⟩
  · cases layer <;> decide
  · exact absurd h.outLen (by cases layer <;> decide)

end NetEncryptor

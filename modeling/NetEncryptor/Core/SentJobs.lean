import NetEncryptor.Core.FragmentLengths
import NetEncryptor.Core.TunnelStages

/-!
# What one gateway puts on the link

A job in the hands of a worker of the sending gateway, and the frames that it becomes:
`SentJob.frames_of_clear` and `SentJob.frames_of_tunnels` say what these are when the job leaves as
it came and under a layer-4 policy.
-/

namespace NetEncryptor

/-- A job with the state that it is processed in, the values of the counters, the id for its
fragments and the buffers for them. -/
structure SentJob where
  fwd : Forwarder
  job : PacketJob
  counter₁ : ℕ
  counter₂ : ℕ
  pktId : ℕ
  frag1 : Packet
  frag2 : Packet

namespace SentJob

/-- What `worker_thread` sends of the job. -/
def frames (evp : Evp) (x : SentJob) : List Frame :=
  (workerThread (.ofEvp evp x.counter₁ x.counter₂ x.pktId x.frag1 x.frag2) x.fwd x.job).sent

/-- The frame with the addresses of the link. -/
def wirePkt (x : SentJob) : Packet :=
  (setWanL2Addrs x.fwd (x.job.wan x.fwd) x.job.pkt).getD x.job.pkt

/-- The job has the policy `cp`, which stands at `pi`. -/
structure UnderPolicy (x : SentJob) (cp : CryptoPolicy) (pi : ℤ) : Prop where
  enabled : x.fwd.cryptoEnabled = true
  flow : ∃ t, parseFlow x.job.pkt x.job.pktLen = some t ∧ (policyForFlow x.fwd x.job t).1 = some pi
  policy : atIndex? x.fwd.cfg.policies pi = some cp

/-- The job leaves as it came. -/
def Clear (x : SentJob) : Prop :=
  x.fwd.cryptoEnabled = false ∨ ∃ cp pi, x.UnderPolicy cp pi ∧ BypassCrypto x.fwd cp pi

def params (x : SentJob) (cp : CryptoPolicy) : CryptoParams := cryptoApplyFromPolicy x.fwd.params cp

/-- The job leaves through a layer-4 tunnel. -/
structure Tunnels (x : SentJob) (cp : CryptoPolicy) (pi : ℤ) : Prop extends x.UnderPolicy cp pi where
  action : cp.action = actionEncryptL4
  ready : x.fwd.CtxReady pi
  nonceSizeOk : (x.params cp).NonceSizeOk
  frame : TcpUdpFrame x.job.pkt x.job.pktLen
  transport : transportHdrSizeAt x.job.pkt x.job.pktLen ≠ none

end SentJob

/-! ## Link addresses -/

section

variable {fwd : Forwarder} {wanIdx : ℕ} {p p' q : Packet}

theorem setWanL2Addrs_self (h : setWanL2Addrs fwd wanIdx p = some p') (hq : ∀ j < 12, q j = p' j) :
    setWanL2Addrs fwd wanIdx q = some q := by
  unfold setWanL2Addrs at h ⊢
  split at h
  · cases h
  rename_i hcount
  rw [if_neg hcount]
  simp only at h ⊢
  split at h
  · rename_i hdst
    rw [if_pos hdst]
  rename_i hdst
  rw [if_neg hdst]
  cases harp : fwd.wanArp wanIdx ((fwd.cfg.wans[wanIdx]?.map WanConfig.dstIp).getD 0) with
  | none => rw [harp] at h; cases h
  | some mac =>
    rw [harp] at h
    simp only [Option.some.injEq] at h ⊢
    have hmac := mac.property
    have hif := (fwd.wanIfMac wanIdx).property
    funext j
    by_cases h₁₂ : 12 ≤ j
    · rw [Buffer.write_of_ge (by omega), Buffer.write_of_ge (by omega)]
    rw [hq j (by omega), ← h]
    by_cases h₆ : 6 ≤ j
    · obtain ⟨k, rfl⟩ := Nat.exists_eq_add_of_le h₆
      rw [Buffer.write_add (by omega), Buffer.write_add (by omega)]
    · obtain ⟨k, rfl⟩ := Nat.exists_eq_add_of_le (Nat.zero_le j)
      rw [Buffer.write_of_lt (by omega), Buffer.write_add (by omega), Buffer.write_of_lt (by omega),
        Buffer.write_add (by omega)]

theorem sendFragments_self {f₁ f₂ : Frame} (h : setWanL2Addrs fwd wanIdx p = some p')
    (h₁ : ∀ j < 12, f₁.1 j = p' j) (h₂ : ∀ j < 12, f₂.1 j = p' j) :
    sendFragments fwd wanIdx f₁ f₂ = some [f₁, f₂] := by
  unfold sendFragments
  rw [setWanL2Addrs_self h h₁, setWanL2Addrs_self h h₂]

end

/-! ## Frames of a job -/

/-- One of the two frames that a split makes: the `n` bytes of `p` from `off` on, as the fragment
`fragIndex`. -/
def IsHalf (evp : Evp) (P : CryptoParams) (ctx : PacketCryptoCtx) (p : Packet) (off n pktId : ℕ)
    (fragIndex : UInt8) (f : Frame) : Prop :=
  (∃ counter plain, (∀ k < n, plain k = p (off + k)) ∧
    Layer4FragFrame evp P ctx counter p plain (ihlAt p ethHeaderSize) n pktId fragIndex f.1) ∧
  f.2 = ethHeaderSize + ihlAt p ethHeaderSize + l4WirePortLen + P.tunnelHdrSize + fragTagSize + n +
    P.tagSize

theorem IsHalf.mac_eq {evp : Evp} {P : CryptoParams} {ctx : PacketCryptoCtx} {p : Packet}
    {off n pktId : ℕ} {fragIndex : UInt8} {f : Frame} (h : IsHalf evp P ctx p off n pktId fragIndex f) :
    ∀ j < 12, f.1 j = p j := by
  have heth : ethHeaderSize = 14 := rfl
  obtain ⟨⟨counter, plain, -, hf⟩, -⟩ := h
  intro j hj
  exact hf.header j (by omega) (by omega) (by omega) (by omega) (by omega)

/-- The frames that a layer-4 tunnel makes of a frame: none if something fails, one that is
encrypted, or two halves. -/
inductive TunnelFrames (evp : Evp) (P : CryptoParams) (ctx : PacketCryptoCtx) (p : Packet)
    (len pktId : ℕ) : List Frame → Prop
  | dropped : TunnelFrames evp P ctx p len pktId []
  | whole {counter : ℕ} {q : Packet} (h : Layer4Frame evp P ctx counter p len ethHeaderSize q) :
    TunnelFrames evp P ctx p len pktId [(q, len + (P.tunnelHdrSize + P.tagSize))]
  | halves {f₁ f₂ : Frame} {th : ℕ} (hth : transportHdrSizeAt p len = some th)
    (hle : th ≤ frag0Len p len)
    (hlt : ethHeaderSize + ihlAt p ethHeaderSize + frag0Len p len < len)
    (h₁ : IsHalf evp P ctx p (ethHeaderSize + ihlAt p ethHeaderSize) (frag0Len p len) pktId 0 f₁)
    (h₂ : IsHalf evp P ctx p (ethHeaderSize + ihlAt p ethHeaderSize + frag0Len p len)
      (len - (ethHeaderSize + ihlAt p ethHeaderSize) - frag0Len p len) pktId 1 f₂) :
    TunnelFrames evp P ctx p len pktId [f₁, f₂]

section

variable {evp : Evp} {P : CryptoParams} {ctx : PacketCryptoCtx} {counter₁ counter₂ len pktId : ℕ}
  {p out₁ out₂ : Packet} (hns : P.NonceSizeOk)
include hns

theorem tunnelFrames_split {fs : Frame × Frame}
    (h : fragSplitAndEncryptL4 evp P ctx counter₁ counter₂ pktId p len out₁ out₂ = some fs) :
    TunnelFrames evp P ctx p len pktId [fs.1, fs.2] := by
  have hp := tcpUdpFrame_of_fragSplitAndEncryptL4 h
  obtain ⟨th, plain₁, plain₂, hth, hle, hlt, hpl₁, hpl₂, he₁, he₂⟩ := fragSplitAndEncryptL4_spec h
  obtain ⟨hl₁, hf₁⟩ := cryptoLayer4EncryptFragmentSingle_frame hns hp.ihl_ge he₁
  obtain ⟨hl₂, hf₂⟩ := cryptoLayer4EncryptFragmentSingle_frame hns hp.ihl_ge he₂
  refine .halves hth hle hlt ⟨⟨counter₁, plain₁, hpl₁, hf₁⟩, hl₁⟩ ⟨⟨counter₂, plain₂, ?_, hf₂⟩, hl₂⟩
  intro k _
  rw [hpl₂ k, ← Nat.add_assoc]

theorem tunnelFrames_encrypt (hp : TcpUdpFrame p len) (hth : transportHdrSizeAt p len ≠ none)
    (h : 0 ≤ (cryptoLayer4Encrypt evp P ctx counter₁ p len).1) :
    TunnelFrames evp P ctx p len pktId [((cryptoLayer4Encrypt evp P ctx counter₁ p len).2,
      (cryptoLayer4Encrypt evp P ctx counter₁ p len).1.toNat)] := by
  have hport : l4WirePortLen = 4 := rfl
  have hhdr : P.tunnelHdrSize = P.nonceSize + 2 := rfl
  have hle := hp.ihl_le
  have h₂₀ := hp.ihl_ge
  obtain ⟨th, hth'⟩ := Option.ne_none_iff_exists'.mp hth
  have h₈ := getTransportHdrSize_le hth'
  have hinit : ctx.initialized = true := by
    by_contra hinit
    rw [Bool.not_eq_true] at hinit
    unfold cryptoLayer4Encrypt layer4EncryptHeader at h
    rw [if_pos hinit] at h
    replace h : (0 : ℤ) ≤ -1 := h
    omega
  have hok : layer4EncryptHeader ctx p len = .ok (ethHeaderSize, ihlAt p ethHeaderSize) := by
    rw [layer4EncryptHeader_eq_ok_iff]
    refine ⟨hinit, hp.ethIpv4Offset, by omega, hp.proto, rfl, h₂₀, ?_, ?_⟩
    · rw [usub_of_le hle]
      exact hth
    · rw [usub_of_le (by omega)]
      omega
  have hgrew : len < (cryptoLayer4Encrypt evp P ctx counter₁ p len).1 := by
    unfold cryptoLayer4Encrypt at h ⊢
    rw [hok] at h ⊢
    simp only at h ⊢
    split_ifs at h ⊢ with hs
    · omega
    · replace h : (0 : ℤ) ≤ -1 := h
      omega
  obtain ⟨hret, hf⟩ := cryptoLayer4Encrypt_frame hns hp.ethIpv4Offset hle hgrew
  rw [hret, Int.toNat_natCast]
  exact .whole hf

end

section

variable (evp : Evp) {x : SentJob} {cp : CryptoPolicy} {pi : ℤ}

/-- **In the clear.** The job leaves as it came, or not at all. -/
theorem SentJob.frames_of_clear (h : x.Clear) :
    x.frames evp = [] ∨ x.frames evp = [(x.wirePkt, x.job.pktLen)] := by
  have hplain : x.frames evp = sendPlain x.fwd x.job := by
    rcases h with hoff | ⟨cp, pi, hx, hbypass⟩
    · unfold frames workerThread
      rw [if_pos hoff]
    · obtain ⟨t, hflow, hpi⟩ := hx.flow
      unfold frames
      rw [workerThread_of_policy hx.enabled hflow hpi hx.policy, if_pos hbypass]
  rw [hplain]
  unfold sendPlain wirePkt
  cases setWanL2Addrs x.fwd (x.job.wan x.fwd) x.job.pkt with
  | none => exact .inl rfl
  | some pkt => exact .inr rfl

theorem SentJob.wirePkt_of_ge (x : SentJob) : ∀ j ≥ 12, x.wirePkt j = x.job.pkt j := by
  intro j hj
  unfold wirePkt
  cases h : setWanL2Addrs x.fwd (x.job.wan x.fwd) x.job.pkt with
  | none => rfl
  | some pkt => exact setWanL2Addrs_of_ge h hj

/-- **Through a tunnel.** The job leaves encrypted, as one frame or as two halves, or not at
all. -/
theorem SentJob.frames_of_tunnels (h : x.Tunnels cp pi) :
    TunnelFrames evp (x.params cp) (x.fwd.runtime.ctx pi.toNat) x.wirePkt x.job.pktLen x.pktId
      (x.frames evp) := by
  obtain ⟨t, hflow, hpi⟩ := h.flow
  have hbypass : ¬ BypassCrypto x.fwd cp pi := by
    rw [not_bypassCrypto_iff (.inr (.inr h.action))]
    exact h.ready
  have hlayer : EncryptLayer.ofAction cp.action = some .l4 := by
    rw [h.action]
    rfl
  unfold frames
  rw [workerThread_of_policy h.enabled hflow hpi h.policy, if_neg hbypass]
  have hp := tcpUdpFrame_congr x.wirePkt_of_ge h.frame
  have hth : transportHdrSizeAt x.wirePkt x.job.pktLen ≠ none := by
    rw [transportHdrSizeAt_congr x.wirePkt_of_ge]
    exact h.transport
  unfold sendEncrypted
  cases haddr : setWanL2Addrs x.fwd (x.job.wan x.fwd) x.job.pkt with
  | none => exact .dropped
  | some pkt =>
    have hwire : x.wirePkt = pkt := by
      unfold wirePkt
      rw [haddr, Option.getD_some]
    rw [hwire] at hp hth ⊢
    simp only [hlayer]
    split_ifs with hsplit hneg
    · cases hfs : (Encryptors.ofEvp evp x.counter₁ x.counter₂ x.pktId x.frag1 x.frag2).split .l4
        (x.fwd.runtime.ctx pi.toNat) (cryptoApplyFromPolicy x.fwd.params cp) pkt x.job.pktLen with
      | none => exact .dropped
      | some fs =>
        obtain ⟨f₁, f₂⟩ := fs
        have hhalves : TunnelFrames evp (x.params cp) (x.fwd.runtime.ctx pi.toNat) pkt x.job.pktLen
          x.pktId [f₁, f₂] := tunnelFrames_split h.nonceSizeOk hfs
        -- the halves have the addresses of the frame that was split
        have hsend : sendFragments x.fwd (x.job.wan x.fwd) f₁ f₂ = some [f₁, f₂] := by
          cases hhalves with
          | halves _ _ _ h₁ h₂ => exact sendFragments_self haddr h₁.mac_eq h₂.mac_eq
        simp only [hsend, Option.getD_some]
        exact hhalves
    · exact .dropped
    · exact tunnelFrames_encrypt h.nonceSizeOk hp hth (not_lt.mp hneg)

end

end NetEncryptor

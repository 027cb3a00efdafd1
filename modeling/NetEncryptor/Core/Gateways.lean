import NetEncryptor.Base.Pairing
import NetEncryptor.Core.SentJobs

/-!
# From gateway to gateway

One gateway sends its jobs in the clear or through layer-4 tunnels, a link may lose, repeat and
reorder the frames, and the threads of the other gateway take them up in any order.  Both gateways
together are a link for messages in two halves: the jobs are the messages, their packet ids the ids,
and the slots are those of the layer-4 reassembly table.  `Tracks.step` follows the receiver of
`Pairing` frame by frame.
-/

namespace NetEncryptor

open Pairing (Event Receiver)

/-! ## Jobs under way -/

/-- What comes out at the other gateway of a job: its frame as it was sent or, if it went through a
tunnel, with the total length of its length. -/
inductive SentJob.RestoredBy (x : SentJob) : Frame → Prop
  | clear {w : Packet} (h : x.Clear) (hw : ∀ j < x.job.pktLen, w j = x.wirePkt j) :
    RestoredBy x (w, x.job.pktLen)
  | tunnel {w : Packet} {cp : CryptoPolicy} {pi : ℤ} (h : x.Tunnels cp pi)
    (hw : ∀ j < x.job.pktLen, w j = restoredFrame x.wirePkt x.job.pktLen j) :
    RestoredBy x (w, x.job.pktLen)

/-- The receiver is ready for the job: it takes it for no tunnel of its own if the job comes in the
clear, and shares the policy if the job comes through a tunnel. -/
inductive Crosses (b : Forwarder) (x : SentJob) : Prop
  | clear (h : x.Clear) (frame : TcpUdpFrame x.job.pkt x.job.pktLen)
    (unnamed : ¬ NamedAtL4 b.cfg x.wirePkt x.job.pktLen)
  | tunnel {cp cp' : CryptoPolicy} {pi : ℤ} {pi' : ℕ} (h : x.Tunnels cp pi)
    (shares : SharesPolicy b cp (x.fwd.runtime.ctx pi.toNat) cp' pi') (id : x.pktId < 65536)
    (fits : x.job.pktLen ≤ linkFrameMax)

/-- The received frame is the one that was sent, as far as that one reaches. -/
def RxFrame.Carries (f : RxFrame) (g : Frame) : Prop := f.pktLen = g.2 ∧ ∀ j < g.2, f.pkt j = g.1 j

/-- What an action of the threads is for the abstract receiver. -/
inductive Matches (evp : Evp) (n : ℕ) {ι : Type} : WanAction ι → Event SentJob → Prop
  | whole {i : ι} {f : RxFrame} {x : SentJob} {g : Frame} (hb : ReceivesL4 n f.fwd)
    (hx : Crosses f.fwd x) (hframes : x.frames evp = [g]) (hf : f.Carries g) :
    Matches evp n (.receive i f) (.whole x)
  | first {i : ι} {f : RxFrame} {x : SentJob} {g₁ g₂ : Frame} (hb : ReceivesL4 n f.fwd)
    (hx : Crosses f.fwd x) (hframes : x.frames evp = [g₁, g₂]) (hf : f.Carries g₁) :
    Matches evp n (.receive i f) (.first x (f.stage .l4).now)
  | second {i : ι} {f : RxFrame} {x : SentJob} {g₁ g₂ : Frame} (hb : ReceivesL4 n f.fwd)
    (hx : Crosses f.fwd x) (hframes : x.frames evp = [g₁, g₂]) (hf : f.Carries g₂) :
    Matches evp n (.receive i f) (.second x (f.stage .l4).now)
  | collect (now : ℕ) : Matches evp n (.collect .l4 now) (.collect now)
  | other {layer : SplitLayer} (hlayer : layer ≠ .l4) (now : ℕ) :
    Matches evp n (.collect layer now) .idle

/-! ## What the receiver keeps -/

/-- The entry keeps the first half of the job. -/
structure SentJob.KeptIn (x : SentJob) (entry : FragEntry) (stamp : ℕ) : Prop where
  holds : HoldsFirst entry x.wirePkt (frag0Len x.wirePkt x.job.pktLen) x.pktId
    (x.wirePkt ipv4ProtoOff) stamp
  proto : entry.ipHdr 9 = x.wirePkt ipv4ProtoOff

/-- The entry is free, or keeps what the slot does. -/
def SlotTracks : Option (SentJob × ℕ) → FragEntry → Prop
  | none, entry => entry.valid = false
  | some (x, stamp), entry => x.KeptIn entry stamp

/-- `frag_table_gc` and `frag_try_reassemble_l4` refuse what is older than the timeout. -/
def lateL4 (now stamp : ℕ) : Bool := decide (fragTimeoutNs < usub now stamp)

/-- The threads are where the abstract receiver is. -/
structure Tracks {ι : Type} (n : ℕ) (s : Receiver SentJob) (c : WanThreads ι) : Prop where
  params : ∀ i, FitsL4 n (c.params i)
  slots : ∀ i < fragTableSize, SlotTracks (s.held i) (c.table .l4 i)
  forwarded : List.Forall₂ SentJob.RestoredBy s.delivered c.forwarded

theorem slotTracks_invalidate {held : ℕ → Option (SentJob × ℕ)} {ft : FragTable}
    (h : ∀ j < fragTableSize, SlotTracks (held j) (ft j)) (i : ℕ) :
    ∀ j < fragTableSize, SlotTracks (Function.update held i none j) (ft.invalidate i j) := by
  intro j hj
  by_cases hji : j = i
  · rw [hji, Function.update_self]
    exact ft.valid_invalidate i
  · rw [Function.update_of_ne hji, FragTable.invalidate_of_ne hji]
    exact h j hj

/-- The rest of the job's frame completes what is kept of it. -/
theorem SentJob.KeptIn.join {x : SentJob} {entry : FragEntry} {stamp th : ℕ} (second out : Packet)
    (h : x.KeptIn entry stamp) (hp : TcpUdpFrame x.wirePkt x.job.pktLen)
    (hth : transportHdrSizeAt x.wirePkt x.job.pktLen = some th)
    (hle : th ≤ frag0Len x.wirePkt x.job.pktLen)
    (hlt : ethHeaderSize + ihlAt x.wirePkt ethHeaderSize + frag0Len x.wirePkt x.job.pktLen <
      x.job.pktLen)
    (hs : ∀ k < x.job.pktLen - (ethHeaderSize + ihlAt x.wirePkt ethHeaderSize) -
      frag0Len x.wirePkt x.job.pktLen, second k = x.wirePkt (ethHeaderSize +
        ihlAt x.wirePkt ethHeaderSize + frag0Len x.wirePkt x.job.pktLen + k)) :
    ∃ w, joinFragmentsL4 entry second (x.job.pktLen -
        (ethHeaderSize + ihlAt x.wirePkt ethHeaderSize) - frag0Len x.wirePkt x.job.pktLen) out =
          (w, x.job.pktLen) ∧
      ∀ j < x.job.pktLen, w j = restoredFrame x.wirePkt x.job.pktLen j := by
  have hlen : ethHeaderSize + ihlAt x.wirePkt ethHeaderSize + frag0Len x.wirePkt x.job.pktLen +
      (x.job.pktLen - (ethHeaderSize + ihlAt x.wirePkt ethHeaderSize) -
        frag0Len x.wirePkt x.job.pktLen) = x.job.pktLen := by omega
  have hpre := getTransportHdrSize_prefix hth hle
  obtain ⟨u, hu, hrest⟩ := h.holds.joinFragmentsL4 second out h.proto hpre hlen fun k hk =>
    (hs k hk).trans (congrArg _ (Nat.add_assoc _ _ _))
  refine ⟨_, hu, fun j hj => ?_⟩
  exact patchIpv4_congr (Nat.zero_le _) hp.ihl_le (fun j _ hj h₂ h₃ h₁₀ h₁₁ =>
    hrest j hj h₂ h₃ h₁₀ h₁₁) j (Nat.zero_le j) hj

/-! ## The forwarder that a frame meets -/

section

variable {n : ℕ} {f : RxFrame} (P : CryptoParams) (table : SplitLayer → FragTable)

theorem ReceivesL4.meets (h : ReceivesL4 n f.fwd) : ReceivesL4 n (f.meets P table).fwd :=
  ⟨h.enabled, h.policies, h.sizes, h.defaults⟩

theorem SharesPolicy.meets {cp cp' : CryptoPolicy} {ctx : PacketCryptoCtx} {pi : ℕ}
    (h : SharesPolicy f.fwd cp ctx cp' pi) : SharesPolicy (f.meets P table).fwd cp ctx cp' pi :=
  ⟨h.index, h.policy, h.action, h.ready, h.initialized, h.key, h.idByte, h.mode, h.aesBits,
    h.nonceSize⟩

end

theorem NamedAtL4.congr {cfg : AppConfig} {p q : Packet} {len : ℕ} (hp : TcpUdpFrame p len)
    (hq : ∀ j < len, q j = p j) (h : NamedAtL4 cfg q len) : NamedAtL4 cfg p len := by
  have heth : ethHeaderSize = 14 := rfl
  have hport : l4WirePortLen = 4 := rfl
  have hle := hp.ihl_le
  have h₂₀ := hp.ihl_ge
  have hihl : ihlAt q ethHeaderSize = ihlAt p ethHeaderSize := ihlAt_congr (hq _ (by omega))
  obtain ⟨h₈, cp, hcp, htest⟩ := h
  rw [hihl] at h₈ htest
  refine ⟨h₈, cp, hcp, ?_⟩
  unfold isL4TunnelOf at htest ⊢
  simp only [Bool.and_eq_true, decide_eq_true_eq] at htest ⊢
  have hin := htest.1.1.2
  rwa [hq _ (by omega), hq _ (by omega)] at htest

section

variable {ι : Type} [DecidableEq ι] {evp : Evp} {n : ℕ} {s : Receiver SentJob} {c : WanThreads ι}
  {i : ι} {f : RxFrame} {x : SentJob}

/-- A frame that the layer-4 stage takes care of. -/
theorem Tracks.receive {s' : Receiver SentJob} (h : Tracks n s c) (hb : ReceivesL4 n f.fwd)
    (hp : TcpUdpFrame f.pkt f.pktLen)
    (hstage : ∀ Q, FitsL4 n Q → ∃ r, wanStageL4 evp (f.meets (c.params i) c.table).fwd f.baseCtx f.prev
        ((f.meets (c.params i) c.table).stage .l4) Q f.pkt f.pktLen = r ∧ FitsL4 n r.params ∧
      (∀ i < fragTableSize, SlotTracks (s'.held i) (r.table i)) ∧
      List.Forall₂ SentJob.RestoredBy s'.delivered (c.forwarded ++ r.outcome.frames)) :
    Tracks n s' (c.receive evp i f) := by
  obtain ⟨Q, hQ, hpass⟩ := wanPass_eq evp (f := f.meets (c.params i) c.table) (hb.meets _ _)
    (h.params i) hp
  obtain ⟨r, hr, hfit, hslots, hforwarded⟩ := hstage Q hQ
  unfold WanThreads.receive
  simp only [hpass]
  rw [show wanStageL4 evp (f.meets (c.params i) c.table).fwd (f.meets (c.params i) c.table).baseCtx
    (f.meets (c.params i) c.table).prev ((f.meets (c.params i) c.table).stage .l4) Q
    (f.meets (c.params i) c.table).pkt (f.meets (c.params i) c.table).pktLen = r from hr]
  refine ⟨fun j => ?_, hslots, hforwarded⟩
  by_cases hj : j = i
  · rw [hj]
    simp only [Function.update_self]
    exact hfit
  · simp only [Function.update_of_ne hj]
    exact h.params j

theorem Tracks.clear (h : Tracks n s c) (hb : ReceivesL4 n f.fwd) (hclear : x.Clear)
    (hframe : TcpUdpFrame x.job.pkt x.job.pktLen)
    (hunnamed : ¬ NamedAtL4 f.fwd.cfg x.wirePkt x.job.pktLen)
    (hf : f.Carries (x.wirePkt, x.job.pktLen)) :
    Tracks n { s with delivered := s.delivered ++ [x] } (c.receive evp i f) := by
  obtain ⟨hlen, hpkt⟩ := hf
  have hwire := tcpUdpFrame_congr x.wirePkt_of_ge hframe
  have hle := hwire.ihl_le
  have hp : TcpUdpFrame f.pkt f.pktLen :=
    (hwire.of_header (fun j _ hj _ _ _ _ => hpkt j (by omega)) (hlen ▸ hle)).1
  have hun : ¬ NamedAtL4 f.fwd.cfg f.pkt f.pktLen := by
    rw [hlen]
    exact fun hnamed => hunnamed (hnamed.congr hwire hpkt)
  refine h.receive hb hp fun Q hQ => ⟨_, wanStageL4_eq hb.enabled hb.policies hp hun, hQ, h.slots, ?_⟩
  have hout : x.RestoredBy (f.pkt, f.pktLen) := by
    rw [hlen]
    exact .clear hclear hpkt
  exact List.rel_append h.forwarded (.cons hout .nil)

variable (hevp : evp.Lawful) {cp cp' : CryptoPolicy} {pi : ℤ} {pi' : ℕ} (hx : x.Tunnels cp pi)
  (hshares : SharesPolicy f.fwd cp (x.fwd.runtime.ctx pi.toNat) cp' pi')
include hevp hx hshares

theorem Tracks.whole (h : Tracks n s c) (hb : ReceivesL4 n f.fwd) {counter : ℕ} {q : Packet}
    (hq : Layer4Frame evp (x.params cp) (x.fwd.runtime.ctx pi.toNat) counter x.wirePkt x.job.pktLen
      ethHeaderSize q)
    (hf : f.Carries (q, x.job.pktLen + ((x.params cp).tunnelHdrSize + (x.params cp).tagSize))) :
    Tracks n { s with delivered := s.delivered ++ [x] } (c.receive evp i f) := by
  obtain ⟨hlen, hpkt⟩ := hf
  have hwire := tcpUdpFrame_congr x.wirePkt_of_ge hx.frame
  have hstage := fun Q => wanStageL4_whole f.baseCtx f.prev Q (hb.meets (c.params i) c.table)
    (hshares.meets _ _) hx.nonceSizeOk ((f.meets (c.params i) c.table).stage .l4) hevp hwire hq hlen
    fun j hj => hpkt j (hlen ▸ hj)
  refine h.receive hb (hstage (c.params i)).1 fun Q hQ => ?_
  obtain ⟨-, w, hr, hw⟩ := hstage Q
  refine ⟨_, hr, hQ.applyPolicy hshares.action (hshares.nonceSize_eq hb).1, h.slots, ?_⟩
  have hout : x.RestoredBy (w, x.job.pktLen) := .tunnel hx hw
  exact List.rel_append h.forwarded (.cons hout .nil)

variable (hid : x.pktId < 65536)
include hid

omit [DecidableEq ι] in
theorem wanStageL4_half (hb : ReceivesL4 n f.fwd) {off m : ℕ} {fragIndex : UInt8} {g : Frame}
    (hidx : fragIndex.toNat ≤ 1) (hg : IsHalf evp (x.params cp) (x.fwd.runtime.ctx pi.toNat) x.wirePkt
      off m x.pktId fragIndex g) (hf : f.Carries g) {Q : CryptoParams} (hQ : FitsL4 n Q) :
    let f' := f.meets (c.params i) c.table
    TcpUdpFrame f.pkt f.pktLen ∧ ∃ w,
      wanStageL4 evp f'.fwd f.baseCtx f.prev (f'.stage .l4) Q f.pkt f.pktLen =
        reassembled w (cryptoApplyFromPolicy Q cp') (fragTryReassembleL4 (c.table .l4)
          (f.stage .l4).now w (ethHeaderSize + ihlAt x.wirePkt ethHeaderSize + l4WirePortLen + m)
          x.pktId fragIndex (f.stage .l4).reassBuf 0) ∧
      (∀ j < ethHeaderSize + ihlAt x.wirePkt ethHeaderSize, j ≠ 16 → j ≠ 17 → j ≠ 24 → j ≠ 25 →
        w j = x.wirePkt j) ∧
      ∀ k < m, w (ethHeaderSize + ihlAt x.wirePkt ethHeaderSize + l4WirePortLen + k) =
        x.wirePkt (off + k) := by
  intro f'
  have heth : ethHeaderSize = 14 := rfl
  obtain ⟨hlen, hpkt⟩ := hf
  have hmac := hg.mac_eq
  obtain ⟨⟨counter, plain, hplain, hq⟩, htotal⟩ := hg
  have hwire := tcpUdpFrame_congr x.wirePkt_of_ge hx.frame
  obtain ⟨hp, w, hr, hw, hdata⟩ := wanStageL4_fragment f.baseCtx f.prev Q (hb.meets _ _)
    (hshares.meets _ _) hx.nonceSizeOk (f'.stage .l4) hevp hwire hQ hq hidx
    (hlen.trans htotal) (fun j hj => (hpkt j (by omega)).trans (hmac j hj))
    (fun j _ hj => hpkt j (hlen ▸ hj))
  rw [Nat.mod_eq_of_lt hid] at hr
  exact ⟨hp, w, hr, hw, fun k hk => (hdata k hk).trans (hplain k hk)⟩

theorem Tracks.first (h : Tracks n s c) (hb : ReceivesL4 n f.fwd)
    (hfits : frag0Len x.wirePkt x.job.pktLen ≤ fragDataSize) {g : Frame}
    (hg : IsHalf evp (x.params cp) (x.fwd.runtime.ctx pi.toNat) x.wirePkt
      (ethHeaderSize + ihlAt x.wirePkt ethHeaderSize) (frag0Len x.wirePkt x.job.pktLen) x.pktId 0 g)
    (hf : f.Carries g) :
    Tracks n
      { s with held := Function.update s.held (x.pktId % fragTableSize) (some (x, (f.stage .l4).now)) }
      (c.receive evp i f) := by
  have hwire := tcpUdpFrame_congr x.wirePkt_of_ge hx.frame
  have hstage := fun Q (hQ : FitsL4 n Q) =>
    wanStageL4_half (c := c) (i := i) hevp hx hshares hid hb (by decide) hg hf hQ
  refine h.receive hb (hstage (c.params i) (h.params i)).1 fun Q hQ => ?_
  obtain ⟨-, w, hr, hw, hdata⟩ := hstage Q hQ
  obtain ⟨entry, hentry, hholds, hproto⟩ : ∃ entry, fragTryReassembleL4 (c.table .l4)
      (f.stage .l4).now w _ x.pktId 0 (f.stage .l4).reassBuf 0 = _ ∧ _ :=
    fragTryReassembleL4_first hwire.ipv4.2 hwire.ihl_ge hw hdata hfits
  rw [hentry] at hr
  refine ⟨_, hr, hQ.applyPolicy hshares.action (hshares.nonceSize_eq hb).1, fun j hj => ?_, ?_⟩
  · show SlotTracks (Function.update s.held (x.pktId % fragTableSize) _ j)
      ((c.table .l4).set (x.pktId % fragTableSize) entry j)
    by_cases hslot : j = x.pktId % fragTableSize
    · rw [hslot, Function.update_self, Buffer.set_self]
      exact ⟨hholds, hproto⟩
    · rw [Function.update_of_ne hslot, Buffer.set_of_ne hslot]
      exact h.slots j hj
  · show List.Forall₂ _ s.delivered (c.forwarded ++ [])
    rw [List.append_nil]
    exact h.forwarded

/-- A second half completes the job whose first half is kept, unless it is late. -/
theorem Tracks.second (h : Tracks n s c) (hb : ReceivesL4 n f.fwd) {th : ℕ}
    (hth : transportHdrSizeAt x.wirePkt x.job.pktLen = some th)
    (hle : th ≤ frag0Len x.wirePkt x.job.pktLen)
    (hlt : ethHeaderSize + ihlAt x.wirePkt ethHeaderSize + frag0Len x.wirePkt x.job.pktLen <
      x.job.pktLen)
    (hmax : x.job.pktLen ≤ linkFrameMax) {g : Frame}
    (hg : IsHalf evp (x.params cp) (x.fwd.runtime.ctx pi.toNat) x.wirePkt
      (ethHeaderSize + ihlAt x.wirePkt ethHeaderSize + frag0Len x.wirePkt x.job.pktLen)
      (x.job.pktLen - (ethHeaderSize + ihlAt x.wirePkt ethHeaderSize) -
        frag0Len x.wirePkt x.job.pktLen) x.pktId 1 g)
    (hf : f.Carries g)
    (hag : Pairing.Agrees SentJob.pktId fragTableSize lateL4 s (.second x (f.stage .l4).now)) :
    Tracks n (Pairing.step SentJob.pktId fragTableSize lateL4 s (.second x (f.stage .l4).now))
      (c.receive evp i f) := by
  have hwire := tcpUdpFrame_congr x.wirePkt_of_ge hx.frame
  have hstage := fun Q (hQ : FitsL4 n Q) =>
    wanStageL4_half (c := c) (i := i) hevp hx hshares hid hb (by decide) hg hf hQ
  refine h.receive hb (hstage (c.params i) (h.params i)).1 fun Q hQ => ?_
  obtain ⟨-, w, hr, hw, hdata⟩ := hstage Q hQ
  have hfit := hQ.applyPolicy hshares.action (hshares.nonceSize_eq hb).1
  have hsame : List.Forall₂ SentJob.RestoredBy s.delivered (c.forwarded ++ []) := by
    rw [List.append_nil]
    exact h.forwarded
  have hslot := h.slots (x.pktId % fragTableSize) (Nat.mod_lt _ (by decide))
  rw [fragTryReassembleL4_one hwire.ipv4.2 hwire.ihl_ge hw] at hr
  simp only [Pairing.step]
  cases hheld : s.held (x.pktId % fragTableSize) with
  | none =>
    have hfree : (c.table .l4 (x.pktId % fragTableSize)).valid = false := by
      rw [hheld] at hslot
      exact hslot
    simp only [hfree, true_or, if_true] at hr
    exact ⟨_, hr, hfit, h.slots, hsame⟩
  | some kept =>
    obtain ⟨x', stamp⟩ := kept
    have hkept : x'.KeptIn (c.table .l4 (x.pktId % fragTableSize)) stamp := by
      rw [hheld] at hslot
      exact hslot
    simp only [hkept.holds.valid, hkept.holds.pktId_eq, Bool.true_eq_false, false_or] at hr
    simp only
    by_cases heq : x'.pktId = x.pktId
    · rw [if_neg (not_not.mpr heq)] at hr
      rw [if_pos heq]
      have hslots := slotTracks_invalidate h.slots (x.pktId % fragTableSize)
      rw [hkept.holds.timestamp] at hr
      by_cases hlate : fragTimeoutNs < usub (f.stage .l4).now stamp
      · have hlate' : lateL4 (f.stage .l4).now stamp = true := decide_eq_true hlate
        simp only [hlate, true_or, if_true] at hr
        unfold Pairing.complete
        rw [if_pos hlate']
        exact ⟨_, hr, hfit, hslots, hsame⟩
      · have hlate' : lateL4 (f.stage .l4).now stamp = false := decide_eq_false hlate
        obtain rfl : x' = x := hag x' stamp hheld heq hlate'
        have h₈ := getTransportHdrSize_le hth
        have hlink : linkFrameMax = 1514 := rfl
        have hreass : reassembleMax = 4096 := rfl
        have htotal : (frag0Len x'.wirePkt x'.job.pktLen + (x'.job.pktLen - (ethHeaderSize +
            ihlAt x'.wirePkt ethHeaderSize) - frag0Len x'.wirePkt x'.job.pktLen)) % 2 ^ 32 =
              x'.job.pktLen - (ethHeaderSize + ihlAt x'.wirePkt ethHeaderSize) := by
          rw [Nat.mod_eq_of_lt (by omega)]
          omega
        obtain ⟨u, hu, hrest⟩ := hkept.join
          (w.shift (ethHeaderSize + ihlAt x'.wirePkt ethHeaderSize + l4WirePortLen))
          (f.stage .l4).reassBuf hwire hth hle hlt hdata
        rw [hkept.holds.dataLen, htotal, if_neg (by omega)] at hr
        simp only [hu] at hr
        unfold Pairing.complete
        rw [hlate', if_neg (by decide)]
        refine ⟨_, hr, hfit, hslots, ?_⟩
        have hout : x'.RestoredBy (w.copy 0 u 0 x'.job.pktLen, x'.job.pktLen) :=
          .tunnel hx fun j hj => by
            rw [Buffer.copy_of_mem (Nat.zero_le j) (by omega), Nat.zero_add, Nat.sub_zero]
            exact hrest j hj
        exact List.rel_append h.forwarded (.cons hout .nil)
    · rw [if_pos heq] at hr
      rw [if_neg heq]
      exact ⟨_, hr, hfit, h.slots, hsame⟩

end

/-! ## Runs -/

theorem slotTracks_collect {held : Option (SentJob × ℕ)} {ft : FragTable} {j : ℕ}
    (h : SlotTracks held (ft j)) (hj : j < fragTableSize) (now : ℕ) :
    SlotTracks (held.filter fun k => !lateL4 now k.2) (fragTableGc ft now j) := by
  unfold fragTableGc
  cases held with
  | none =>
    have hfree : (ft j).valid = false := h
    rw [if_neg fun h' => by rw [hfree] at h'; exact absurd h'.2.1 (by decide)]
    exact hfree
  | some kept =>
    obtain ⟨x, stamp⟩ := kept
    have hkept : x.KeptIn (ft j) stamp := h
    rw [hkept.holds.valid, hkept.holds.timestamp]
    by_cases hlate : fragTimeoutNs < usub now stamp
    · rw [if_pos ⟨hj, rfl, hlate⟩, Option.filter_some,
        if_neg (by rw [lateL4, decide_eq_true hlate]; decide)]
      rfl
    · rw [if_neg fun h' => hlate h'.2.2, Option.filter_some,
        if_pos (by rw [lateL4, decide_eq_false hlate]; rfl)]
      exact hkept

section

variable {ι : Type} [DecidableEq ι] {evp : Evp} {n : ℕ} {s : Receiver SentJob} {c : WanThreads ι}
  (hevp : evp.Lawful)
include hevp

/-- **Event by event**, the threads follow the abstract receiver. -/
theorem Tracks.step (h : Tracks n s c) {a : WanAction ι} {e : Event SentJob} (ha : Matches evp n a e)
    (hag : Pairing.Agrees SentJob.pktId fragTableSize lateL4 s e) :
    Tracks n (Pairing.step SentJob.pktId fragTableSize lateL4 s e) (c.step evp a) := by
  have hlink : linkFrameMax = 1514 := rfl
  have hdata : fragDataSize = 1600 := rfl
  cases ha with
  | @whole i f x g hb hx hframes hf =>
    cases hx with
    | clear hclear frame unnamed =>
      rcases SentJob.frames_of_clear evp hclear with hno | hone
      · rw [hno] at hframes
        cases hframes
      · rw [hone] at hframes
        cases hframes
        exact h.clear hb hclear frame unnamed hf
    | tunnel hx shares id fits =>
      have hmade := SentJob.frames_of_tunnels evp hx
      rw [hframes] at hmade
      cases hmade with
      | whole hq => exact h.whole hevp hx shares hb hq hf
  | @first i f x g₁ g₂ hb hx hframes hf =>
    cases hx with
    | clear hclear =>
      rcases SentJob.frames_of_clear evp hclear with hno | hone
      · rw [hno] at hframes
        cases hframes
      · rw [hone] at hframes
        cases hframes
    | tunnel hx shares id fits =>
      have hmade := SentJob.frames_of_tunnels evp hx
      rw [hframes] at hmade
      cases hmade with
      | halves hth hle hlt h₁ h₂ => exact h.first hevp hx shares id hb (by omega) h₁ hf
  | @second i f x g₁ g₂ hb hx hframes hf =>
    cases hx with
    | clear hclear =>
      rcases SentJob.frames_of_clear evp hclear with hno | hone
      · rw [hno] at hframes
        cases hframes
      · rw [hone] at hframes
        cases hframes
    | tunnel hx shares id fits =>
      have hmade := SentJob.frames_of_tunnels evp hx
      rw [hframes] at hmade
      cases hmade with
      | halves hth hle hlt h₁ h₂ => exact h.second hevp hx shares id hb hth hle hlt fits h₂ hf hag
  | collect now => exact ⟨h.params, fun j hj => slotTracks_collect (h.slots j hj) hj now, h.forwarded⟩
  | other hlayer now =>
    refine ⟨h.params, fun j hj => ?_, h.forwarded⟩
    show SlotTracks (s.held j) (Function.update c.table _ _ .l4 j)
    rw [Function.update_of_ne (Ne.symm hlayer)]
    exact h.slots j hj

end

/-- Threads that have not received anything, with parameters for layer 4. -/
structure WanThreads.Fresh {ι : Type} (n : ℕ) (c : WanThreads ι) : Prop where
  params : ∀ i, FitsL4 n (c.params i)
  table : ∀ i < fragTableSize, (c.table .l4 i).valid = false
  forwarded : c.forwarded = []

theorem WanThreads.Fresh.tracks {ι : Type} {n : ℕ} {c : WanThreads ι} (h : c.Fresh n) :
    Tracks n (.start SentJob) c :=
  ⟨h.params, h.table, by rw [h.forwarded]; exact .nil⟩

theorem Tracks.run {ι : Type} [DecidableEq ι] {evp : Evp} (hevp : evp.Lawful) {n : ℕ}
    {c : WanThreads ι} (hc : c.Fresh n) {as : List (WanAction ι)} {es : List (Event SentJob)}
    (has : List.Forall₂ (Matches evp n) as es) (hid : Pairing.Distinct SentJob.pktId lateL4 es) :
    Tracks n (Pairing.run SentJob.pktId fragTableSize lateL4 (.start SentJob) es) (c.run evp as) :=
  Pairing.simulation (fun hs ha hag => hs.step hevp ha hag) hc.tracks has hid

def tunnelPolicy : CryptoPolicy := { samplePolicy actionEncryptL4 with key := Key.repeated 1 }

/-- Both gateways encrypt TCP flows at layer 4. -/
def tunnelForwarder : Forwarder := { mixedForwarder with cryptoLayer := actionEncryptL4 }

def tunnelJob (len pktId : ℕ) : SentJob :=
  ⟨tunnelForwarder, ⟨ackFrame, len, 0, 0, 1⟩, 0, 1, pktId, fun _ => 0, fun _ => 0⟩

def arriving (g : Frame) (now : ℕ) : RxFrame :=
  { unknownReceiver with
    pkt := g.1
    pktLen := g.2
    fwd := tunnelForwarder
    stage := fun _ => { StageInput.empty with now := now } }

def freshThreads : WanThreads Bool := ⟨fun _ => sampleParams .ctr, fun _ => fragTableInit, []⟩

theorem fresh_freshThreads : freshThreads.Fresh 12 :=
  have hfit : FitsL4 12 (sampleParams .ctr) := ⟨rfl, by decide, by decide⟩
  ⟨fun _ => hfit, fun _ _ => rfl, rfl⟩

theorem receivesL4_tunnelForwarder : ReceivesL4 12 tunnelForwarder :=
  ⟨rfl, by decide, by decide, nofun⟩

theorem crosses_tunnelJob {len pktId : ℕ} (hflow : parseFlow ackFrame len = some ackFlow)
    (hlen : 54 ≤ len ∧ len ≤ linkFrameMax) (hth : transportHdrSizeAt ackFrame len ≠ none)
    (hid : pktId < 65536) : Crosses tunnelForwarder (tunnelJob len pktId) := by
  have hready : tunnelForwarder.CtxReady 0 := by decide
  have hns : (cryptoApplyFromPolicy tunnelForwarder.params tunnelPolicy).NonceSizeOk := by decide
  have hinit : (tunnelForwarder.runtime.ctx 0).initialized = true := by decide
  have hshares : SharesPolicy tunnelForwarder tunnelPolicy (tunnelForwarder.runtime.ctx 0) tunnelPolicy
      0 := ⟨rfl, rfl, rfl, hready.2.2, hinit, rfl, rfl, rfl, rfl, rfl⟩
  exact .tunnel ⟨⟨rfl, ⟨ackFlow, hflow, rfl⟩, rfl⟩, rfl, hready, hns, tcpUdpFrame_ackFrame hlen.1, hth⟩
    hshares hid hlen.2

theorem crosses_tunnelJob_whole : Crosses tunnelForwarder (tunnelJob 54 1) :=
  crosses_tunnelJob (by decide) (by decide) (by decide) (by decide)

theorem crosses_tunnelJob_split : Crosses tunnelForwarder (tunnelJob 1500 2) :=
  crosses_tunnelJob (by decide) (by decide) (by decide) (by decide)

theorem frames_tunnelJob : ∃ g h₁ h₂, (tunnelJob 54 1).frames (sampleEvp sampleKeystream) = [g] ∧
    (tunnelJob 1500 2).frames (sampleEvp sampleKeystream) = [h₁, h₂] := by
  obtain ⟨g, hg⟩ := List.length_eq_one_iff.mp
    (show ((tunnelJob 54 1).frames (sampleEvp sampleKeystream)).length = 1 by decide +kernel)
  obtain ⟨h₁, h₂, hh⟩ := List.length_eq_two.mp
    (show ((tunnelJob 1500 2).frames (sampleEvp sampleKeystream)).length = 2 by decide +kernel)
  exact ⟨g, h₁, h₂, hg, hh⟩

end NetEncryptor

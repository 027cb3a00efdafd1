import NetEncryptor.Core.QueueThreads

/-!
# The receiving threads together

Each thread of a WAN queue has its own cipher parameters, which a frame leaves to the next one; the
reassembly tables are shared by all threads.  `WanThreads.step` is what one frame, or one collection,
does to this state.

A frame goes through its stages in one step.  At most one of them uses its table, unless a packet
that is reassembled at one layer is a fragment at the next one as well.
-/

namespace NetEncryptor

/-- What becomes of a frame in `wan_queue_thread_l3l4`, and the parameters and tables after it. -/
structure WanPass where
  outcome : StageOutcome
  params : CryptoParams
  table : SplitLayer → FragTable

/-- The tables of the three layers. -/
def tablesOf (l₂ l₃ l₄ : FragTable) : SplitLayer → FragTable
  | .l2 => l₂
  | .l3 => l₃
  | .l4 => l₄

/-- The stages of `wan_queue_thread_l3l4`. -/
def wanPass (evp : Evp) (f : RxFrame) : WanPass :=
  let P := inboundParams f
  let l₂ : StageResult :=
    if l2HasFakeMarker P f.pkt then wanStageL2 evp f P
    else ⟨.forward f.pkt f.pktLen, P, (f.stage .l2).table⟩
  match l₂.outcome with
  | .forward pkt pktLen =>
    if f.fwd.cryptoEnabled then
      let l₃ := wanStageL3 evp f.fwd f.baseCtx f.prev (f.stage .l3) l₂.params pkt pktLen
      match l₃.outcome with
      | .forward pkt pktLen =>
        let l₄ := wanStageL4 evp f.fwd f.baseCtx f.prev (f.stage .l4) l₃.params pkt pktLen
        ⟨l₄.outcome, l₄.params, tablesOf l₂.table l₃.table l₄.table⟩
      | outcome => ⟨outcome, l₃.params, tablesOf l₂.table l₃.table (f.stage .l4).table⟩
    else ⟨.forward pkt pktLen, l₂.params,
      tablesOf l₂.table (f.stage .l3).table (f.stage .l4).table⟩
  | outcome => ⟨outcome, l₂.params, tablesOf l₂.table (f.stage .l3).table (f.stage .l4).table⟩

theorem wanFrameL3L4_eq (evp : Evp) (T : QueueThread) (f : RxFrame) :
    wanFrameL3L4 evp T f = (wanPass evp f).outcome.deliver T f := by
  unfold wanFrameL3L4 wanPass wanStages
  simp only
  generalize (if l2HasFakeMarker (inboundParams f) f.pkt then _ else _ : StageResult) = l₂
  cases l₂.outcome with
  | wait => rfl
  | drop => rfl
  | forward pkt pktLen =>
    simp only
    split_ifs
    · generalize wanStageL3 evp _ _ _ _ _ pkt pktLen = l₃
      cases l₃.outcome <;> rfl
    · rfl

/-! ## Frame after frame -/

/-- What the threads have between two frames, and the frames that have come through. -/
structure WanThreads (ι : Type) where
  params : ι → CryptoParams
  /-- `g_wan_frag_l2`, `g_wan_frag_l3` and `g_wan_frag_l4`. -/
  table : SplitLayer → FragTable
  forwarded : List Frame

inductive WanAction (ι : Type)
  /-- A thread has a frame in hand. -/
  | receive (i : ι) (f : RxFrame)
  /-- `frag_table_gc`, by a thread under the table's mutex. -/
  | collect (layer : SplitLayer) (now : ℕ)

/-- The frame meets the parameters and the tables. -/
def RxFrame.meets (f : RxFrame) (P : CryptoParams) (table : SplitLayer → FragTable) : RxFrame :=
  { f with
    fwd := { f.fwd with params := P }
    stage := fun layer => { f.stage layer with table := table layer } }

/-- The frame that goes on to a LAN. -/
def StageOutcome.frames : StageOutcome → List Frame
  | forward pkt pktLen => [(pkt, pktLen)]
  | wait | drop => []

section

variable {ι : Type} [DecidableEq ι]

/-- A frame, as a step of the threads. -/
def WanThreads.receive (evp : Evp) (s : WanThreads ι) (i : ι) (f : RxFrame) : WanThreads ι :=
  let r := wanPass evp (f.meets (s.params i) s.table)
  { params := Function.update s.params i r.params
    table := r.table
    forwarded := s.forwarded ++ r.outcome.frames }

def WanThreads.step (evp : Evp) (s : WanThreads ι) : WanAction ι → WanThreads ι
  | .receive i f => s.receive evp i f
  | .collect layer now =>
    { s with table := Function.update s.table layer (fragTableGc (s.table layer) now) }

def WanThreads.run (evp : Evp) (s : WanThreads ι) (as : List (WanAction ι)) : WanThreads ι :=
  as.foldl (step evp) s

end

/-! ## Frames that only layer 4 can touch -/

/-- The parameters of a thread under which no TCP or UDP frame is taken for one of layer 2 or of
layer 3, and the nonce size is `n`. -/
structure FitsL4 (n : ℕ) (P : CryptoParams) : Prop where
  nonceSize : P.nonceSize = n
  marker : l3Marker P ≠ 6 ∧ l3Marker P ≠ 17
  ethertype : P.fakeEthertypeIpv4 ≠ 0 → fakeMarker P ≠ 0x08

/-- The receiver decrypts, its layer-4 policies have nonces of `n` bytes, and so have the parameters
that a thread takes from its configuration. -/
structure ReceivesL4 (n : ℕ) (b : Forwarder) : Prop where
  enabled : b.cryptoEnabled = true
  policies : b.cfg.policies ≠ []
  sizes : ∀ cp ∈ b.cfg.policies, cp.action = actionEncryptL4 → cp.nonceSize = n
  defaults : b.cryptoLayer = actionEncryptL3 → ∀ P, FitsL4 n P →
    FitsL4 n (cryptoApplyDefaultFromCfg P b.cfg)

section

variable {evp : Evp} {n : ℕ} {P : CryptoParams} {f : RxFrame}

theorem FitsL4.applyPolicy (h : FitsL4 n P) {cp : CryptoPolicy} (hact : cp.action = actionEncryptL4)
    (hns : cp.nonceSize = n) : FitsL4 n (cryptoApplyFromPolicy P cp) := by
  have hfake : (cryptoApplyFromPolicy P cp).fakeProtocol = P.fakeProtocol := by
    unfold cryptoApplyFromPolicy
    exact if_neg (by rw [hact]; decide)
  refine ⟨hns, ?_, h.ethertype⟩
  unfold l3Marker
  rw [hfake]
  exact h.marker

theorem FitsL4.not_namedAtL3 (h : FitsL4 n P) {cfg : AppConfig} {pkt : Packet} {pktLen : ℕ}
    (hp : TcpUdpFrame pkt pktLen) : ¬ NamedAtL3 P cfg pkt pktLen := by
  rintro ⟨hproto, -⟩
  rcases hp.proto with e | e
  · exact h.marker.1 (hproto.symm.trans e)
  · exact h.marker.2 (hproto.symm.trans e)

theorem FitsL4.not_l2HasFakeMarker (h : FitsL4 n P) {pkt : Packet} {pktLen : ℕ}
    (hp : TcpUdpFrame pkt pktLen) : ¬ l2HasFakeMarker P pkt := by
  rintro ⟨hfake, hmark⟩
  exact h.ethertype hfake (hmark.symm.trans (pktIsIpv4Eth_iff.mp hp.ipv4.2).1)

theorem ReceivesL4.inboundParams (hb : ReceivesL4 n f.fwd) (hfit : FitsL4 n f.fwd.params)
    (hp : TcpUdpFrame f.pkt f.pktLen) : FitsL4 n (inboundParams f) := by
  have hnone : cryptoL3ExtractPolicyId f.fwd.params f.fwd.cfg f.pkt f.pktLen = none :=
    not_not.mp (mt (cryptoL3ExtractPolicyId_ne_none_iff hp).mp (hfit.not_namedAtL3 hp))
  unfold NetEncryptor.inboundParams
  simp only [hnone, Option.bind_none, ite_self]
  split_ifs with hlayer
  · exact hb.defaults hlayer.2.1 _ hfit
  · exact hfit

variable (evp) in
/-- **A TCP or UDP frame** reaches the layer-4 stage as it came. -/
theorem wanPass_eq (hb : ReceivesL4 n f.fwd) (hfit : FitsL4 n f.fwd.params)
    (hp : TcpUdpFrame f.pkt f.pktLen) :
    ∃ P, FitsL4 n P ∧ wanPass evp f =
      let r := wanStageL4 evp f.fwd f.baseCtx f.prev (f.stage .l4) P f.pkt f.pktLen
      ⟨r.outcome, r.params, tablesOf (f.stage .l2).table (f.stage .l3).table r.table⟩ := by
  have hin := hb.inboundParams hfit hp
  refine ⟨inboundParams f, hin, ?_⟩
  unfold wanPass
  simp only
  rw [if_neg (hin.not_l2HasFakeMarker hp)]
  simp only
  rw [if_pos hb.enabled, wanStageL3_eq hb.enabled hb.policies hp (hin.not_namedAtL3 hp)]

end

end NetEncryptor

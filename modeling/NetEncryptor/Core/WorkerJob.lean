import NetEncryptor.Core.Worker

/-!
# The worker's job

What `worker_thread` does with a job, as the list of its effects in order, with the labels
`skip_encrypt_flush` and `release_local`; what the job meets on its way (the forwarder, the chosen
WAN, the success of a transmission) is free.  The pins are in `workerThread`, and the frames sent
are the same (`sentBy_workerJob`).  `releasedBy_workerJob` says that every exit gives the frame back
once.
-/

namespace NetEncryptor

variable {ι : Type*}

/-! ## Frames and jobs -/

/-- A received frame: the thread that received it, how many it had received before, and where the
frame is.  The code knows the place only. -/
structure RxBuffer (ι : Type*) where
  thread : ι
  number : ℕ
  localIdx : ℤ
  queueIdx : ℤ
  addr : ℕ
  deriving DecidableEq

/-- `struct packet_job`, for the one forwarder there is. -/
structure RingJob (ι : Type*) extends RxBuffer ι where
  txQueueBase : ℤ
  pkt : Packet
  pktLen : ℕ

/-- The interfaces, and the `struct queue_thread_args` of the threads of LAN queues.  There is one
thread for every queue of every LAN interface. -/
structure LocalThreads (ι : Type*) where
  localCount : ℕ
  /-- `queue_count` of a LAN interface. -/
  localQueueCount : ℕ → ℤ
  /-- `queue_count` of a WAN interface. -/
  wanQueueCount : ℕ → ℤ
  ifaceIdx : ι → ℕ
  queueIdx : ι → ℕ
  txQueueBase : ι → ℤ
  ifaceIdx_lt : ∀ p, ifaceIdx p < localCount
  queueIdx_lt : ∀ p, (queueIdx p : ℤ) < localQueueCount (ifaceIdx p)

/-- What the worker meets while it has a job in hand. -/
structure JobInput where
  fwd : Forwarder
  /-- What `select_wan_idx_for_packet` or `select_wan_idx_nonip_flow` returned. -/
  wanIdx : ℤ
  /-- What `tcp_policy_pin_now_sec` returned. -/
  now : ℕ
  /-- Whether the transmission of the frame, or of its first fragment, succeeds. -/
  sent : Bool
  /-- Whether that of the second fragment does. -/
  sent₂ : Bool

inductive JobEvent (ι : Type*) where
  /-- `total_dropped`. -/
  | drop
  /-- `interface_send_batch_queue`, and whether it succeeds; `local_to_wan` or `total_dropped`. -/
  | send (wanIdx : ℕ) (tq : ℤ) (frame : Frame) (sent : Bool)
  | flushWan (wanIdx : ℕ) (tq : ℤ)
  /-- The frame is put into the fill ring of its queue. -/
  | release (b : RxBuffer ι)

def RingJob.packetJob (job : RingJob ι) (x : JobInput) : PacketJob :=
  ⟨job.pkt, job.pktLen, job.localIdx, x.wanIdx, x.now⟩

@[simp] theorem RingJob.packetJob_pkt (job : RingJob ι) (x : JobInput) :
    (job.packetJob x).pkt = job.pkt := rfl

@[simp] theorem RingJob.packetJob_pktLen (job : RingJob ι) (x : JobInput) :
    (job.packetJob x).pktLen = job.pktLen := rfl

/-! ## The labels -/

section

variable (S : LocalThreads ι) (E : Encryptors) (job : RingJob ι) (x : JobInput)

/-- For one frame, which the fill ring accepts. -/
def interfaceRecvReleaseSingleQueue (b : RxBuffer ι) : List (JobEvent ι) :=
  if S.localQueueCount b.localIdx.toNat ≤ b.queueIdx then [] else [.release b]

/-- The label `release_local`. -/
def releaseLocal : List (JobEvent ι) :=
  if 0 ≤ job.localIdx ∧ job.localIdx < S.localCount then
    interfaceRecvReleaseSingleQueue S job.toRxBuffer
  else []

/-- `total_dropped`, and `goto release_local`. -/
def dropJob : List (JobEvent ι) := .drop :: releaseLocal S job

def RingJob.wanTxQueue (w : ℕ) : ℤ := job.txQueueBase.tmod (S.wanQueueCount w)

/-- `wan_used` after these transmissions. -/
def wanUsed (events : List (JobEvent ι)) (w : ℕ) : Bool :=
  events.any fun
    | .send w' _ _ true => w' == w
    | _ => false

/-- The label `skip_encrypt_flush`, after these transmissions. -/
def skipEncryptFlush (events : List (JobEvent ι)) : List (JobEvent ι) :=
  events ++
    ((List.range x.fwd.wanCount).filter (wanUsed events)).map
      (fun w => .flushWan w (job.wanTxQueue S w)) ++
    releaseLocal S job

/-- `interface_send_batch_queue` on the chosen WAN. -/
def RingJob.send (frame : Frame) (sent : Bool) : JobEvent ι :=
  let w := (job.packetJob x).wan x.fwd
  .send w (job.wanTxQueue S w) frame sent

/-! ## The body -/

/-- The bypass, and a forwarder without encryption. -/
def jobPlain : List (JobEvent ι) :=
  match setWanL2Addrs x.fwd ((job.packetJob x).wan x.fwd) job.pkt with
  | none => dropJob S job
  | some pkt => skipEncryptFlush S job x [job.send S x (pkt, job.pktLen) x.sent]

/-- A frame too long for one packet. -/
def jobSplit (layer : EncryptLayer) (useCtx : PacketCryptoCtx) (P : CryptoParams) (pkt : Packet) :
    List (JobEvent ι) :=
  match E.split layer useCtx P pkt job.pktLen with
  | none => dropJob S job
  | some (f₁, f₂) =>
    match sendFragments x.fwd ((job.packetJob x).wan x.fwd) f₁ f₂ with
    | none => dropJob S job
    | some frames =>
      skipEncryptFlush S job x
        ((frames.zip [x.sent, x.sent₂]).map fun fs => job.send S x fs.1 fs.2)

def jobWhole (layer : EncryptLayer) (useCtx : PacketCryptoCtx) (P : CryptoParams) (pkt : Packet) :
    List (JobEvent ι) :=
  let r := E.encrypt layer useCtx P pkt job.pktLen
  if r.1 < 0 then dropJob S job
  else skipEncryptFlush S job x [job.send S x (r.2, r.1.toNat) x.sent]

def jobEncrypted (cp : CryptoPolicy) (useCtx : PacketCryptoCtx) : List (JobEvent ι) :=
  let P := cryptoApplyFromPolicy x.fwd.params cp
  match setWanL2Addrs x.fwd ((job.packetJob x).wan x.fwd) job.pkt with
  | none => dropJob S job
  | some pkt =>
    match EncryptLayer.ofAction cp.action with
    | none => dropJob S job
    | some layer =>
      if layer.NeedSplit P job.pktLen then jobSplit S E job x layer useCtx P pkt
      else jobWhole S E job x layer useCtx P pkt

/-- The policy of the flow of a job, and its index. -/
def jobPolicy (t : FlowTuple) : Option (CryptoPolicy × ℤ) :=
  (policyForFlow x.fwd (job.packetJob x) t).1.bind fun pi =>
    (atIndex? x.fwd.cfg.policies pi).map fun cp => (cp, pi)

/-- The body of `worker_thread` for a job. -/
def workerJob : List (JobEvent ι) :=
  if x.fwd.cryptoEnabled = false then jobPlain S job x
  else
    match parseFlow job.pkt job.pktLen with
    | none => jobPlain S job x
    | some t =>
      match jobPolicy job x t with
      | none => if x.fwd.cfg.policies = [] then jobPlain S job x else dropJob S job
      | some (cp, pi) =>
        if BypassCrypto x.fwd cp pi then jobPlain S job x
        else jobEncrypted S E job x cp (x.fwd.runtime.ctx pi.toNat)

end

/-! ## The exits -/

/-- The ways out of the body, and the frames sent by then: `goto release_local`, or the flush behind
some transmissions. -/
inductive JobExit (S : LocalThreads ι) (job : RingJob ι) (x : JobInput) :
    List (JobEvent ι) → List Frame → Prop
  | dropped : JobExit S job x (dropJob S job) []
  | flushed (frames : List (Frame × Bool)) :
      JobExit S job x
        (skipEncryptFlush S job x (frames.map fun f => job.send S x f.1 f.2)) (frames.map Prod.fst)

section

variable {S : LocalThreads ι} {E : Encryptors} {job : RingJob ι} {x : JobInput} {cp : CryptoPolicy}
  {useCtx : PacketCryptoCtx}

theorem jobPlain_exit :
    JobExit S job x (jobPlain S job x) (sendPlain x.fwd (job.packetJob x)) := by
  unfold jobPlain sendPlain
  simp only [RingJob.packetJob_pkt, RingJob.packetJob_pktLen]
  cases setWanL2Addrs x.fwd ((job.packetJob x).wan x.fwd) job.pkt with
  | none => exact .dropped
  | some pkt => exact .flushed [((pkt, job.pktLen), x.sent)]

theorem sendFragments_exit {wanIdx : ℕ} {f₁ f₂ : Frame} :
    sendFragments x.fwd wanIdx f₁ f₂ = none ∨
      ∃ p₁ p₂, sendFragments x.fwd wanIdx f₁ f₂ = some [(p₁, f₁.2), (p₂, f₂.2)] := by
  unfold sendFragments
  cases setWanL2Addrs x.fwd wanIdx f₁.1 with
  | none => exact .inl rfl
  | some p₁ =>
    cases setWanL2Addrs x.fwd wanIdx f₂.1 with
    | none => exact .inl rfl
    | some p₂ => exact .inr ⟨p₁, p₂, rfl⟩

theorem jobSplit_exit {layer : EncryptLayer} {P : CryptoParams} {pkt : Packet} :
    JobExit S job x (jobSplit S E job x layer useCtx P pkt)
      (((E.split layer useCtx P pkt job.pktLen).bind fun fs =>
        sendFragments x.fwd ((job.packetJob x).wan x.fwd) fs.1 fs.2).getD []) := by
  unfold jobSplit
  cases E.split layer useCtx P pkt job.pktLen with
  | none => exact .dropped
  | some fs =>
    obtain ⟨f₁, f₂⟩ := fs
    simp only [Option.bind_some]
    rcases @sendFragments_exit x ((job.packetJob x).wan x.fwd) f₁ f₂ with h | ⟨p₁, p₂, h⟩
    · rw [h]
      exact .dropped
    · rw [h]
      exact .flushed [((p₁, f₁.2), x.sent), ((p₂, f₂.2), x.sent₂)]

theorem jobWhole_exit {layer : EncryptLayer} {P : CryptoParams} {pkt : Packet} :
    JobExit S job x (jobWhole S E job x layer useCtx P pkt)
      ((if (E.encrypt layer useCtx P pkt job.pktLen).1 < 0 then none
        else some [((E.encrypt layer useCtx P pkt job.pktLen).2,
          (E.encrypt layer useCtx P pkt job.pktLen).1.toNat)]).getD []) := by
  unfold jobWhole
  simp only
  split_ifs
  · exact .dropped
  · exact .flushed [(_, x.sent)]

theorem jobEncrypted_exit :
    JobExit S job x (jobEncrypted S E job x cp useCtx)
      ((sendEncrypted E x.fwd (job.packetJob x) cp useCtx).getD []) := by
  unfold jobEncrypted sendEncrypted
  simp only [RingJob.packetJob_pkt, RingJob.packetJob_pktLen]
  cases setWanL2Addrs x.fwd ((job.packetJob x).wan x.fwd) job.pkt with
  | none => exact .dropped
  | some pkt =>
    cases EncryptLayer.ofAction cp.action with
    | none => exact .dropped
    | some layer =>
      by_cases hsplit : layer.NeedSplit (cryptoApplyFromPolicy x.fwd.params cp) job.pktLen
      · simp only [hsplit, if_true]
        have hexit := @jobSplit_exit _ S E job x useCtx layer
          (cryptoApplyFromPolicy x.fwd.params cp) pkt
        cases hfs : E.split layer useCtx (cryptoApplyFromPolicy x.fwd.params cp) pkt job.pktLen with
        | none => simpa [hfs] using hexit
        | some fs => simpa [hfs] using hexit
      · simp only [hsplit, if_false]
        exact jobWhole_exit

theorem jobPolicy_eq {t : FlowTuple} {pi : ℤ}
    (h : (policyForFlow x.fwd (job.packetJob x) t).1 = some pi) :
    jobPolicy job x t = (atIndex? x.fwd.cfg.policies pi).map fun cp => (cp, pi) := by
  rw [jobPolicy, h, Option.bind_some]

/-- **The exits.** The body leaves through one of the labels, and has sent what `workerThread`
sends. -/
theorem workerJob_exit :
    JobExit S job x (workerJob S E job x) (workerThread E x.fwd (job.packetJob x)).sent := by
  unfold workerJob workerThread
  simp only [RingJob.packetJob_pkt, RingJob.packetJob_pktLen]
  by_cases hcrypto : x.fwd.cryptoEnabled = false
  · simp only [hcrypto, if_true]
    exact jobPlain_exit
  simp only [hcrypto]
  cases parseFlow job.pkt job.pktLen with
  | none => exact jobPlain_exit
  | some t =>
    simp only
    cases hpi : (policyForFlow x.fwd (job.packetJob x) t).1 with
    | none =>
      rw [jobPolicy, hpi, Option.bind_none]
      simp only
      by_cases hpolicies : x.fwd.cfg.policies = []
      · simp only [hpolicies, if_true]
        exact jobPlain_exit
      · simp only [hpolicies, if_false]
        exact .dropped
    | some pi =>
      obtain ⟨cp, hcp⟩ := policyForFlow_atIndex hpi
      rw [jobPolicy_eq hpi]
      simp only [hcp, Option.map_some]
      by_cases hbypass : BypassCrypto x.fwd cp pi
      · simp only [hbypass, if_true]
        exact jobPlain_exit
      · simp only [hbypass, if_false]
        have hexit := @jobEncrypted_exit _ S E job x cp (x.fwd.runtime.ctx pi.toNat)
        cases hsent : sendEncrypted E x.fwd (job.packetJob x) cp (x.fwd.runtime.ctx pi.toNat) with
        | none => simpa [hsent] using hexit
        | some frames => simpa [hsent] using hexit

end

/-! ## What is sent, and what is given back -/

def JobEvent.sent? : JobEvent ι → Option Frame
  | send _ _ frame _ => some frame
  | _ => none

/-- The frames handed to `interface_send_batch_queue`, in order. -/
def sentBy (events : List (JobEvent ι)) : List Frame := events.filterMap JobEvent.sent?

def JobEvent.released? : JobEvent ι → Option (RxBuffer ι)
  | release b => some b
  | _ => none

/-- The frames that are given back, in order. -/
def releasedBy (events : List (JobEvent ι)) : List (RxBuffer ι) :=
  events.filterMap JobEvent.released?

section

variable {S : LocalThreads ι} {E : Encryptors} {job : RingJob ι} {x : JobInput}
  {events : List (JobEvent ι)} {frames : List Frame}

theorem sentBy_append (as bs : List (JobEvent ι)) : sentBy (as ++ bs) = sentBy as ++ sentBy bs :=
  List.filterMap_append

theorem releasedBy_append (as bs : List (JobEvent ι)) :
    releasedBy (as ++ bs) = releasedBy as ++ releasedBy bs := List.filterMap_append

theorem sentBy_releaseLocal : sentBy (releaseLocal S job) = [] := by
  unfold releaseLocal interfaceRecvReleaseSingleQueue
  split_ifs
  · rfl
  · rfl
  · rfl

theorem sentBy_flush (ws : List ℕ) :
    sentBy (ws.map fun w => (.flushWan w (job.wanTxQueue S w) : JobEvent ι)) = [] := by
  unfold sentBy
  rw [List.filterMap_map]
  exact List.filterMap_eq_nil_iff.mpr fun _ _ => rfl

theorem releasedBy_flush (ws : List ℕ) :
    releasedBy (ws.map fun w => (.flushWan w (job.wanTxQueue S w) : JobEvent ι)) = [] := by
  unfold releasedBy
  rw [List.filterMap_map]
  exact List.filterMap_eq_nil_iff.mpr fun _ _ => rfl

theorem sentBy_sends (frames : List (Frame × Bool)) :
    sentBy (frames.map fun f => job.send S x f.1 f.2) = frames.map Prod.fst := by
  unfold sentBy
  rw [List.filterMap_map, ← List.filterMap_eq_map]
  rfl

theorem releasedBy_sends (frames : List (Frame × Bool)) :
    releasedBy (frames.map fun f => job.send S x f.1 f.2) = [] := by
  unfold releasedBy
  rw [List.filterMap_map]
  exact List.filterMap_eq_nil_iff.mpr fun _ _ => rfl

theorem JobExit.sentBy_eq (h : JobExit S job x events frames) : sentBy events = frames := by
  cases h with
  | dropped => exact sentBy_releaseLocal
  | flushed frames =>
    rw [skipEncryptFlush, sentBy_append, sentBy_append, sentBy_flush, sentBy_releaseLocal,
      sentBy_sends, List.append_nil, List.append_nil]

theorem JobExit.releasedBy_eq (h : JobExit S job x events frames) :
    releasedBy events = releasedBy (releaseLocal S job) := by
  cases h with
  | dropped => rfl
  | flushed frames =>
    rw [skipEncryptFlush, releasedBy_append, releasedBy_append, releasedBy_flush, releasedBy_sends,
      List.append_nil, List.nil_append]

/-- **The frames sent** are those of the transmit decision. -/
theorem sentBy_workerJob :
    sentBy (workerJob S E job x) = (workerThread E x.fwd (job.packetJob x)).sent :=
  workerJob_exit.sentBy_eq

/-- The frame is in the queue of its thread. -/
def RxBuffer.FromThread (S : LocalThreads ι) (b : RxBuffer ι) : Prop :=
  b.localIdx = S.ifaceIdx b.thread ∧ b.queueIdx = S.queueIdx b.thread

theorem interfaceRecvReleaseSingleQueue_eq {b : RxBuffer ι} (h : b.FromThread S) :
    interfaceRecvReleaseSingleQueue S b = [.release b] := by
  have hlt := S.queueIdx_lt b.thread
  unfold interfaceRecvReleaseSingleQueue
  rw [h.1, h.2, Int.toNat_natCast, if_neg (not_le.mpr hlt)]

/-- **Every exit** gives the frame back once. -/
theorem releasedBy_workerJob (h : job.FromThread S) :
    releasedBy (workerJob S E job x) = [job.toRxBuffer] := by
  have hlt := S.ifaceIdx_lt job.thread
  have hlocal := h.1
  rw [workerJob_exit.releasedBy_eq, releaseLocal, if_pos (by omega),
    interfaceRecvReleaseSingleQueue_eq h]
  rfl

end

end NetEncryptor

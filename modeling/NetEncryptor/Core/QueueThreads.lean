import NetEncryptor.Core.FlowTable
import NetEncryptor.Core.FragTable
import NetEncryptor.Core.LanState
import NetEncryptor.Core.LayerDispatch
import NetEncryptor.Core.WanQueue

/-!
# The queue threads

A queue thread receives a batch of frames, does its work on each, and gives the memory of the frames
back to the interface.  A loop is modelled by the list of what it does, in order; what a frame meets
on its way (the configuration, the tables, the neighbours, the success of a transmission) is free
for every frame.

`released_iff` says that the frames of a batch are given back once, except by
`wan_queue_thread_no_crypto`: there a frame whose receiver has no known link address is given back
on the spot, and again with its batch.
-/

namespace NetEncryptor

/-! ## Frames and threads -/

/-- A received frame, and what the thread finds while it has it in hand. -/
structure RxFrame where
  /-- Where the frame is in the memory of the interface. -/
  addr : ℕ
  pkt : Packet
  pktLen : ℕ
  fwd : Forwarder
  /-- `crypto_ctx`. -/
  baseCtx : PacketCryptoCtx
  prev : PolicyRuntime
  /-- What the decryption at each layer finds. -/
  stage : SplitLayer → StageInput
  /-- What `select_wan_idx_for_packet` or `select_wan_idx_nonip_flow` returned. -/
  wanIdx : ℤ
  /-- `arp_cache_lookup` in `g_arp`. -/
  localArp : ℕ → UInt32 → Option Mac
  /-- `if_mac` of `g_arp`. -/
  localIfMac : ℕ → Mac
  /-- Whether the transmission of the frame, or of its first fragment, succeeds. -/
  sent : Bool
  /-- Whether that of the second fragment does. -/
  sent₂ : Bool

/-- `struct queue_thread_args`, and the queues of the interfaces. -/
structure QueueThread where
  ifaceIdx : ℕ
  txQueueBase : ℤ
  wanWorkerIndex : ℤ
  localCount : ℕ
  wanCount : ℕ
  localQueueCount : ℕ → ℤ
  wanQueueCount : ℕ → ℤ

inductive QueueEvent where
  /-- `total_dropped`. -/
  | drop
  | droppedBadIp
  | droppedNoLocalMatch
  | droppedLocalTxFail
  | wanToLocal (localIdx : ℕ) (tq : ℤ)
  | localToWan (wanIdx : ℕ) (tq : ℤ)
  | flushLocal (localIdx : ℕ) (tq : ℤ)
  | flushWan (wanIdx : ℕ) (tq : ℤ)
  /-- An address is passed to `interface_recv_release_single_queue`. -/
  | release (addr : ℕ)
  deriving DecidableEq

/-! ## Delivery to a LAN -/

def getDestIp (pkt : Packet) (pktLen : ℕ) : UInt32 :=
  if pktLen < 14 + 20 then 0
  else if pkt.be16 12 ≠ 0x0800 then 0
  else le32 pkt (14 + 16)

/-- `none` stands for `-1`. -/
def localRewriteDestMac (arp : UInt32 → Option Mac) (ifMac : Mac) (destIp : UInt32) (pkt : Packet) :
    Option Packet :=
  if destIp = 0 then none
  else
    match arp destIp with
    | none => none
    | some dstMac => some ((pkt.write 0 dstMac.val).write 6 ifMac.val)

/-- `none` stands for `-1`. -/
def setLocalL2Addrs (T : QueueThread) (f : RxFrame) (localIdx : ℕ) (destIp : UInt32)
    (pkt : Packet) : Option Packet :=
  if T.localCount ≤ localIdx then none
  else if configWanBridgeMode f.fwd.cfg = true then some pkt
  else localRewriteDestMac (f.localArp localIdx) (f.localIfMac localIdx) destIp pkt

/-- `tq` for a frame to a LAN interface. -/
def QueueThread.localTxQueue (T : QueueThread) (localIdx : ℕ) (pkt : Packet) (pktLen : ℕ) : ℤ :=
  let nq := if T.localQueueCount localIdx ≤ 0 then 1 else T.localQueueCount localIdx
  match parseFlow pkt pktLen with
  | some t => (flowHashLocalTq t).toNat % nq
  | none => if 0 ≤ T.wanWorkerIndex then T.wanWorkerIndex.tmod nq else T.txQueueBase.tmod nq

/-- The counters of a frame that no LAN interface is picked for. -/
def noLocal (f : RxFrame) (destIp : UInt32) : List QueueEvent :=
  [.drop,
    if destIp = 0 ∧ configWanBridgeMode f.fwd.cfg = false then .droppedBadIp
    else .droppedNoLocalMatch]

/-- `interface_send_to_local_batch_queue` with its counters. -/
def sendToLocal (f : RxFrame) (localIdx : ℕ) (tq : ℤ) : List QueueEvent :=
  if f.sent then [.wanToLocal localIdx tq] else [.drop, .droppedLocalTxFail]

/-- The end of both loops that decrypt. -/
def deliverLocal (T : QueueThread) (f : RxFrame) (pkt : Packet) (pktLen : ℕ) : List QueueEvent :=
  let destIp := getDestIp pkt pktLen
  let picked := forwarderRxPickLocal f.fwd pkt pktLen destIp
  match picked.1 with
  | none => noLocal f destIp
  | some localIdx =>
    let tq := T.localTxQueue localIdx picked.2 pktLen
    match setLocalL2Addrs T f localIdx destIp picked.2 with
    | none => [.drop]
    | some _ => sendToLocal f localIdx tq

/-! ## The threads of WAN queues -/

/-- A frame in `wan_queue_thread_no_crypto`. -/
def wanFrameNoCrypto (T : QueueThread) (f : RxFrame) : List QueueEvent :=
  let destIp := getDestIp f.pkt f.pktLen
  let picked := forwarderRxPickLocal f.fwd f.pkt f.pktLen destIp
  match picked.1 with
  | none => noLocal f destIp
  | some localIdx =>
    let tq := T.localTxQueue localIdx picked.2 f.pktLen
    match setLocalL2Addrs T f localIdx destIp picked.2 with
    | none => [.drop, .release f.addr]
    | some _ => sendToLocal f localIdx tq

def forwarderResolveL2DecryptCtx (f : RxFrame) (P : CryptoParams) :
    Option (CryptoParams × PacketCryptoCtx) :=
  if f.fwd.cfg.policies = [] then some (cryptoApplyDefaultFromCfg P f.fwd.cfg, f.baseCtx)
  else
    resolveDecryptCtx f.fwd f.baseCtx f.prev (fun _ => true) (f.stage .l2).graceActive P
      actionEncryptL2 (f.pkt 13)

section

variable (evp : Evp)

/-- `decrypt_packet_auto_l2`. -/
def wholeStageL2 (f : RxFrame) (P : CryptoParams) : StageResult :=
  match decryptPacketAutoL2 P ⟨f.fwd.cryptoEnabled, f.fwd.cfg,
      dispatchCtx f.fwd f.baseCtx f.prev (f.stage .l2).graceActive, f.pkt, f.pktLen⟩ with
  | .done ret => ⟨if ret = 0 then .forward f.pkt f.pktLen else .drop, P, (f.stage .l2).table⟩
  | .call c =>
    let P := c.source.params P
    let r := packetDecrypt evp f.fwd.encryptLayer P c.ctx c.pkt c.pktLen
    ⟨if r.1 < 0 then .drop else .forward r.2 r.1.toNat, P, (f.stage .l2).table⟩

/-- The layer-2 stage of both loops that decrypt. -/
def wanStageL2 (f : RxFrame) (P : CryptoParams) : StageResult :=
  match fragIsFragmentL2 P f.fwd.cfg f.pkt f.pktLen with
  | some _ =>
    fragmentStage (cryptoLayer2DecryptFragment evp) fragTryReassembleL2
      (forwarderResolveL2DecryptCtx f P) (f.stage .l2) P f.pkt f.pktLen
  | none => wholeStageL2 evp f P

/-- What a decrypted frame becomes. -/
def StageOutcome.deliver (T : QueueThread) (f : RxFrame) : StageOutcome → List QueueEvent
  | forward pkt pktLen => deliverLocal T f pkt pktLen
  | wait => []
  | drop => [.drop]

/-- A frame in `wan_queue_thread_l2`. -/
def wanFrameL2 (T : QueueThread) (f : RxFrame) : List QueueEvent :=
  (wanStageL2 evp f f.fwd.params).outcome.deliver T f

/-- The parameters that `wan_queue_thread_l3l4` applies to a frame before it looks at its marker. -/
def inboundParams (f : RxFrame) : CryptoParams :=
  let P := f.fwd.params
  if f.fwd.cryptoEnabled = true ∧ f.fwd.cryptoLayer = actionEncryptL3 ∧ f.fwd.cfg.policies ≠ [] then
    let applied :=
      if f.pktLen < 14 + 20 then none
      else
        (cryptoL3ExtractPolicyId P f.fwd.cfg f.pkt f.pktLen).bind fun policyId =>
          resolveDecryptCtx f.fwd f.baseCtx f.prev (fun _ => true) (f.stage .l3).graceActive P
            actionEncryptL3 policyId
    match applied with
    | some r => r.1
    | none => cryptoApplyDefaultFromCfg P f.fwd.cfg
  else P

/-- A frame in `wan_queue_thread_l3l4`.  The pin of its flow is left out. -/
def wanFrameL3L4 (T : QueueThread) (f : RxFrame) : List QueueEvent :=
  let P := inboundParams f
  let l2 : StageResult :=
    if l2HasFakeMarker P f.pkt then wanStageL2 evp f P
    else ⟨.forward f.pkt f.pktLen, P, (f.stage .l2).table⟩
  match l2.outcome with
  | .forward pkt pktLen =>
    (wanStages evp f.fwd f.baseCtx f.prev (f.stage .l3) (f.stage .l4) l2.params pkt pktLen).deliver
      T f
  | outcome => outcome.deliver T f

end

/-! ## The threads of LAN queues -/

def RxFrame.wan (f : RxFrame) : ℕ :=
  if f.wanIdx < 0 ∨ f.fwd.wanCount ≤ f.wanIdx then 0 else f.wanIdx.toNat

def QueueThread.wanTxQueue (T : QueueThread) (wanIdx : ℕ) : ℤ :=
  T.txQueueBase.tmod (T.wanQueueCount wanIdx)

/-- `interface_send_batch_queue` with its counters. -/
def sendToWan (T : QueueThread) (f : RxFrame) (sent : Bool) : List QueueEvent :=
  if sent then [.localToWan f.wan (T.wanTxQueue f.wan)] else [.drop]

/-- A frame in `local_queue_thread_no_crypto`. -/
def localFrameNoCrypto (T : QueueThread) (f : RxFrame) : List QueueEvent :=
  match setWanL2Addrs f.fwd f.wan f.pkt with
  | none => [.drop]
  | some _ => sendToWan T f f.sent

section

variable (E : Encryptors)

/-- The length of the frame after `encrypt_packet_with_ctx`; `none` stands for `-1`. -/
def encryptPacketWithCtx (f : RxFrame) (P : CryptoParams) (ctx : PacketCryptoCtx) (pkt : Packet) :
    Option ℕ :=
  if f.fwd.cryptoEnabled = false then some f.pktLen
  else
    match EncryptLayer.ofAction f.fwd.encryptLayer with
    | none => none
    | some layer =>
      let newLen := (E.encrypt layer ctx P pkt f.pktLen).1
      if newLen < 0 then none else some newLen.toNat

/-- Encrypt the whole frame and send it. -/
def sendWhole (T : QueueThread) (f : RxFrame) (P : CryptoParams) (ctx : PacketCryptoCtx)
    (pkt : Packet) : List QueueEvent :=
  match encryptPacketWithCtx E f P ctx pkt with
  | none => [.drop]
  | some _ => sendToWan T f f.sent

/-- Split the frame and send its fragments. -/
def sendSplit (T : QueueThread) (f : RxFrame) (P : CryptoParams) (ctx : PacketCryptoCtx)
    (pkt : Packet) : List QueueEvent :=
  match E.split .l2 ctx P pkt f.pktLen with
  | none => [.drop]
  | some (f₁, f₂) =>
    match sendFragments f.fwd f.wan f₁ f₂ with
    | none => [.drop]
    | some _ => sendToWan T f f.sent ++ sendToWan T f f.sent₂

/-- A frame in `local_queue_thread_l2`. -/
def localFrameL2 (T : QueueThread) (f : RxFrame) : List QueueEvent :=
  let flow := parseFlow f.pkt f.pktLen
  match setWanL2Addrs f.fwd f.wan f.pkt with
  | none => [.drop]
  | some pkt =>
    let policy :=
      flow.bind fun t =>
        (cryptoSelectPolicyForLocal f.fwd.cfg T.ifaceIdx t).bind fun pi =>
          (atIndex? f.fwd.cfg.policies pi).map fun cp => (cp, pi)
    match policy with
    | none =>
      if flow.isSome ∧ f.fwd.cfg.policies ≠ [] then [.drop]
      else sendWhole E T f f.fwd.params f.baseCtx pkt
    | some (cp, pi) =>
      if cp.action ≠ actionEncryptL2 ∨ ¬ f.fwd.CtxReady pi then sendToWan T f f.sent
      else
        let P := cryptoApplyFromPolicy f.fwd.params cp
        let useCtx := f.fwd.runtime.ctx pi.toNat
        if EncryptLayer.NeedSplit P f.pktLen .l2 then sendSplit E T f P useCtx pkt
        else sendWhole E T f P useCtx pkt

end

/-! ## The loops -/

/-- The threads that give their frames back batch by batch. -/
inductive QueueLoop where
  | wanNoCrypto
  | wanL2
  | wanL3L4
  | localNoCrypto
  | localL2
  deriving DecidableEq

/-- The queues of LAN interfaces that are flushed behind a batch. -/
def flushLocals (T : QueueThread) (events : List QueueEvent) : List QueueEvent :=
  (List.range T.localCount).flatMap fun l =>
    ((List.range 32).filter fun q =>
      decide ((q : ℤ) < T.localQueueCount l ∧ .wanToLocal l q ∈ events)).map fun q => .flushLocal l q

/-- The queues of WAN interfaces that are flushed behind a batch. -/
def flushWans (T : QueueThread) (events : List QueueEvent) : List QueueEvent :=
  ((List.range T.wanCount).filter fun w =>
    decide (.localToWan w (T.wanTxQueue w) ∈ events)).map fun w => .flushWan w (T.wanTxQueue w)

namespace QueueLoop

def frame (evp : Evp) (E : Encryptors) (T : QueueThread) : QueueLoop → RxFrame → List QueueEvent
  | wanNoCrypto => wanFrameNoCrypto T
  | wanL2 => wanFrameL2 evp T
  | wanL3L4 => wanFrameL3L4 evp T
  | localNoCrypto => localFrameNoCrypto T
  | localL2 => localFrameL2 E T

def flush (T : QueueThread) : QueueLoop → List QueueEvent → List QueueEvent
  | wanNoCrypto | wanL2 | wanL3L4 => flushLocals T
  | localNoCrypto | localL2 => flushWans T

def batch (evp : Evp) (E : Encryptors) (T : QueueThread) (loop : QueueLoop) (fs : List RxFrame) :
    List QueueEvent :=
  let events := fs.flatMap (loop.frame evp E T)
  events ++ loop.flush T events ++ fs.map fun f => .release f.addr

end QueueLoop

/-! ## What is given back -/

def QueueEvent.released? : QueueEvent → Option ℕ
  | release addr => some addr
  | _ => none

/-- The addresses that are given back, in order. -/
def released (events : List QueueEvent) : List ℕ := events.filterMap QueueEvent.released?

section

variable {evp : Evp} {E : Encryptors} {T : QueueThread} {f : RxFrame} {P : CryptoParams}
  {ctx : PacketCryptoCtx} {pkt : Packet} {destIp : UInt32} {localIdx : ℕ} {tq : ℤ} {sent : Bool}

@[simp] theorem released_append (as bs : List QueueEvent) :
    released (as ++ bs) = released as ++ released bs := List.filterMap_append

@[simp] theorem released_drop : released [.drop] = [] := rfl

@[simp] theorem released_noLocal : released (noLocal f destIp) = [] := by
  unfold noLocal
  split_ifs
  · rfl
  · rfl

@[simp] theorem released_sendToLocal : released (sendToLocal f localIdx tq) = [] := by
  unfold sendToLocal
  split_ifs
  · rfl
  · rfl

@[simp] theorem released_deliverLocal {pktLen : ℕ} :
    released (deliverLocal T f pkt pktLen) = [] := by
  unfold deliverLocal
  simp only
  split
  · exact released_noLocal
  · split
    · rfl
    · exact released_sendToLocal

@[simp] theorem released_deliver (outcome : StageOutcome) : released (outcome.deliver T f) = [] := by
  cases outcome with
  | forward pkt pktLen => exact released_deliverLocal
  | wait => rfl
  | drop => rfl

@[simp] theorem released_wanFrameL2 : released (wanFrameL2 evp T f) = [] := released_deliver _

@[simp] theorem released_wanFrameL3L4 : released (wanFrameL3L4 evp T f) = [] := by
  unfold wanFrameL3L4
  simp only
  split
  · exact released_deliver _
  · exact released_deliver _

@[simp] theorem released_sendToWan : released (sendToWan T f sent) = [] := by
  unfold sendToWan
  split_ifs
  · rfl
  · rfl

@[simp] theorem released_localFrameNoCrypto : released (localFrameNoCrypto T f) = [] := by
  unfold localFrameNoCrypto
  split
  · rfl
  · exact released_sendToWan

@[simp] theorem released_sendWhole : released (sendWhole E T f P ctx pkt) = [] := by
  unfold sendWhole
  split
  · rfl
  · exact released_sendToWan

@[simp] theorem released_sendSplit : released (sendSplit E T f P ctx pkt) = [] := by
  unfold sendSplit
  split
  · rfl
  · split
    · rfl
    · simp

@[simp] theorem released_localFrameL2 : released (localFrameL2 E T f) = [] := by
  unfold localFrameL2
  simp only
  split
  · rfl
  · split
    · split_ifs
      · rfl
      · exact released_sendWhole
    · split_ifs
      · exact released_sendToWan
      · exact released_sendSplit
      · exact released_sendWhole

@[simp] theorem released_flush (loop : QueueLoop) (events : List QueueEvent) :
    released (loop.flush T events) = [] := by
  unfold released
  rw [List.filterMap_eq_nil_iff]
  intro e he
  cases loop with
  | wanNoCrypto | wanL2 | wanL3L4 =>
    simp only [QueueLoop.flush, flushLocals, List.mem_flatMap, List.mem_map] at he
    obtain ⟨l, -, q, -, rfl⟩ := he
    rfl
  | localNoCrypto | localL2 =>
    simp only [QueueLoop.flush, flushWans, List.mem_map] at he
    obtain ⟨w, -, rfl⟩ := he
    rfl

/-- A LAN interface is picked for the frame, but is not there or does not know the receiver. -/
def MissesArp (T : QueueThread) (f : RxFrame) : Prop :=
  let destIp := getDestIp f.pkt f.pktLen
  ∃ localIdx, (forwarderRxPickLocal f.fwd f.pkt f.pktLen destIp).1 = some localIdx ∧
    (T.localCount ≤ localIdx ∨
      configWanBridgeMode f.fwd.cfg = false ∧ f.localArp localIdx destIp = none)

theorem setLocalL2Addrs_eq_none_iff
    (hpick : (forwarderRxPickLocal f.fwd f.pkt f.pktLen destIp).1 = some localIdx) :
    setLocalL2Addrs T f localIdx destIp pkt = none ↔
      T.localCount ≤ localIdx ∨
        configWanBridgeMode f.fwd.cfg = false ∧ f.localArp localIdx destIp = none := by
  unfold setLocalL2Addrs
  by_cases hcount : T.localCount ≤ localIdx
  · simp [hcount]
  · rw [if_neg hcount]
    cases hbridge : configWanBridgeMode f.fwd.cfg with
    | true => simp [hcount]
    | false =>
      have hdest : destIp ≠ 0 := by
        rintro rfl
        rw [forwarderRxPickLocal_ip (by simp [hbridge]), if_pos rfl] at hpick
        cases hpick
      simp only [Bool.false_eq_true, if_false, localRewriteDestMac, if_neg hdest, hcount, false_or,
        true_and]
      cases f.localArp localIdx destIp with
      | none => simp
      | some mac => simp

theorem released_wanFrameNoCrypto_of_misses (h : MissesArp T f) :
    released (wanFrameNoCrypto T f) = [f.addr] := by
  obtain ⟨localIdx, hpick, hmiss⟩ := h
  unfold wanFrameNoCrypto
  simp only [hpick, (setLocalL2Addrs_eq_none_iff hpick).mpr hmiss]
  rfl

theorem released_wanFrameNoCrypto (h : ¬ MissesArp T f) : released (wanFrameNoCrypto T f) = [] := by
  unfold wanFrameNoCrypto
  simp only
  split
  · exact released_noLocal
  · rename_i localIdx hpick
    split
    · rename_i hnone
      exact absurd ⟨localIdx, hpick, (setLocalL2Addrs_eq_none_iff hpick).mp hnone⟩ h
    · exact released_sendToLocal

/-- Of the loops, only that one gives a frame back on its own. -/
theorem released_frame_eq_nil_iff (loop : QueueLoop) :
    released (loop.frame evp E T f) = [] ↔ (loop = .wanNoCrypto → ¬ MissesArp T f) := by
  cases loop with
  | wanNoCrypto =>
    refine ⟨fun h _ hmiss => ?_, fun h => released_wanFrameNoCrypto (h rfl)⟩
    rw [QueueLoop.frame, released_wanFrameNoCrypto_of_misses hmiss] at h
    cases h
  | wanL2 => exact iff_of_true released_wanFrameL2 nofun
  | wanL3L4 => exact iff_of_true released_wanFrameL3L4 nofun
  | localNoCrypto => exact iff_of_true released_localFrameNoCrypto nofun
  | localL2 => exact iff_of_true released_localFrameL2 nofun

theorem released_flatMap (frame : RxFrame → List QueueEvent) (fs : List RxFrame) :
    released (fs.flatMap frame) = fs.flatMap fun f => released (frame f) := by
  induction fs with
  | nil => rfl
  | cons f fs ih => rw [List.flatMap_cons, released_append, ih, List.flatMap_cons]

theorem released_releases (fs : List RxFrame) :
    released (fs.map fun f => .release f.addr) = fs.map RxFrame.addr := by
  induction fs with
  | nil => rfl
  | cons f fs ih => exact congrArg (f.addr :: ·) ih

theorem released_batch (loop : QueueLoop) (fs : List RxFrame) :
    released (loop.batch evp E T fs) =
      (fs.flatMap fun f => released (loop.frame evp E T f)) ++ fs.map RxFrame.addr := by
  unfold QueueLoop.batch
  rw [released_append, released_append, released_flush, released_releases, released_flatMap,
    List.append_nil]

end

/-- **Every frame of a batch is given back exactly once** unless the thread is that of a WAN queue
without encryption and some frame misses its neighbour. -/
theorem released_iff (evp : Evp) (E : Encryptors) (T : QueueThread) (loop : QueueLoop)
    (fs : List RxFrame) :
    (released (loop.batch evp E T fs)).Perm (fs.map RxFrame.addr) ↔
      (loop = .wanNoCrypto → ∀ f ∈ fs, ¬ MissesArp T f) := by
  have hnone : (∀ f ∈ fs, released (loop.frame evp E T f) = []) ↔
      (loop = .wanNoCrypto → ∀ f ∈ fs, ¬ MissesArp T f) := by
    simp only [released_frame_eq_nil_iff]
    exact ⟨fun h hloop f hf => h f hf hloop, fun h f hf hloop => h hloop f hf⟩
  rw [← hnone, released_batch]
  constructor
  · intro hperm
    have hlen := hperm.length_eq
    rw [List.length_append] at hlen
    exact List.flatMap_eq_nil_iff.mp (List.length_eq_zero_iff.mp (by omega))
  · intro hall
    rw [List.flatMap_eq_nil_iff.mpr hall, List.nil_append]

/-! ## A receiver without a link address -/

/-- A frame to 10.0.0.2, which the only LAN interface has not seen yet. -/
def unknownReceiver : RxFrame where
  addr := 4096
  pkt := ackFrame
  pktLen := 54
  fwd := { sampleForwarder Key.zero with
    cfg := { sampleL3Config Key.zero with wans := [{ sampleWan with dstIp := 0x0100000a }] } }
  baseCtx := sampleCtx Key.zero
  prev := PolicyRuntime.start
  stage _ := StageInput.empty
  wanIdx := 0
  localArp _ _ := none
  localIfMac _ := Mac.zero
  sent := true
  sent₂ := true

def oneLocalThread : QueueThread where
  ifaceIdx := 0
  txQueueBase := 0
  wanWorkerIndex := 0
  localCount := 1
  wanCount := 1
  localQueueCount _ := 1
  wanQueueCount _ := 1

/-- **Its frame is given back twice.** -/
theorem not_released_unknownReceiver :
    ¬ (released (QueueLoop.wanNoCrypto.batch (sampleEvp []) .failing oneLocalThread
      [unknownReceiver])).Perm [unknownReceiver.addr] := by
  have hmiss : MissesArp oneLocalThread unknownReceiver := ⟨0, by decide, .inr ⟨by decide, rfl⟩⟩
  rw [released_batch, List.flatMap_singleton, QueueLoop.frame,
    released_wanFrameNoCrypto_of_misses hmiss]
  intro hperm
  exact absurd hperm.length_eq (by decide)

end NetEncryptor

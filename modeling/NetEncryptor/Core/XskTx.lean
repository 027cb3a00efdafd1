import NetEncryptor.Core.XskRx
import NetEncryptor.Core.LanState

/-!
# The frames of a transmit queue

The two functions that send a packet copy it into the next frame of the upper half of the UMEM, write
the link addresses of the interface into it, and put a descriptor into the transmit ring.  Nothing
tells them that a frame may be used again: the completion ring is only emptied.  The kernel copies a
packet out of its frame when it takes the descriptor, and goes on, as does the receive path, between
any two accesses of the sender; the lock of the queue keeps the other senders out.

`leaving_eq_accepted_iff` is what the ring size has to be for every packet that is accepted to leave
as it was accepted, in the same order.
-/

namespace NetEncryptor

open SharedRing

/-- What the kernel or the receive path of the queue does. -/
inductive TxEvent
  /-- The kernel takes descriptors and sends what they point at. -/
  | transmit (k : UInt32)
  /-- The kernel gives one of the frames that it has sent back. -/
  | complete (i : ℕ)
  /-- A packet is received into a frame of the fill ring. -/
  | deliver (frame headroom : ℕ) (data : List UInt8)

/-- What a sender uses of `struct xsk_queue`, and what the kernel has of it. -/
structure TxQueue where
  tx : XskRing XdpDesc
  comp : XskRing UInt64
  bufs : Buffer UInt8
  txSlot : UInt64
  pendingTxCount : ℕ
  txWaitLoops : UInt64
  /-- The frames that the kernel has sent and not given back. -/
  inKernel : List UInt64
  /-- What has left. -/
  wire : List (List UInt8)
  /-- How many descriptors have been submitted. -/
  submitted : ℕ
  /-- How many had been when the kernel was last woken. -/
  woken : ℕ
  /-- What happens before each of the next accesses. -/
  upcoming : List (List TxEvent)

namespace TxQueue

variable (iface : XskInterface) (q : TxQueue)

/-- The bytes that a descriptor points at. -/
def packet (desc : XdpDesc) : List UInt8 := q.bufs.slice desc.addr.toNat desc.len.toNat

def kernelTransmit (k : UInt32) : TxQueue :=
  if k.toNat ≤ q.tx.count then
    let descs := (q.tx.toList iface.ringSize.toNat).take k.toNat
    { q with
      tx := q.tx.kernelRetire k
      inKernel := q.inKernel ++ descs.map XdpDesc.addr
      wire := q.wire ++ descs.map q.packet }
  else q

def kernelComplete (i : ℕ) : TxQueue :=
  match q.inKernel[i]? with
  | none => q
  | some addr =>
    if q.comp.count < iface.ringSize.toNat then
      { q with
        comp := q.comp.kernelPut iface.ringSize.toNat addr, inKernel := q.inKernel.eraseIdx i }
    else q

def receivedFrame (frame headroom : ℕ) (data : List UInt8) : TxQueue :=
  if frame < iface.ringSize.toNat ∧ headroom + data.length ≤ iface.frameSize.toNat then
    { q with bufs := q.bufs.write (frame * iface.frameSize.toNat + headroom) data }
  else q

def event (q : TxQueue) : TxEvent → TxQueue
  | .transmit k => q.kernelTransmit iface k
  | .complete i => q.kernelComplete iface i
  | .deliver frame headroom data => q.receivedFrame iface frame headroom data

def tick : TxQueue :=
  match q.upcoming with
  | [] => q
  | events :: upcoming => { events.foldl (event iface) q with upcoming := upcoming }

/-! ## The functions -/

/-- `sendto` on the socket, and what follows it. -/
def wake : TxQueue :=
  let q := q.tick iface
  { q with woken := q.submitted, pendingTxCount := 0 }

/-- Empty the completion ring. -/
def drainComp : TxQueue :=
  let q := q.tick iface
  let (completed, _, comp) := q.comp.xskRingConsPeek iface.ringSize
  { q with comp := if 0 < completed then comp.xskRingConsRelease completed else comp }

/-- `xsk_ring_prod__reserve` on the transmit ring. -/
def reserveTx : Option UInt32 × TxQueue :=
  let q := q.tick iface
  let (idx, tx) := q.tx.xskRingProdReserve 1
  (idx, { q with tx := tx })

/-- What to do when there is no entry. -/
def orElse (next : TxQueue → Option UInt32 × TxQueue) :
    Option UInt32 × TxQueue → Option UInt32 × TxQueue
  | (some idx, q) => (some idx, q)
  | (none, q) => next q

/-- The retries of `interface_send_batch_queue`. -/
def retryTx : ℕ → TxQueue → Option UInt32 × TxQueue
  | 0, q => (none, q)
  | retries + 1, q => orElse (fun q => retryTx retries (q.drainComp iface)) (q.reserveTx iface)

/-- The loop of `interface_send_to_local_batch_queue`, with the loops that it may still wait for. -/
def waitTx : ℕ → TxQueue → Option UInt32 × TxQueue
  | 0, q =>
    orElse (fun q => (none, { q with txWaitLoops := q.txWaitLoops + 1 }))
      ((q.drainComp iface).reserveTx iface)
  | loops + 1, q =>
    orElse (fun q => waitTx loops ({ q with txWaitLoops := q.txWaitLoops + 1 }.wake iface))
      ((q.drainComp iface).reserveTx iface)

/-- The link addresses that are not zero are written into the frame at `addr`. -/
def writeMacs (dstMac srcMac : Mac) (addr : ℕ) (bufs : Buffer UInt8) : Buffer UInt8 :=
  let bufs := if macIsZero dstMac then bufs else bufs.write addr dstMac.val
  if macIsZero srcMac then bufs else bufs.write (addr + 6) srcMac.val

/-- Copy the packet into its frame. -/
def copyTx (dstMac srcMac : Mac) (data : List UInt8) (addr : UInt64) : TxQueue :=
  let q := q.tick iface
  { q with
    txSlot := q.txSlot + 1
    bufs := writeMacs dstMac srcMac addr.toNat (q.bufs.write addr.toNat data) }

/-- Write the descriptor and submit it. -/
def submitTx (len : ℕ) (idx : UInt32) (addr : UInt64) : TxQueue :=
  let q := q.tick iface
  let desc := { q.tx.entry idx with addr := addr, len := UInt32.ofNat len }
  let q := ({ q with tx := q.tx.setEntry idx desc }).tick iface
  { q with
    tx := q.tx.xskRingProdSubmit 1
    submitted := q.submitted + 1
    pendingTxCount := q.pendingTxCount + 1 }

/-- The part that the two functions have in common, for a reserved entry.  `none` stands for a
division by zero. -/
def putTx (batch : ℕ) (dstMac srcMac : Mac) (data : List UInt8) (idx : UInt32) : Option TxQueue :=
  match iface.txAddr q.txSlot with
  | none => none
  | some addr =>
    let q := (q.copyTx iface dstMac srcMac data addr).submitTx iface data.length idx addr
    some (if batch ≤ q.pendingTxCount then q.wake iface else q)

/-- Send with the entry that has been found, if there is one: whether the function returns `0`. -/
def putFound (batch : ℕ) (dstMac srcMac : Mac) (data : List UInt8) :
    Option UInt32 × TxQueue → Option (Bool × TxQueue)
  | (some idx, q) => (q.putTx iface batch dstMac srcMac data idx).map (true, ·)
  | (none, q) => some (false, q)

/-- What `interface_send_batch_queue` does when the ring is full: up to eight more attempts. -/
def waitBatch : Option UInt32 × TxQueue :=
  let q := if 0 < q.pendingTxCount then q.wake iface else q
  (q.drainComp iface).retryTx iface 8

def interfaceSendBatchQueue (dstMac srcMac : Mac) (data : List UInt8) : Option (Bool × TxQueue) :=
  putFound iface 16 dstMac srcMac data
    (orElse (waitBatch iface) ((q.drainComp iface).reserveTx iface))

def interfaceSendToLocalBatchQueue (dstMac srcMac : Mac) (data : List UInt8) :
    Option (Bool × TxQueue) :=
  putFound iface 4 dstMac srcMac data (q.waitTx iface 10000)

/-- `interface_send_flush_queue` and `interface_send_to_local_flush_queue`. -/
def interfaceSendFlushQueue : TxQueue :=
  if 0 < q.pendingTxCount then q.wake iface else q

end TxQueue

/-! ## Senders -/

/-- A queue and the packets that it has accepted, as they are to leave. -/
structure TxSide where
  queue : TxQueue
  accepted : List (List UInt8)

/-- The packet with its link addresses. -/
def outgoing (dstMac srcMac : Mac) (data : List UInt8) : List UInt8 :=
  (TxQueue.writeMacs dstMac srcMac 0 (Buffer.write (fun _ => 0) 0 data)).slice 0 data.length

/-- A call, with what happens before each of its accesses.  A packet fits a frame. -/
inductive TxCall
  | sendBatch (dstMac srcMac : Mac) (data : List UInt8) (upcoming : List (List TxEvent))
  | sendToLocal (dstMac srcMac : Mac) (data : List UInt8) (upcoming : List (List TxEvent))
  | flush (upcoming : List (List TxEvent))
  | idle (events : List TxEvent)

def TxSide.sent (s : TxSide) (dstMac srcMac : Mac) (data : List UInt8) : Bool × TxQueue → TxSide
  | (true, q) => ⟨q, s.accepted ++ [outgoing dstMac srcMac data]⟩
  | (false, q) => ⟨q, s.accepted⟩

def txStep (iface : XskInterface) (s : TxSide) : TxCall → Option TxSide
  | .sendBatch dstMac srcMac data upcoming =>
    if data.length ≤ iface.frameSize.toNat then
      let q := { s.queue with upcoming := upcoming }
      (q.interfaceSendBatchQueue iface dstMac srcMac data).map (s.sent dstMac srcMac data)
    else none
  | .sendToLocal dstMac srcMac data upcoming =>
    if data.length ≤ iface.frameSize.toNat then
      let q := { s.queue with upcoming := upcoming }
      (q.interfaceSendToLocalBatchQueue iface dstMac srcMac data).map (s.sent dstMac srcMac data)
    else none
  | .flush upcoming =>
    some { s with queue := { s.queue with upcoming := upcoming }.interfaceSendFlushQueue iface }
  | .idle events => some { s with queue := events.foldl (TxQueue.event iface) s.queue }

def TxSide.start (iface : XskInterface) (txSlots : Buffer XdpDesc) (compSlots : Buffer UInt64)
    (bufs : Buffer UInt8) : TxSide where
  queue :=
    { tx := ⟨⟨0, 0, txSlots⟩, 0, iface.ringSize, iface.ringSize - 1, iface.ringSize⟩
      comp := ⟨⟨0, 0, compSlots⟩, 0, 0, iface.ringSize - 1, iface.ringSize⟩
      bufs := bufs
      txSlot := 0
      pendingTxCount := 0
      txWaitLoops := 0
      inKernel := []
      wire := []
      submitted := 0
      woken := 0
      upcoming := [] }
  accepted := []

/-! ## Frames -/

namespace XskInterface

/-- Where the `j`-th packet goes. -/
def txFrame (iface : XskInterface) (j : ℕ) : ℕ :=
  (j % iface.half + iface.half) * iface.frameSize.toNat

/-- The rings are as the kernel asks for, there are frames to send from, and a frame holds the link
addresses. -/
structure Sendable (iface : XskInterface) : Prop where
  pow : ∃ k ≤ 30, iface.ringSize.toNat = 2 ^ k
  half_pos : 0 < iface.half
  macs_fit : 12 ≤ iface.frameSize.toNat

variable {iface : XskInterface}

theorem Sendable.txAddr (h : iface.Sendable) {j : ℕ} (hj : j < 2 ^ 64) :
    ∃ addr, iface.txAddr (UInt64.ofNat j) = some addr ∧ addr.toNat = iface.txFrame j := by
  obtain ⟨addr, hsome, haddr⟩ := txAddr_eq_some h.half_pos (UInt64.ofNat j)
  rw [UInt64.toNat_ofNat_of_lt' hj] at haddr
  exact ⟨addr, hsome, haddr⟩

theorem le_txFrame (hfits : iface.ringSize.toNat ≤ iface.half) (j : ℕ) :
    iface.ringSize.toNat * iface.frameSize.toNat ≤ iface.txFrame j :=
  Nat.mul_le_mul_right _ (hfits.trans (Nat.le_add_left ..))

/-- Two packets less than a round apart have frames of their own. -/
theorem txFrame_apart {a i j : ℕ} (hij : i < j) (hj : j < i + iface.half) :
    iface.txFrame (a + i) + iface.frameSize.toNat ≤ iface.txFrame (a + j) ∨
      iface.txFrame (a + j) + iface.frameSize.toNat ≤ iface.txFrame (a + i) := by
  have hne : (a + i) % iface.half ≠ (a + j) % iface.half := mod_ne_of_lt hij hj
  have hstep : ∀ {r r' : ℕ}, r < r' → (r + iface.half) * iface.frameSize.toNat +
      iface.frameSize.toNat ≤ (r' + iface.half) * iface.frameSize.toNat := by
    intro r r' hlt
    rw [← Nat.succ_mul]
    exact Nat.mul_le_mul_right _ (by omega)
  unfold txFrame
  rcases lt_or_gt_of_ne hne with hlt | hgt
  · exact .inl (hstep hlt)
  · exact .inr (hstep hgt)

variable (iface) in
/-- The `j`-th packet is in its frame, and its descriptor says so. -/
structure Ready (bufs : Buffer UInt8) (j : ℕ) (p : XdpDesc × List UInt8) : Prop where
  addr : p.1.addr.toNat = iface.txFrame j
  len : p.1.len.toNat = p.2.length
  fits : p.2.length ≤ iface.frameSize.toNat
  bytes : bufs.slice (iface.txFrame j) p.2.length = p.2

theorem Ready.congr {bufs bufs' : Buffer UInt8} {j : ℕ} {p : XdpDesc × List UInt8}
    (h : iface.Ready bufs j p) (hsame : ∀ k, iface.txFrame j ≤ k →
      k < iface.txFrame j + iface.frameSize.toNat → bufs' k = bufs k) : iface.Ready bufs' j p := by
  refine ⟨h.addr, h.len, h.fits, (Buffer.slice_congr fun k hlow hhigh => ?_).trans h.bytes⟩
  have := h.fits
  exact hsame k hlow (by omega)

end XskInterface

namespace TxQueue

/-! ## Link addresses -/

section

variable {dstMac srcMac : Mac} {bufs : Buffer UInt8} {addr : ℕ} {data : List UInt8}

theorem write_at (bufs : Buffer UInt8) (addr k : ℕ) (l : List UInt8) :
    (bufs.write addr l) (addr + k) = (l[k]?).getD (bufs (addr + k)) := by
  unfold Buffer.write
  rw [if_pos (Nat.le_add_right ..), Nat.add_sub_cancel_left]

theorem slice_writeMacs :
    (writeMacs dstMac srcMac addr (bufs.write addr data)).slice addr data.length =
      outgoing dstMac srcMac data := by
  unfold outgoing
  refine Buffer.slice_eq_slice_iff.mpr fun k hk => ?_
  have hdata : (bufs.write addr data) (addr + k) =
      (Buffer.write (fun _ => 0) 0 data : Buffer UInt8) (0 + k) := by
    rw [Buffer.write_add hk, Buffer.write_add hk]
  have hdst : ∀ b b' : Buffer UInt8, b (addr + k) = b' (0 + k) →
      (if macIsZero dstMac then b else b.write addr dstMac.val) (addr + k) =
        (if macIsZero dstMac then b' else b'.write 0 dstMac.val) (0 + k) := by
    intro b b' h
    split_ifs
    · exact h
    · rw [write_at, write_at, h]
  have hsrc : ∀ b b' : Buffer UInt8, b (addr + k) = b' (0 + k) →
      (if macIsZero srcMac then b else b.write (addr + 6) srcMac.val) (addr + k) =
        (if macIsZero srcMac then b' else b'.write (0 + 6) srcMac.val) (0 + k) := by
    intro b b' h
    split_ifs
    · exact h
    · rcases lt_or_ge k 6 with hlt | hge
      · rw [Buffer.write_of_lt (by omega), Buffer.write_of_lt (by omega), h]
      · obtain ⟨m, rfl⟩ := Nat.exists_eq_add_of_le hge
        rw [← Nat.add_assoc] at h ⊢
        rw [← Nat.add_assoc] at h ⊢
        rw [write_at, write_at, h]
  exact hsrc _ _ (hdst _ _ hdata)

theorem writeMacs_of_outside {size j : ℕ} (hsize : 12 ≤ size) (hlen : data.length ≤ size)
    (hj : j < addr ∨ addr + size ≤ j) :
    writeMacs dstMac srcMac addr (bufs.write addr data) j = bufs j := by
  have hwrite : ∀ (b : Buffer UInt8) (d : ℕ) (l : List UInt8), addr ≤ d →
      d + l.length ≤ addr + size → b.write d l j = b j := by
    intro b d l hlow hhigh
    rcases hj with hbelow | habove
    · exact Buffer.write_of_lt (by omega)
    · exact Buffer.write_of_ge (by omega)
  have hdst := dstMac.2
  have hsrc := srcMac.2
  unfold writeMacs
  split_ifs
  · exact hwrite _ _ _ le_rfl (by omega)
  · rw [hwrite _ _ dstMac.val le_rfl (by omega), hwrite _ _ _ le_rfl (by omega)]
  · rw [hwrite _ _ srcMac.val (by omega) (by omega), hwrite _ _ _ le_rfl (by omega)]
  · rw [hwrite _ _ srcMac.val (by omega) (by omega), hwrite _ _ dstMac.val le_rfl (by omega),
      hwrite _ _ _ le_rfl (by omega)]

end

/-! ## The invariant -/

variable (iface : XskInterface)

/-- What is in the transmit ring is what has been accepted and has not left, each packet in its frame;
what has been submitted since the kernel was last woken is counted. -/
structure Inv (accepted : List (List UInt8)) (q : TxQueue) : Prop where
  tx : q.tx.ProdOk iface.ringSize.toNat
  comp : q.comp.ConsOk iface.ringSize.toNat
  queued : ∃ queued : List (XdpDesc × List UInt8),
    queued.map Prod.fst = q.tx.toList iface.ringSize.toNat ∧
      accepted = q.wire ++ queued.map Prod.snd ∧
      ∀ i p, queued[i]? = some p → iface.Ready q.bufs (q.wire.length + i) p
  submitted : q.submitted = accepted.length
  woken : q.woken + q.pendingTxCount = q.submitted

/-- What the sender finds after others have gone on. -/
structure Later (q q' : TxQueue) : Prop where
  txProducer : q'.tx.producer = q.tx.producer
  txCached : q'.tx.cachedProd = q.tx.cachedProd
  txSlots : q'.tx.slots = q.tx.slots
  compConsumer : q'.comp.consumer = q.comp.consumer
  compCached : q'.comp.cachedCons = q.comp.cachedCons
  bufs : ∀ j ≥ iface.ringSize.toNat * iface.frameSize.toNat, q'.bufs j = q.bufs j
  txSlot : q'.txSlot = q.txSlot
  pending : q'.pendingTxCount = q.pendingTxCount

variable {iface} {accepted : List (List UInt8)} {q q' q'' : TxQueue}

theorem Later.refl (q : TxQueue) : Later iface q q :=
  ⟨rfl, rfl, rfl, rfl, rfl, fun _ _ => rfl, rfl, rfl⟩

theorem Later.trans (h : Later iface q q') (h' : Later iface q' q'') : Later iface q q'' where
  txProducer := h'.txProducer.trans h.txProducer
  txCached := h'.txCached.trans h.txCached
  txSlots := h'.txSlots.trans h.txSlots
  compConsumer := h'.compConsumer.trans h.compConsumer
  compCached := h'.compCached.trans h.compCached
  bufs j hj := (h'.bufs j hj).trans (h.bufs j hj)
  txSlot := h'.txSlot.trans h.txSlot
  pending := h'.pending.trans h.pending

/-! ## What others do -/

theorem Inv.kernelTransmit (h : Inv iface accepted q) (k : UInt32) :
    Inv iface accepted (q.kernelTransmit iface k) ∧ Later iface q (q.kernelTransmit iface k) := by
  unfold TxQueue.kernelTransmit
  split_ifs with hk
  swap
  · exact ⟨h, .refl q⟩
  obtain ⟨queued, hqueued, hlog, hready⟩ := h.queued
  have htx : (q.tx.kernelRetire k).toList iface.ringSize.toNat =
      (q.tx.toList iface.ringSize.toNat).drop k.toNat := toList_retire h.tx.dvd hk
  have hread : ((q.tx.toList iface.ringSize.toNat).take k.toNat).map q.packet =
      (queued.take k.toNat).map Prod.snd := by
    rw [← hqueued, ← List.map_take, List.map_map]
    refine List.map_congr_left fun p hp => ?_
    obtain ⟨i, hi⟩ := List.mem_iff_getElem?.mp (List.mem_of_mem_take hp)
    have hp := hready i p hi
    show q.bufs.slice p.1.addr.toNat p.1.len.toNat = p.2
    rw [hp.addr, hp.len, hp.bytes]
  have hlen : ((queued.take k.toNat).map Prod.snd).length = k.toNat := by
    have := congrArg List.length hqueued
    rw [List.length_map, length_toList] at this
    rw [List.length_map, List.length_take]
    omega
  refine ⟨⟨h.tx.kernelRetire hk, h.comp, ⟨queued.drop k.toNat, ?_, ?_, ?_⟩, h.submitted, h.woken⟩,
    ⟨rfl, rfl, rfl, rfl, rfl, fun _ _ => rfl, rfl, rfl⟩⟩
  · rw [List.map_drop, hqueued]
    exact htx.symm
  · simp only [hread]
    rw [List.append_assoc, ← List.map_append, List.take_append_drop]
    exact hlog
  · intro i p hi
    rw [List.getElem?_drop] at hi
    have := hready _ p hi
    simp only [hread]
    rwa [List.length_append, hlen, Nat.add_assoc]

theorem Inv.kernelComplete (h : Inv iface accepted q) (i : ℕ) :
    Inv iface accepted (q.kernelComplete iface i) ∧ Later iface q (q.kernelComplete iface i) := by
  unfold TxQueue.kernelComplete
  split
  · exact ⟨h, .refl q⟩
  split_ifs with hroom
  · exact ⟨⟨h.tx, h.comp.kernelPut hroom _, h.queued, h.submitted, h.woken⟩,
      ⟨rfl, rfl, rfl, rfl, rfl, fun _ _ => rfl, rfl, rfl⟩⟩
  · exact ⟨h, .refl q⟩

theorem Inv.receivedFrame (hfits : iface.ringSize.toNat ≤ iface.half) (h : Inv iface accepted q)
    (frame headroom : ℕ) (data : List UInt8) :
    Inv iface accepted (q.receivedFrame iface frame headroom data) ∧
      Later iface q (q.receivedFrame iface frame headroom data) := by
  unfold TxQueue.receivedFrame
  split_ifs with hin
  swap
  · exact ⟨h, .refl q⟩
  obtain ⟨hframe, hlen⟩ := hin
  have hend : frame * iface.frameSize.toNat + headroom + data.length ≤
      iface.ringSize.toNat * iface.frameSize.toNat :=
    calc frame * iface.frameSize.toNat + headroom + data.length
        ≤ (frame + 1) * iface.frameSize.toNat := by rw [Nat.succ_mul]; omega
      _ ≤ iface.ringSize.toNat * iface.frameSize.toNat := Nat.mul_le_mul_right _ hframe
  have habove : ∀ j ≥ iface.ringSize.toNat * iface.frameSize.toNat,
      q.bufs.write (frame * iface.frameSize.toNat + headroom) data j = q.bufs j :=
    fun j hj => Buffer.write_of_ge (by omega)
  obtain ⟨queued, hqueued, hlog, hready⟩ := h.queued
  refine ⟨⟨h.tx, h.comp, ⟨queued, hqueued, hlog, fun i p hi => ?_⟩, h.submitted, h.woken⟩,
    ⟨rfl, rfl, rfl, rfl, rfl, habove, rfl, rfl⟩⟩
  exact (hready i p hi).congr fun j hlow _ => habove j ((XskInterface.le_txFrame hfits _).trans hlow)

theorem Inv.event (hfits : iface.ringSize.toNat ≤ iface.half) (h : Inv iface accepted q)
    (e : TxEvent) : Inv iface accepted (q.event iface e) ∧ Later iface q (q.event iface e) := by
  cases e with
  | transmit k => exact h.kernelTransmit k
  | complete i => exact h.kernelComplete i
  | deliver frame headroom data => exact h.receivedFrame hfits frame headroom data

theorem Inv.events (hfits : iface.ringSize.toNat ≤ iface.half) : ∀ {es : List TxEvent} {q : TxQueue},
    Inv iface accepted q → Inv iface accepted (es.foldl (TxQueue.event iface) q) ∧
      Later iface q (es.foldl (TxQueue.event iface) q) := by
  intro es
  induction es with
  | nil => exact fun h => ⟨h, .refl _⟩
  | cons e es ih =>
    intro q h
    obtain ⟨he, hlater⟩ := h.event hfits e
    obtain ⟨hes, hrest⟩ := ih he
    exact ⟨hes, hlater.trans hrest⟩

theorem Inv.tick (hfits : iface.ringSize.toNat ≤ iface.half) (h : Inv iface accepted q) :
    Inv iface accepted (q.tick iface) ∧ Later iface q (q.tick iface) := by
  unfold TxQueue.tick
  split
  · exact ⟨h, .refl q⟩
  · rename_i es rest _
    obtain ⟨⟨htx, hcomp, hqueued, hsubmitted, hwoken⟩, hlater⟩ := @Inv.events _ _ hfits es _ h
    exact ⟨⟨htx, hcomp, hqueued, hsubmitted, hwoken⟩, ⟨hlater.txProducer, hlater.txCached,
      hlater.txSlots, hlater.compConsumer, hlater.compCached, hlater.bufs, hlater.txSlot,
      hlater.pending⟩⟩

/-! ## Waiting for an entry -/

/-- The sender has `reserved` entries of the transmit ring and none of the completion ring. -/
structure Between (accepted : List (List UInt8)) (reserved : UInt32) (q : TxQueue) : Prop where
  tx : q.tx.cachedProd = q.tx.producer + reserved
  comp : q.comp.cachedCons = q.comp.consumer
  txSlot : q.txSlot = UInt64.ofNat accepted.length

theorem Later.between {reserved : UInt32} (h : Later iface q q') (hq : q.Between accepted reserved) :
    q'.Between accepted reserved :=
  ⟨h.txCached.trans (hq.tx.trans (congrArg (· + reserved) h.txProducer.symm)),
    h.compCached.trans (hq.comp.trans h.compConsumer.symm), h.txSlot.trans hq.txSlot⟩

/-- Between two calls. -/
structure Steady (iface : XskInterface) (accepted : List (List UInt8)) (q : TxQueue) : Prop where
  inv : Inv iface accepted q
  between : q.Between accepted 0
  pending : q.pendingTxCount < 16

theorem Inv.wake (hfits : iface.ringSize.toNat ≤ iface.half) (h : Inv iface accepted q)
    (hq : q.Between accepted 0) : Steady iface accepted (q.wake iface) := by
  obtain ⟨⟨htx, hcomp, hqueued, hsubmitted, -⟩, hlater⟩ := h.tick hfits
  obtain ⟨htx', hcomp', hslot⟩ := hlater.between hq
  exact ⟨⟨htx, hcomp, hqueued, hsubmitted, rfl⟩, ⟨htx', hcomp', hslot⟩, Nat.succ_pos 15⟩

theorem Steady.drainComp (hfits : iface.ringSize.toNat ≤ iface.half) (h : Steady iface accepted q) :
    Steady iface accepted (q.drainComp iface) := by
  obtain ⟨htick, hlater⟩ := h.inv.tick hfits
  have hbetween := hlater.between h.between
  have hpending := hlater.pending.trans_lt h.pending
  obtain ⟨-, hcached, -, hle, -⟩ := @XskRing.ConsOk.peek_eq _ _ _ iface.ringSize htick.comp
  have hok := @XskRing.ConsOk.peek _ _ _ iface.ringSize htick.comp
  have hring := @XskRing.peek_toSharedRing _ (q.tick iface).comp iface.ringSize
  unfold TxQueue.drainComp
  rcases hr : (q.tick iface).comp.xskRingConsPeek iface.ringSize with ⟨completed, idx, comp⟩
  simp only [hr] at hcached hle hok hring ⊢
  have hshown : comp.cachedCons = comp.consumer + completed := by
    rw [hring, hcached, hbetween.comp]
  have hgap : completed.toNat ≤ gap comp.cachedCons comp.consumer := by
    rw [hshown, gap_add_left, gap_self, Nat.zero_add]
    rw [gap_self, Nat.zero_add]
    exact completed.toNat_lt
  obtain ⟨htx, -, hqueued, hsubmitted, hwoken⟩ := htick
  split_ifs with hpos
  · exact ⟨⟨htx, hok.release hgap, hqueued, hsubmitted, hwoken⟩,
      ⟨hbetween.tx, hshown, hbetween.txSlot⟩, hpending⟩
  · have hzero : completed = 0 := by
      rw [UInt32.lt_iff_toNat_lt] at hpos
      exact UInt32.toNat_inj.mp (Nat.eq_zero_of_not_pos hpos)
    rw [hzero, UInt32.add_zero] at hshown
    exact ⟨⟨htx, hok, hqueued, hsubmitted, hwoken⟩, ⟨hbetween.tx, hshown, hbetween.txSlot⟩,
      hpending⟩

/-- What a function that looks for an entry comes back with. -/
inductive Found (iface : XskInterface) (accepted : List (List UInt8)) : Option UInt32 × TxQueue → Prop
  | entry {q : TxQueue} (inv : Inv iface accepted q) (between : q.Between accepted 1)
    (pending : q.pendingTxCount < 16) : Found iface accepted (some q.tx.producer, q)
  | nothing {q : TxQueue} (steady : Steady iface accepted q) : Found iface accepted (none, q)

theorem Steady.reserveTx (hfits : iface.ringSize.toNat ≤ iface.half) (h : Steady iface accepted q) :
    Found iface accepted (q.reserveTx iface) := by
  obtain ⟨htick, hlater⟩ := h.inv.tick hfits
  have hbetween := hlater.between h.between
  have hpending := hlater.pending.trans_lt h.pending
  have heq := @XskRing.ProdOk.reserve_eq _ _ _ 1 htick.tx
  have hcached := @XskRing.ProdOk.reserve_cachedProd _ _ _ 1 htick.tx
  have hok := @XskRing.ProdOk.reserve _ _ _ 1 htick.tx
  have hring := @XskRing.reserve_toSharedRing _ (q.tick iface).tx 1
  have hprod : (q.tick iface).tx.cachedProd = (q.tick iface).tx.producer :=
    hbetween.tx.trans (UInt32.add_zero _)
  unfold TxQueue.reserveTx
  rcases hr : (q.tick iface).tx.xskRingProdReserve 1 with ⟨idx, tx⟩
  simp only [hr, hprod] at heq hcached hok hring ⊢
  obtain ⟨-, hcomp, hqueued, hsubmitted, hwoken⟩ := htick
  have hinv : Inv iface accepted { q.tick iface with tx := tx } := by
    obtain ⟨queued, hqueued, hlog, hready⟩ := hqueued
    exact ⟨hok, hcomp, ⟨queued, hqueued.trans (congrArg (SharedRing.toList · _) hring.symm), hlog,
      hready⟩, hsubmitted, hwoken⟩
  split_ifs at heq hcached with hroom
  · have hidx : idx = some tx.producer := by rw [heq, hring]
    rw [hidx]
    exact .entry hinv ⟨by rw [hring]; exact hcached, hbetween.comp, hbetween.txSlot⟩ hpending
  · rw [heq]
    exact .nothing ⟨hinv, ⟨by rw [hring]; exact hcached.trans (UInt32.add_zero _).symm,
      hbetween.comp, hbetween.txSlot⟩, hpending⟩

theorem Found.orElse {found : Option UInt32 × TxQueue} {next : TxQueue → Option UInt32 × TxQueue}
    (h : Found iface accepted found)
    (hnext : ∀ q, Steady iface accepted q → Found iface accepted (next q)) :
    Found iface accepted (TxQueue.orElse next found) := by
  cases h with
  | entry hinv hbetween hpending => exact .entry hinv hbetween hpending
  | nothing hsteady => exact hnext _ hsteady

theorem Steady.retryTx (hfits : iface.ringSize.toNat ≤ iface.half) : ∀ {retries : ℕ} {q : TxQueue},
    Steady iface accepted q → Found iface accepted (q.retryTx iface retries) := by
  intro retries
  induction retries with
  | zero => exact .nothing
  | succ retries ih =>
    intro q h
    rw [TxQueue.retryTx]
    exact (h.reserveTx hfits).orElse fun _ hnone => ih (hnone.drainComp hfits)

theorem Steady.waited (h : Steady iface accepted q) :
    Steady iface accepted { q with txWaitLoops := q.txWaitLoops + 1 } :=
  ⟨⟨h.inv.tx, h.inv.comp, h.inv.queued, h.inv.submitted, h.inv.woken⟩,
    ⟨h.between.tx, h.between.comp, h.between.txSlot⟩, h.pending⟩

theorem Steady.wake (hfits : iface.ringSize.toNat ≤ iface.half) (h : Steady iface accepted q) :
    Steady iface accepted (q.wake iface) := h.inv.wake hfits h.between

theorem Steady.waitTx (hfits : iface.ringSize.toNat ≤ iface.half) : ∀ {loops : ℕ} {q : TxQueue},
    Steady iface accepted q → Found iface accepted (q.waitTx iface loops) := by
  intro loops
  induction loops with
  | zero =>
    intro q h
    rw [TxQueue.waitTx]
    exact ((h.drainComp hfits).reserveTx hfits).orElse fun _ hnone => .nothing hnone.waited
  | succ loops ih =>
    intro q h
    rw [TxQueue.waitTx]
    exact ((h.drainComp hfits).reserveTx hfits).orElse fun _ hnone => ih (hnone.waited.wake hfits)

/-! ## Submitting -/

theorem Inv.withTx (h : Inv iface accepted q) {tx : XskRing XdpDesc}
    (hok : tx.ProdOk iface.ringSize.toNat)
    (hlist : tx.toList iface.ringSize.toNat = q.tx.toList iface.ringSize.toNat) :
    Inv iface accepted { q with tx := tx } := by
  obtain ⟨queued, hqueued, hlog, hready⟩ := h.queued
  exact ⟨hok, h.comp, ⟨queued, hqueued.trans hlist.symm, hlog, hready⟩, h.submitted, h.woken⟩

theorem Inv.count_lt (h : Inv iface accepted q) (htx : q.tx.cachedProd = q.tx.producer + 1) :
    q.tx.count < iface.ringSize.toNat ∧ gap q.tx.cachedProd q.tx.producer = 1 := by
  have hone : (1 : UInt32).toNat = 1 := rfl
  have hgap : gap q.tx.cachedProd q.tx.producer = 1 := by
    rw [htx, gap_add_left, gap_self, hone]
    rw [gap_self, hone]
    omega
  have hwriter := h.tx.writer
  unfold WriterOk at hwriter
  exact ⟨by omega, hgap⟩

/-- **The next frame** is none of those whose packets have not left. -/
theorem Inv.withBufs (hfits : iface.ringSize.toNat ≤ iface.half) (h : Inv iface accepted q)
    (hq : q.Between accepted 1) {bufs : Buffer UInt8}
    (hbufs : ∀ j, j < iface.txFrame accepted.length ∨
      iface.txFrame accepted.length + iface.frameSize.toNat ≤ j → bufs j = q.bufs j)
    (txSlot : UInt64) : Inv iface accepted { q with txSlot := txSlot, bufs := bufs } := by
  obtain ⟨queued, hqueued, hlog, hready⟩ := h.queued
  refine ⟨h.tx, h.comp, ⟨queued, hqueued, hlog, fun i p hi => ?_⟩, h.submitted, h.woken⟩
  obtain ⟨hlt, -⟩ := List.getElem?_eq_some_iff.mp hi
  have hcount : queued.length = q.tx.count := by
    rw [← List.length_map, hqueued, length_toList]
  have hnext : accepted.length = q.wire.length + queued.length := by
    rw [hlog, List.length_append, List.length_map]
  have hroom := (h.count_lt hq.tx).1
  have hapart := @XskInterface.txFrame_apart iface q.wire.length _ _ hlt
    (show queued.length < i + iface.half by omega)
  rw [← hnext] at hapart
  exact (hready i p hi).congr fun j hlow hhigh => hbufs j (by omega)

/-- The packet `out` is in the next frame, and an entry is reserved for it. -/
structure Copied (iface : XskInterface) (accepted : List (List UInt8)) (out : List UInt8)
    (q : TxQueue) : Prop where
  inv : Inv iface accepted q
  tx : q.tx.cachedProd = q.tx.producer + 1
  comp : q.comp.cachedCons = q.comp.consumer
  txSlot : q.txSlot = UInt64.ofNat (accepted.length + 1)
  fits : out.length ≤ iface.frameSize.toNat
  bytes : q.bufs.slice (iface.txFrame accepted.length) out.length = out

variable {out : List UInt8}

theorem Inv.copyTx (hs : iface.Sendable) (hfits : iface.ringSize.toNat ≤ iface.half)
    (h : Inv iface accepted q) (hq : q.Between accepted 1) (dstMac srcMac : Mac)
    {data : List UInt8} (hdata : data.length ≤ iface.frameSize.toNat) {addr : UInt64}
    (haddr : addr.toNat = iface.txFrame accepted.length) :
    Copied iface accepted (outgoing dstMac srcMac data) (q.copyTx iface dstMac srcMac data addr) ∧
      (q.copyTx iface dstMac srcMac data addr).tx.producer = q.tx.producer ∧
      (q.copyTx iface dstMac srcMac data addr).pendingTxCount = q.pendingTxCount := by
  obtain ⟨htick, hlater⟩ := h.tick hfits
  have hbetween := hlater.between hq
  have hlen : (outgoing dstMac srcMac data).length = data.length := Buffer.length_slice ..
  unfold TxQueue.copyTx
  refine ⟨⟨htick.withBufs hfits hbetween (fun j hj => ?_) _, hbetween.tx, hbetween.comp, ?_,
    hlen.trans_le hdata, ?_⟩, hlater.txProducer, hlater.pending⟩
  · rw [haddr]
    exact writeMacs_of_outside hs.macs_fit hdata hj
  · show (q.tick iface).txSlot + 1 = _
    rw [hbetween.txSlot, UInt64.ofNat_add]
    rfl
  · show (writeMacs dstMac srcMac addr.toNat _).slice _ _ = _
    rw [haddr, hlen]
    exact slice_writeMacs

theorem Later.copied (hfits : iface.ringSize.toNat ≤ iface.half) (h : Later iface q q')
    (hq : Copied iface accepted out q) (hinv : Inv iface accepted q') :
    Copied iface accepted out q' where
  inv := hinv
  tx := h.txCached.trans (hq.tx.trans (congrArg (· + 1) h.txProducer.symm))
  comp := h.compCached.trans (hq.comp.trans h.compConsumer.symm)
  txSlot := h.txSlot.trans hq.txSlot
  fits := hq.fits
  bytes := by
    refine (Buffer.slice_congr fun j hlow _ => ?_).trans hq.bytes
    exact h.bufs j ((XskInterface.le_txFrame hfits _).trans hlow)

theorem Copied.withEntry (h : Copied iface accepted out q) (desc : XdpDesc) :
    Copied iface accepted out { q with tx := q.tx.setEntry q.tx.producer desc } where
  inv := by
    refine h.inv.withTx (h.inv.tx.setEntry _ _) ?_
    rw [h.inv.tx.setEntry_toSharedRing]
    exact toList_store h.inv.tx.dvd _ (by rw [gap_self]; exact (h.inv.count_lt h.tx).1)
  tx := h.tx
  comp := h.comp
  txSlot := h.txSlot
  fits := h.fits
  bytes := h.bytes

/-- **Submitting.** The packet joins the queue. -/
theorem Copied.submit (h : Copied iface accepted out q) {desc : XdpDesc}
    (hentry : q.tx.slots (q.tx.producer.toNat % iface.ringSize.toNat) = desc)
    (haddr : desc.addr.toNat = iface.txFrame accepted.length) (hlen : desc.len.toNat = out.length) :
    Inv iface (accepted ++ [out])
      { q with
        tx := q.tx.xskRingProdSubmit 1
        submitted := q.submitted + 1
        pendingTxCount := q.pendingTxCount + 1 } := by
  have hone : (1 : UInt32).toNat = 1 := rfl
  obtain ⟨hroom, hgap⟩ := h.inv.count_lt h.tx
  have hlist : (q.tx.xskRingProdSubmit 1).toList iface.ringSize.toNat =
      q.tx.toList iface.ringSize.toNat ++ [desc] := by
    have hlt := h.inv.tx.lt
    refine (toList_publish h.inv.tx.dvd (by omega)).trans ?_
    rw [hone, List.range_one, List.map_singleton, Nat.add_zero, hentry]
  obtain ⟨queued, hqueued, hlog, hready⟩ := h.inv.queued
  have hnext : accepted.length = q.wire.length + queued.length := by
    rw [hlog, List.length_append, List.length_map]
  refine ⟨h.inv.tx.submit (by rw [hone, hgap]), h.inv.comp, ⟨queued ++ [(desc, out)], ?_, ?_, ?_⟩,
    ?_, ?_⟩
  · rw [List.map_append, hqueued]
    exact hlist.symm
  · rw [List.map_append, ← List.append_assoc, ← hlog]
    rfl
  · intro i p hi
    rcases lt_or_ge i queued.length with hbefore | hbehind
    · rw [List.getElem?_append_left hbefore] at hi
      exact hready i p hi
    · have hlast : i = queued.length := by
        have := (List.getElem?_eq_some_iff.mp hi).1
        rw [List.length_append, List.length_singleton] at this
        omega
      subst hlast
      rw [List.getElem?_concat_length] at hi
      rw [← Option.some.inj hi, ← hnext]
      exact ⟨haddr, hlen, h.fits, h.bytes⟩
  · rw [List.length_append, List.length_singleton]
    exact congrArg (· + 1) h.inv.submitted
  · have := h.inv.woken
    show q.woken + (q.pendingTxCount + 1) = q.submitted + 1
    omega

theorem Copied.submitTx (hfits : iface.ringSize.toNat ≤ iface.half)
    (h : Copied iface accepted out q) {addr : UInt64}
    (haddr : addr.toNat = iface.txFrame accepted.length) :
    Inv iface (accepted ++ [out]) (q.submitTx iface out.length q.tx.producer addr) ∧
      (q.submitTx iface out.length q.tx.producer addr).Between (accepted ++ [out]) 0 ∧
      (q.submitTx iface out.length q.tx.producer addr).pendingTxCount = q.pendingTxCount + 1 := by
  obtain ⟨htick₁, hlater₁⟩ := h.inv.tick hfits
  have h₁ := hlater₁.copied hfits h htick₁
  have hproducer₁ : (q.tick iface).tx.producer = q.tx.producer := hlater₁.txProducer
  unfold TxQueue.submitTx
  simp only
  generalize hdesc : { (q.tick iface).tx.entry q.tx.producer with
    addr := addr, len := UInt32.ofNat out.length } = desc
  have hlen : desc.len.toNat = out.length := by
    have := iface.frameSize.toNat_lt
    have := h.fits
    rw [← hdesc]
    exact UInt32.toNat_ofNat_of_lt' (show out.length < 2 ^ 32 by omega)
  have haddr' : desc.addr.toNat = iface.txFrame accepted.length := by rwa [← hdesc]
  have hentry : ((q.tick iface).tx.setEntry q.tx.producer desc).slots
      (q.tx.producer.toNat % iface.ringSize.toNat) = desc := by
    show ((q.tick iface).tx.setEntry q.tx.producer desc).toSharedRing.slots _ = _
    rw [htick₁.tx.setEntry_toSharedRing]
    exact Buffer.set_self ..
  have h₂ := h₁.withEntry desc
  rw [hproducer₁] at h₂
  obtain ⟨htick₂, hlater₂⟩ := h₂.inv.tick hfits
  have h₃ := hlater₂.copied hfits h₂ htick₂
  generalize TxQueue.tick iface { q.tick iface with
    tx := (q.tick iface).tx.setEntry q.tx.producer desc } = q₃ at h₃ hlater₂
  have hproducer₃ : q₃.tx.producer = q.tx.producer := hlater₂.txProducer.trans hproducer₁
  refine ⟨h₃.submit ?_ haddr' hlen, ⟨?_, h₃.comp, ?_⟩, ?_⟩
  · rw [hlater₂.txSlots, hproducer₃]
    exact hentry
  · exact h₃.tx.trans (UInt32.add_zero _).symm
  · rw [List.length_append, List.length_singleton]
    exact h₃.txSlot
  · exact congrArg (· + 1) (hlater₂.pending.trans hlater₁.pending)

/-! ## Calls -/

section

variable (hs : iface.Sendable) (hfits : iface.ringSize.toNat ≤ iface.half) (dstMac srcMac : Mac)
  {data : List UInt8} (hdata : data.length ≤ iface.frameSize.toNat)
include hs hfits hdata

theorem Inv.putTx (h : Inv iface accepted q) (hq : q.Between accepted 1)
    (hpending : q.pendingTxCount < 16) (hlt : accepted.length < 2 ^ 64) {batch : ℕ}
    (hbatch : batch ≤ 16) :
    ∃ q', q.putTx iface batch dstMac srcMac data q.tx.producer = some q' ∧
      Steady iface (accepted ++ [outgoing dstMac srcMac data]) q' := by
  obtain ⟨addr, hsome, haddr⟩ := hs.txAddr hlt
  rw [← hq.txSlot] at hsome
  obtain ⟨hcopied, hproducer, hcopiedPending⟩ := h.copyTx hs hfits hq dstMac srcMac hdata haddr
  obtain ⟨hinv, hbetween, hsubmitted⟩ := hcopied.submitTx hfits haddr
  have hlen : (outgoing dstMac srcMac data).length = data.length := Buffer.length_slice ..
  rw [hlen, hproducer] at hinv hbetween hsubmitted
  unfold TxQueue.putTx
  simp only [hsome]
  refine ⟨_, rfl, ?_⟩
  split_ifs with hfull
  · exact hinv.wake hfits hbetween
  · exact ⟨hinv, hbetween, by omega⟩

theorem Found.putFound {found : Option UInt32 × TxQueue} (h : Found iface accepted found)
    (hlt : accepted.length < 2 ^ 64) {batch : ℕ} (hbatch : batch ≤ 16) :
    ∃ r, TxQueue.putFound iface batch dstMac srcMac data found = some r ∧
      Steady iface (if r.1 then accepted ++ [outgoing dstMac srcMac data] else accepted) r.2 := by
  cases h with
  | entry hinv hbetween hpending =>
    obtain ⟨q', hput, hsteady⟩ :=
      hinv.putTx hs hfits dstMac srcMac hdata hbetween hpending hlt hbatch
    exact ⟨(true, q'), congrArg (Option.map _) hput, hsteady⟩
  | nothing hsteady => exact ⟨(false, _), rfl, hsteady⟩

theorem Steady.sendBatch (h : Steady iface accepted q) (hlt : accepted.length < 2 ^ 64) :
    ∃ r, q.interfaceSendBatchQueue iface dstMac srcMac data = some r ∧
      Steady iface (if r.1 then accepted ++ [outgoing dstMac srcMac data] else accepted) r.2 := by
  have hfound : Found iface accepted
      (TxQueue.orElse (waitBatch iface) ((q.drainComp iface).reserveTx iface)) := by
    refine ((h.drainComp hfits).reserveTx hfits).orElse fun q₁ hnone => ?_
    have hwoken : Steady iface accepted (if 0 < q₁.pendingTxCount then q₁.wake iface else q₁) := by
      split_ifs
      · exact hnone.wake hfits
      · exact hnone
    exact (hwoken.drainComp hfits).retryTx hfits
  exact hfound.putFound hs hfits dstMac srcMac hdata hlt le_rfl

theorem Steady.sendToLocal (h : Steady iface accepted q) (hlt : accepted.length < 2 ^ 64) :
    ∃ r, q.interfaceSendToLocalBatchQueue iface dstMac srcMac data = some r ∧
      Steady iface (if r.1 then accepted ++ [outgoing dstMac srcMac data] else accepted) r.2 := by
  unfold TxQueue.interfaceSendToLocalBatchQueue
  exact (h.waitTx hfits).putFound hs hfits dstMac srcMac hdata hlt (by omega)

end

theorem Steady.flush (hfits : iface.ringSize.toNat ≤ iface.half) (h : Steady iface accepted q) :
    Steady iface accepted (q.interfaceSendFlushQueue iface) := by
  unfold TxQueue.interfaceSendFlushQueue
  split_ifs
  · exact h.wake hfits
  · exact h

theorem Steady.withUpcoming (h : Steady iface accepted q) (upcoming : List (List TxEvent)) :
    Steady iface accepted { q with upcoming := upcoming } :=
  ⟨⟨h.inv.tx, h.inv.comp, h.inv.queued, h.inv.submitted, h.inv.woken⟩,
    ⟨h.between.tx, h.between.comp, h.between.txSlot⟩, h.pending⟩

end TxQueue

/-! ## Runs -/

section

variable {iface : XskInterface} {txSlots : Buffer XdpDesc} {compSlots : Buffer UInt64}
  {bufs : Buffer UInt8} {s s' : TxSide}

/-- The invariant of a queue between two calls. -/
def TxSide.Inv (iface : XskInterface) (s : TxSide) : Prop := s.queue.Steady iface s.accepted

theorem TxSide.inv_start (hs : iface.Sendable) :
    (TxSide.start iface txSlots compSlots bufs).Inv iface := by
  obtain ⟨k, hk, hring⟩ := hs.pow
  have htx : (TxSide.start iface txSlots compSlots bufs).queue.tx.count = 0 := gap_self 0
  have hcomp : (TxSide.start iface txSlots compSlots bufs).queue.comp.count = 0 := gap_self 0
  have hpow : ∃ k ≤ 31, iface.ringSize.toNat = 2 ^ k := ⟨k, by omega, hring⟩
  refine ⟨⟨⟨⟨hpow, UInt32.ofNat_toNat.symm, rfl⟩, ?_⟩, ⟨⟨hpow, UInt32.ofNat_toNat.symm, rfl⟩, ?_, ?_⟩,
    ⟨[], ?_, rfl, ?_⟩, rfl, rfl⟩, ⟨rfl, rfl, rfl⟩, Nat.succ_pos 15⟩
  · unfold WriterOk
    rw [htx]
    simp [TxSide.start, gap]
  · unfold ReaderOk
    rw [hcomp]
    simp [TxSide.start]
  · rw [hcomp]
    exact Nat.zero_le _
  · exact (List.length_eq_zero_iff.mp ((length_toList ..).trans htx)).symm
  · intro i p hi
    cases hi

theorem TxSide.length_le_sent (dstMac srcMac : Mac) (data : List UInt8) (r : Bool × TxQueue) :
    s.accepted.length ≤ (s.sent dstMac srcMac data r).accepted.length := by
  rcases r with ⟨_ | _, q⟩
  · exact le_rfl
  · show _ ≤ (s.accepted ++ [_]).length
    rw [List.length_append]
    exact Nat.le_add_right ..

theorem length_le_txStep {call : TxCall} (hstep : txStep iface s call = some s') :
    s.accepted.length ≤ s'.accepted.length := by
  unfold txStep at hstep
  cases call with
  | sendBatch dstMac srcMac data upcoming =>
    simp only [Option.ite_none_right_eq_some, Option.map_eq_some_iff] at hstep
    obtain ⟨-, r, -, rfl⟩ := hstep
    exact TxSide.length_le_sent ..
  | sendToLocal dstMac srcMac data upcoming =>
    simp only [Option.ite_none_right_eq_some, Option.map_eq_some_iff] at hstep
    obtain ⟨-, r, -, rfl⟩ := hstep
    exact TxSide.length_le_sent ..
  | flush upcoming =>
    cases hstep
    exact le_rfl
  | idle events =>
    cases hstep
    exact le_rfl

theorem TxSide.sent_inv {dstMac srcMac : Mac} {data : List UInt8} {r : Bool × TxQueue}
    (h : r.2.Steady iface
      (if r.1 then s.accepted ++ [outgoing dstMac srcMac data] else s.accepted)) :
    (s.sent dstMac srcMac data r).Inv iface := by
  rcases r with ⟨_ | _, q⟩
  · exact h
  · exact h

theorem TxSide.inv_step (hs : iface.Sendable) (hfits : iface.ringSize.toNat ≤ iface.half)
    {call : TxCall} (h : s.Inv iface) (hlt : s.accepted.length < 2 ^ 64)
    (hstep : txStep iface s call = some s') : s'.Inv iface := by
  unfold txStep at hstep
  cases call with
  | sendBatch dstMac srcMac data upcoming =>
    simp only at hstep
    split_ifs at hstep with hdata
    obtain ⟨r, hsend, hsteady⟩ := TxQueue.Steady.sendBatch hs hfits dstMac srcMac hdata
      (h.withUpcoming upcoming) hlt
    rw [hsend] at hstep
    cases hstep
    exact sent_inv hsteady
  | sendToLocal dstMac srcMac data upcoming =>
    simp only at hstep
    split_ifs at hstep with hdata
    obtain ⟨r, hsend, hsteady⟩ := TxQueue.Steady.sendToLocal hs hfits dstMac srcMac hdata
      (h.withUpcoming upcoming) hlt
    rw [hsend] at hstep
    cases hstep
    exact sent_inv hsteady
  | flush upcoming =>
    cases hstep
    exact (h.withUpcoming upcoming).flush hfits
  | idle events =>
    cases hstep
    obtain ⟨hinv, hlater⟩ := @TxQueue.Inv.events _ _ hfits events _ h.inv
    exact ⟨hinv, hlater.between h.between, hlater.pending.trans_lt h.pending⟩

/-- What has left and what is in the ring, as the kernel would read it now. -/
def TxSide.leaving (iface : XskInterface) (s : TxSide) : List (List UInt8) :=
  s.queue.wire ++ (s.queue.tx.toList iface.ringSize.toNat).map s.queue.packet

theorem TxSide.Inv.leaving_eq (h : s.Inv iface) : s.leaving iface = s.accepted := by
  obtain ⟨queued, hqueued, hlog, hready⟩ := h.inv.queued
  unfold TxSide.leaving
  rw [hlog, ← hqueued, List.map_map]
  refine congrArg (s.queue.wire ++ ·) (List.map_congr_left fun p hp => ?_)
  obtain ⟨i, hi⟩ := List.mem_iff_getElem?.mp hp
  have hp := hready i p hi
  show s.queue.bufs.slice p.1.addr.toNat p.1.len.toNat = p.2
  rw [hp.addr, hp.len, hp.bytes]

theorem TxSide.inv_run (hs : iface.Sendable) (hfits : iface.ringSize.toNat ≤ iface.half)
    {calls : List TxCall} {t : TxSide}
    (hrun : Runs.run (txStep iface) (.start iface txSlots compSlots bufs) calls = some t)
    (hlt : t.accepted.length < 2 ^ 64) : t.Inv iface := by
  have hstep : ∀ s call s', (s.accepted.length < 2 ^ 64 → s.Inv iface) →
      txStep iface s call = some s' → s'.accepted.length < 2 ^ 64 → s'.Inv iface := by
    intro s call s' hs' hstep hlt'
    have hlt := (length_le_txStep hstep).trans_lt hlt'
    exact TxSide.inv_step hs hfits (hs' hlt) hlt hstep
  exact Runs.invariant_run hstep (fun _ => TxSide.inv_start hs) hrun hlt

end

/-! ## A ring that is too large -/

namespace TxQueue

variable {iface : XskInterface} {q : TxQueue}

/-- Nothing happens between the accesses of the sender, and `j` packets are in the ring. -/
structure Quiet (iface : XskInterface) (j : ℕ) (q : TxQueue) : Prop where
  upcoming : q.upcoming = []
  tx : q.tx.ProdOk iface.ringSize.toNat
  cached : q.tx.cachedProd = q.tx.producer
  count : q.tx.count = j

theorem tick_of_nil (h : q.upcoming = []) : q.tick iface = q := by
  unfold tick
  rw [h]

theorem drainComp_of_nil (h : q.upcoming = []) :
    ∃ comp, q.drainComp iface = { q with comp := comp } := by
  unfold drainComp
  rw [tick_of_nil h]
  exact ⟨_, rfl⟩

theorem reserveTx_of_nil (h : q.upcoming = []) (htx : q.tx.ProdOk iface.ringSize.toNat)
    (hcached : q.tx.cachedProd = q.tx.producer) (hroom : q.tx.count < iface.ringSize.toNat) :
    ∃ tx : XskRing XdpDesc, q.reserveTx iface = (some q.tx.producer, { q with tx := tx }) ∧
      tx.ProdOk iface.ringSize.toNat ∧ tx.toSharedRing = q.tx.toSharedRing ∧
        tx.cachedProd = q.tx.producer + 1 := by
  have hone : (1 : UInt32).toNat = 1 := rfl
  have hfree : q.tx.count + gap q.tx.cachedProd q.tx.producer + (1 : UInt32).toNat ≤
      iface.ringSize.toNat := by
    rw [hcached, gap_self]
    omega
  have heq := @XskRing.ProdOk.reserve_eq _ _ _ 1 htx
  have hprod := @XskRing.ProdOk.reserve_cachedProd _ _ _ 1 htx
  rw [if_pos hfree, hcached] at heq hprod
  refine ⟨(q.tx.xskRingProdReserve 1).2, ?_, htx.reserve, XskRing.reserve_toSharedRing, hprod⟩
  unfold reserveTx
  rw [tick_of_nil h]
  exact Prod.ext heq rfl

theorem copyTx_of_nil (h : q.upcoming = []) (dstMac srcMac : Mac) (data : List UInt8)
    (addr : UInt64) : q.copyTx iface dstMac srcMac data addr = { q with
      txSlot := q.txSlot + 1
      bufs := writeMacs dstMac srcMac addr.toNat (q.bufs.write addr.toNat data) } := by
  unfold copyTx
  rw [tick_of_nil h]

theorem submitTx_of_nil (h : q.upcoming = []) (len : ℕ) (idx : UInt32) (addr : UInt64) :
    q.submitTx iface len idx addr = { q with
      tx := (q.tx.setEntry idx { q.tx.entry idx with
        addr := addr, len := UInt32.ofNat len }).xskRingProdSubmit 1
      submitted := q.submitted + 1
      pendingTxCount := q.pendingTxCount + 1 } := by
  have hset : ∀ tx, tick iface { q with tx := tx } = { q with tx := tx } := fun _ => tick_of_nil h
  unfold submitTx
  rw [tick_of_nil h]
  simp only [hset]

theorem putTx_of_nil (h : q.upcoming = []) (htx : q.tx.ProdOk iface.ringSize.toNat)
    (hcached : q.tx.cachedProd = q.tx.producer + 1) (hroom : q.tx.count < iface.ringSize.toNat)
    {addr : UInt64} (haddr : iface.txAddr q.txSlot = some addr) (batch : ℕ) (dstMac srcMac : Mac)
    (data : List UInt8) :
    ∃ (q' : TxQueue) (desc : XdpDesc),
      q.putTx iface batch dstMac srcMac data q.tx.producer = some q' ∧
      Quiet iface (q.tx.count + 1) q' ∧ q'.txSlot = q.txSlot + 1 ∧ q'.wire = q.wire ∧
      q'.bufs = writeMacs dstMac srcMac addr.toNat (q.bufs.write addr.toNat data) ∧
      q'.tx.toList iface.ringSize.toNat = q.tx.toList iface.ringSize.toNat ++ [desc] ∧
      desc.addr = addr ∧ desc.len = UInt32.ofNat data.length := by
  have hone : (1 : UInt32).toNat = 1 := rfl
  have hn := htx.lt
  have hgap : gap q.tx.cachedProd q.tx.producer = 1 := by
    rw [hcached, gap_add_left, gap_self, hone]
    rw [gap_self, hone]
    omega
  let desc : XdpDesc :=
    { q.tx.entry q.tx.producer with addr := addr, len := UInt32.ofNat data.length }
  let tx := (q.tx.setEntry q.tx.producer desc).xskRingProdSubmit 1
  have hset := htx.setEntry_toSharedRing q.tx.producer desc
  have hlist : tx.toList iface.ringSize.toNat = q.tx.toList iface.ringSize.toNat ++ [desc] := by
    show (SharedRing.publish (q.tx.setEntry q.tx.producer desc).toSharedRing 1).toList _ = _
    rw [hset]
    exact toList_store_publish htx.dvd htx.lt desc hroom
  have hcount : tx.count = q.tx.count + 1 := by
    have := congrArg List.length hlist
    rwa [length_toList, List.length_append, length_toList, List.length_singleton] at this
  have hok : tx.ProdOk iface.ringSize.toNat :=
    (htx.setEntry q.tx.producer desc).submit (by rw [hone]; exact hgap.ge)
  unfold putTx
  simp only [haddr, copyTx_of_nil h]
  rw [submitTx_of_nil (by exact h)]
  split_ifs
  · unfold wake
    rw [tick_of_nil (by exact h)]
    exact ⟨_, desc, rfl, ⟨h, hok, hcached, hcount⟩, rfl, rfl, rfl, hlist, rfl, rfl⟩
  · exact ⟨_, desc, rfl, ⟨h, hok, hcached, hcount⟩, rfl, rfl, rfl, hlist, rfl, rfl⟩

theorem Quiet.sendBatch {j : ℕ} (h : Quiet iface j q) (hroom : j < iface.ringSize.toNat)
    {addr : UInt64} (haddr : iface.txAddr q.txSlot = some addr) (dstMac srcMac : Mac)
    (data : List UInt8) :
    ∃ (q' : TxQueue) (desc : XdpDesc),
      q.interfaceSendBatchQueue iface dstMac srcMac data = some (true, q') ∧
      Quiet iface (j + 1) q' ∧ q'.txSlot = q.txSlot + 1 ∧ q'.wire = q.wire ∧
      q'.bufs = writeMacs dstMac srcMac addr.toNat (q.bufs.write addr.toNat data) ∧
      q'.tx.toList iface.ringSize.toNat = q.tx.toList iface.ringSize.toNat ++ [desc] ∧
      desc.addr = addr ∧ desc.len = UInt32.ofNat data.length := by
  obtain ⟨comp, hdrain⟩ : ∃ comp, q.drainComp iface = { q with comp := comp } :=
    drainComp_of_nil h.upcoming
  obtain ⟨tx, hreserve, hok, hring, hcached⟩ := reserveTx_of_nil (q := { q with comp := comp })
    h.upcoming h.tx h.cached (h.count.trans_lt hroom)
  have hproducer : tx.producer = q.tx.producer := congrArg SharedRing.producer hring
  have hcount : tx.count = j := (congrArg SharedRing.count hring).trans h.count
  obtain ⟨q', desc, hput, hquiet, hslot, hwire, hbufs, hlist, hdesc⟩ :=
    putTx_of_nil (q := { q with comp := comp, tx := tx }) h.upcoming hok
      (hcached.trans (congrArg (· + 1) hproducer.symm)) (hcount.trans_lt hroom) haddr 16 dstMac srcMac
      data
  refine ⟨q', desc, ?_, hcount ▸ hquiet, hslot, hwire, hbufs, ?_, hdesc⟩
  · unfold interfaceSendBatchQueue
    rw [hdrain, hreserve]
    show Option.map _ (putTx iface { q with comp := comp, tx := tx } 16 dstMac srcMac data
      q.tx.producer) = _
    rw [← hproducer, hput]
    rfl
  · rw [hlist]
    exact congrArg (· ++ [desc]) (congrArg (SharedRing.toList · _) hring)

end TxQueue

/-- A packet of one byte, `0` for the first one and `1` for the others. -/
def tagged (i : ℕ) : List UInt8 := [if i = 0 then 0 else 1]

def sendTagged (i : ℕ) : TxCall := .sendBatch Mac.zero Mac.zero (tagged i) []

section

variable {iface : XskInterface}

theorem run_sendTagged (hs : iface.Sendable) : ∀ {j : ℕ}, j ≤ iface.ringSize.toNat →
    ∃ t, Runs.run (txStep iface) (.start iface (fun _ => ⟨0, 0, 0⟩) (fun _ => 0) fun _ => 0)
        ((List.range j).map sendTagged) = some t ∧
      t.queue.Quiet iface j ∧ t.queue.txSlot = UInt64.ofNat j ∧ t.queue.wire = [] ∧
      t.accepted = (List.range j).map tagged ∧
      (∀ i, j = i + 1 → t.queue.bufs (iface.txFrame i) = if i = 0 then 0 else 1) ∧
      ∀ d ∈ (t.queue.tx.toList iface.ringSize.toNat).head?,
        d.addr.toNat = iface.txFrame 0 ∧ d.len = 1 := by
  intro j
  induction j with
  | zero =>
    intro _
    obtain ⟨hinv, hbetween, -⟩ := @TxSide.inv_start iface (fun _ => ⟨0, 0, 0⟩) (fun _ => 0)
      (fun _ => 0) hs
    have hcount : (TxSide.start iface (fun _ => ⟨0, 0, 0⟩) (fun _ => 0) fun _ => 0).queue.tx.count =
      0 := gap_self 0
    refine ⟨_, rfl, ⟨rfl, hinv.tx, rfl, hcount⟩, rfl, rfl, rfl, fun i hi => ?_, fun d hd => ?_⟩
    · omega
    · rw [List.length_eq_zero_iff.mp ((length_toList ..).trans hcount)] at hd
      cases hd
  | succ j ih =>
    intro hle
    obtain ⟨t, hrun, hquiet, hslot, hwire, haccepted, -, hfirst⟩ := ih (by omega)
    have hlt : j < 2 ^ 64 := by
      have := iface.ringSize.toNat_lt
      omega
    obtain ⟨addr, hsome, haddr⟩ := hs.txAddr hlt
    rw [← hslot] at hsome
    obtain ⟨q', desc, hsend, hquiet', hslot', hwire', hbufs, hlist, hdaddr, hdlen⟩ :=
      hquiet.sendBatch (by omega) hsome Mac.zero Mac.zero (tagged j)
    have hfits : (tagged j).length ≤ iface.frameSize.toNat :=
      (show 1 ≤ 12 by omega).trans hs.macs_fit
    have hup : { t.queue with upcoming := [] } = t.queue := by rw [← hquiet.upcoming]
    have hout : outgoing Mac.zero Mac.zero (tagged j) = tagged j := rfl
    refine ⟨⟨q', t.accepted ++ [tagged j]⟩, ?_, hquiet', ?_, hwire'.trans hwire, ?_, ?_, ?_⟩
    · rw [List.range_succ, List.map_append, List.map_singleton]
      refine Runs.run_concat.mpr ⟨t, hrun, ?_⟩
      unfold sendTagged txStep
      simp only [if_pos hfits, hup, hsend]
      rfl
    · show q'.txSlot = _
      rw [hslot', hslot, UInt64.ofNat_add]
      rfl
    · rw [List.range_succ, List.map_append, List.map_singleton, haccepted]
    · intro i hi
      obtain rfl : i = j := by omega
      show q'.bufs _ = _
      rw [hbufs, ← haddr]
      show (t.queue.bufs.write addr.toNat (tagged i)) addr.toNat = _
      exact Buffer.write_add (l := tagged i) (k := 0) Nat.one_pos
    · intro d hd
      have hd : d ∈ (t.queue.tx.toList iface.ringSize.toNat ++ [desc]).head? := by
        rw [← hlist]
        exact hd
      rcases hqueue : t.queue.tx.toList iface.ringSize.toNat with _ | ⟨d', ds⟩
      · rw [hqueue] at hd
        obtain rfl : desc = d := Option.some.inj hd
        have hzero : j = 0 := by
          rw [← hquiet.count, ← length_toList _ iface.ringSize.toNat, hqueue]
          rfl
        subst hzero
        exact ⟨by rw [hdaddr, haddr], hdlen⟩
      · rw [hqueue] at hd hfirst
        exact hfirst d hd

/-- **The frames wrap** before the ring is full. -/
theorem leaving_ne_accepted (hs : iface.Sendable) (hlarge : iface.half < iface.ringSize.toNat) :
    ∃ t, Runs.run (txStep iface) (.start iface (fun _ => ⟨0, 0, 0⟩) (fun _ => 0) fun _ => 0)
        ((List.range (iface.half + 1)).map sendTagged) = some t ∧
      t.accepted.length < 2 ^ 64 ∧ t.leaving iface ≠ t.accepted := by
  obtain ⟨t, hrun, hquiet, -, hwire, haccepted, hlast, hfirst⟩ :=
    run_sendTagged hs (j := iface.half + 1) (by omega)
  refine ⟨t, hrun, ?_, fun heq => ?_⟩
  · rw [haccepted, List.length_map, List.length_range]
    have := iface.ringSize.toNat_lt
    omega
  · have hmod : iface.txFrame iface.half = iface.txFrame 0 := by
      unfold XskInterface.txFrame
      rw [Nat.mod_self, Nat.zero_mod]
    have hbyte := hlast iface.half rfl
    rw [hmod, if_neg hs.half_pos.ne'] at hbyte
    have hlen := length_toList t.queue.tx.toSharedRing iface.ringSize.toNat
    rw [hquiet.count] at hlen
    rcases hqueue : t.queue.tx.toList iface.ringSize.toNat with _ | ⟨d, ds⟩
    · rw [hqueue] at hlen
      cases hlen
    · obtain ⟨hdaddr, hdlen⟩ := hfirst d (by rw [hqueue]; rfl)
      have hread : t.queue.packet d = [1] := by
        unfold TxQueue.packet
        rw [hdaddr, hdlen]
        show [t.queue.bufs (iface.txFrame 0 + 0)] = [1]
        rw [Nat.add_zero, hbyte]
      have hhead := congrArg List.head? heq
      unfold TxSide.leaving at hhead
      rw [hwire, hqueue, haccepted, List.range_succ_eq_map, List.nil_append, List.map_cons,
        List.map_cons, List.head?_cons, List.head?_cons, hread] at hhead
      cases hhead

variable (iface) in
/-- Whatever the kernel and the receive path do between any two accesses of a sender, what has left
and what is in the transmit ring are the packets that have been accepted, in the same order; and this
is so exactly if the ring is no larger than the upper half of the UMEM. -/
theorem leaving_eq_accepted_iff (hs : iface.Sendable) :
    (∀ txSlots compSlots bufs calls t,
      Runs.run (txStep iface) (.start iface txSlots compSlots bufs) calls = some t →
        t.accepted.length < 2 ^ 64 → t.leaving iface = t.accepted) ↔
      iface.ringSize.toNat ≤ iface.half := by
  constructor
  · intro h
    by_contra hlarge
    obtain ⟨t, hrun, hlt, hne⟩ := leaving_ne_accepted hs (not_le.mp hlarge)
    exact hne (h _ _ _ _ t hrun hlt)
  · exact fun hfits _ _ _ _ t hrun hlt => (TxSide.inv_run hs hfits hrun hlt).leaving_eq

theorem fourFrames_sendable : fourFrames.Sendable :=
  ⟨⟨1, by omega, rfl⟩, by decide, by decide⟩

set_option maxRecDepth 10000 in
theorem leaving_eq_accepted_fourFrames : ∃ t, Runs.run (txStep fourFrames)
    (.start fourFrames (fun _ => ⟨0, 0, 0⟩) (fun _ => 0) fun _ => 0)
    [.sendBatch Mac.zero Mac.zero [7, 8, 9] [], .sendBatch Mac.zero Mac.zero [5] [[], [.transmit 1]],
      .sendToLocal Mac.zero Mac.zero [6] []] = some t ∧
    t.queue.wire = [[7, 8, 9]] ∧ t.accepted = [[7, 8, 9], [5], [6]] ∧
    t.leaving fourFrames = t.accepted := by
  have hrun := (leaving_eq_accepted_iff fourFrames fourFrames_sendable).mpr (by decide)
    (fun _ => ⟨0, 0, 0⟩) (fun _ => 0) (fun _ => 0)
    [.sendBatch Mac.zero Mac.zero [7, 8, 9] [], .sendBatch Mac.zero Mac.zero [5] [[], [.transmit 1]],
      .sendToLocal Mac.zero Mac.zero [6] []]
  exact ⟨_, rfl, rfl, rfl, hrun _ rfl (by decide)⟩

end

end NetEncryptor

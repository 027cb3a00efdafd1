import Mathlib.Data.List.Perm.Subperm
import NetEncryptor.Core.Umem
import NetEncryptor.Core.Xsk

/-!
# The frames of a receive queue

A queue is set up with all its frames in the fill ring.  The kernel takes frames from there, writes
packets into them and puts them into the receive ring; `interface_recv_single_queue` takes them
from there, and `interface_recv_release_single_queue` puts them back into the fill ring.  The kernel
and the senders of the queue go on between any two accesses of the receiver.

`rx_frames_conserved` is the result: no frame is ever lost or in two places, packets are received in
the order in which they were delivered, none changes while it is held, and the receiver leaves the
completion ring, on which the senders work, alone.
-/

namespace NetEncryptor

open SharedRing

/-- What the kernel or a sender of the queue does. -/
inductive RxEvent
  /-- The kernel takes frames from the fill ring. -/
  | take (k : UInt32)
  /-- The kernel writes a packet into one of its frames, behind some headroom. -/
  | deliver (i headroom : ℕ) (data : List UInt8)
  /-- A sender writes a frame and works on the completion ring. -/
  | send (txSlot : UInt64) (data : List UInt8) (comp : XskRing UInt64)

/-- What the receiver uses of `struct xsk_queue`, and what the kernel has of it. -/
structure RxQueue where
  fill : XskRing UInt64
  rx : XskRing XdpDesc
  comp : XskRing UInt64
  bufs : Buffer UInt8
  /-- The frames that the kernel has taken from the fill ring. -/
  inKernel : List ℕ
  /-- What the kernel has delivered. -/
  delivered : List (XdpDesc × List UInt8)
  /-- The completion ring as the senders have left it. -/
  senders : XskRing UInt64
  /-- What happens before each of the next accesses. -/
  upcoming : List (List RxEvent)

namespace XskInterface

variable (iface : XskInterface)

/-- The frame that an address lies in. -/
def frameOf (addr : UInt64) : ℕ := addr.toNat / iface.frameSize.toNat

/-- The receiver's side of a queue right after `interface_init_local` or `interface_init_wan_rx` has
filled the ring that `xsk_umem__create` has made. -/
def fillRing (slots : Buffer UInt64) : XskRing UInt64 :=
  let fill : XskRing UInt64 := ⟨⟨0, 0, slots⟩, 0, iface.ringSize, iface.ringSize - 1, iface.ringSize⟩
  match fill.xskRingProdReserve iface.ringSize with
  | (none, fill) => fill
  | (some idx, fill) =>
    (fill.setEntries idx iface.fillAddrs).xskRingProdSubmit iface.ringSize

end XskInterface

namespace RxQueue

variable (iface : XskInterface) (q : RxQueue)

def kernelTake (k : UInt32) : RxQueue :=
  if k.toNat ≤ q.fill.count then
    { q with
      fill := q.fill.kernelRetire k
      inKernel := q.inKernel ++
        ((q.fill.toList iface.ringSize.toNat).take k.toNat).map iface.frameOf }
  else q

def kernelDeliver (i headroom : ℕ) (data : List UInt8) : RxQueue :=
  match q.inKernel[i]? with
  | none => q
  | some frame =>
    let addr := frame * iface.frameSize.toNat + headroom
    let desc : XdpDesc := ⟨UInt64.ofNat addr, UInt32.ofNat data.length, 0⟩
    if headroom < iface.frameSize.toNat ∧ headroom + data.length ≤ iface.frameSize.toNat ∧
        q.rx.count < iface.ringSize.toNat then
      { q with
        rx := q.rx.kernelPut iface.ringSize.toNat desc
        bufs := q.bufs.write addr data
        inKernel := q.inKernel.eraseIdx i
        delivered := q.delivered ++ [(desc, data)] }
    else q

def sendersFrame (txSlot : UInt64) (data : List UInt8) (comp : XskRing UInt64) : RxQueue :=
  match iface.txAddr txSlot with
  | none => q
  | some addr =>
    if data.length ≤ iface.frameSize.toNat then
      { q with bufs := q.bufs.write addr.toNat data, comp := comp, senders := comp }
    else q

def event (q : RxQueue) : RxEvent → RxQueue
  | .take k => q.kernelTake iface k
  | .deliver i headroom data => q.kernelDeliver iface i headroom data
  | .send txSlot data comp => q.sendersFrame iface txSlot data comp

def tick : RxQueue :=
  match q.upcoming with
  | [] => q
  | events :: upcoming => { events.foldl (event iface) q with upcoming := upcoming }

/-! ## The functions -/

/-- The loop of `interface_recv_single_queue`: the descriptors from the one at `idx` on. -/
def readDescs : ℕ → UInt32 → RxQueue → List XdpDesc × RxQueue
  | 0, _, q => ([], q)
  | rcvd + 1, idx, q =>
    let q := q.tick iface
    let desc := q.rx.entry idx
    let (descs, q) := readDescs rcvd (idx + 1) q
    (desc :: descs, q)

/-- `xsk_ring_cons__peek` on the receive ring. -/
def peekRx (maxPkts : UInt32) : UInt32 × UInt32 × RxQueue :=
  let q := q.tick iface
  let (rcvd, idx, rx) := q.rx.xskRingConsPeek maxPkts
  (rcvd, idx, { q with rx := rx })

/-- The rest of `interface_recv_single_queue`, when there is something to read. -/
def recvDescs (rcvd idx : UInt32) : List XdpDesc × RxQueue :=
  let (descs, q) := readDescs iface rcvd.toNat idx q
  let q := q.tick iface
  (descs, { q with rx := q.rx.xskRingConsRelease rcvd })

/-- `interface_recv_single_queue`: the descriptors that `addrs`, `pkt_ptrs` and `pkt_lens` are
assigned from.  `ready` says whether `poll` returns more than `0`. -/
def interfaceRecvSingleQueue (maxPkts : UInt32) (ready : Bool) : List XdpDesc × RxQueue :=
  let (rcvd, idx, q) := q.peekRx iface maxPkts
  if rcvd = 0 then
    if ready then
      let (rcvd, idx, q) := q.peekRx iface maxPkts
      if rcvd = 0 then ([], q) else q.recvDescs iface rcvd idx
    else ([], q)
  else q.recvDescs iface rcvd idx

/-- Write the reserved entry and submit it. -/
def putFill (idx : UInt32) (addr : UInt64) : RxQueue :=
  let q := ({ q with fill := q.fill.setEntry idx addr }).tick iface
  { q with fill := q.fill.xskRingProdSubmit 1 }

/-- `xsk_ring_prod__reserve` on the fill ring. -/
def reserveFill : Option UInt32 × RxQueue :=
  let q := q.tick iface
  let (idx, fill) := q.fill.xskRingProdReserve 1
  (idx, { q with fill := fill })

/-- What `interface_recv_release_single_queue` does when the fill ring has no room. -/
def drainComp : RxQueue :=
  let q := q.tick iface
  let (comp, _, ring) := q.comp.xskRingConsPeek 64
  { q with comp := if 0 < comp then ring.xskRingConsRelease comp else ring }

/-- The body of the loop of `interface_recv_release_single_queue`. -/
def releaseFrame (q : RxQueue) (addr : UInt64) : RxQueue :=
  match q.reserveFill iface with
  | (some idx, q) => q.putFill iface idx addr
  | (none, q) =>
    match (q.drainComp iface).reserveFill iface with
    | (some idx, q) => q.putFill iface idx addr
    | (none, q) => q

def interfaceRecvReleaseSingleQueue (addrs : List UInt64) : RxQueue :=
  addrs.foldl (releaseFrame iface) q

end RxQueue

/-! ## A receiver -/

/-- A queue and the packets that its receiver holds and has received, with what they were when
`interface_recv_single_queue` returned them. -/
structure RxSide where
  queue : RxQueue
  held : List (XdpDesc × List UInt8)
  received : List (XdpDesc × List UInt8)

/-- A call, with what happens before each of its accesses. -/
inductive RxCall
  | recv (maxPkts : UInt32) (ready : Bool) (upcoming : List (List RxEvent))
  | release (packets : List (XdpDesc × List UInt8)) (upcoming : List (List RxEvent))

/-- The bytes that `pkt_ptrs[j]` points to. -/
def RxQueue.packet (q : RxQueue) (desc : XdpDesc) : XdpDesc × List UInt8 :=
  (desc, q.bufs.slice desc.addr.toNat desc.len.toNat)

/-- A receiver releases what it holds. -/
def rxStep (iface : XskInterface) (s : RxSide) : RxCall → Option RxSide
  | .recv maxPkts ready upcoming =>
    let q := { s.queue with upcoming := upcoming }
    let (descs, q) := q.interfaceRecvSingleQueue iface maxPkts ready
    let packets := descs.map q.packet
    some ⟨q, s.held ++ packets, s.received ++ packets⟩
  | .release packets upcoming =>
    if packets.Subperm s.held then
      let q := { s.queue with upcoming := upcoming }
      let addrs := packets.map fun p => p.1.addr
      some { s with
        queue := q.interfaceRecvReleaseSingleQueue iface addrs, held := s.held.diff packets }
    else none

/-- A queue that has been set up. -/
def RxSide.start (iface : XskInterface) (slots : Buffer UInt64) (rxSlots : Buffer XdpDesc)
    (comp : XskRing UInt64) (bufs : Buffer UInt8) : RxSide where
  queue :=
    { fill := iface.fillRing slots
      rx := ⟨⟨0, 0, rxSlots⟩, 0, 0, iface.ringSize - 1, iface.ringSize⟩
      comp := comp
      bufs := bufs
      inKernel := []
      delivered := []
      senders := comp
      upcoming := [] }
  held := []
  received := []

/-! ## Frames -/

namespace XskInterface

/-- The rings are as the kernel asks for, and every frame of the fill ring is in the lower half of the
UMEM at an address that 32 bits hold. -/
structure Framed (iface : XskInterface) : Prop where
  pow : ∃ k ≤ 30, iface.ringSize.toNat = 2 ^ k
  fits : iface.ringSize.toNat ≤ iface.half
  narrow : iface.ringSize.toNat * iface.frameSize.toNat ≤ 2 ^ 32

variable {iface : XskInterface}

theorem Framed.ringSize_pos (h : iface.Framed) : 0 < iface.ringSize.toNat := by
  obtain ⟨k, -, hk⟩ := h.pow
  rw [hk]
  exact Nat.two_pow_pos k

theorem Framed.half_pos (h : iface.Framed) : 0 < iface.half := h.ringSize_pos.trans_le h.fits

theorem Framed.frameSize_pos (h : iface.Framed) : 0 < iface.frameSize.toNat := by
  refine Nat.pos_of_ne_zero fun h₀ => absurd h.half_pos ?_
  rw [half, h₀, halfFrames_zero]
  exact lt_irrefl 0

theorem Framed.lt (h : iface.Framed) {frame headroom : ℕ} (hframe : frame < iface.ringSize.toNat)
    (hlt : headroom < iface.frameSize.toNat) :
    frame * iface.frameSize.toNat + headroom < 2 ^ 32 :=
  calc frame * iface.frameSize.toNat + headroom
      < (frame + 1) * iface.frameSize.toNat := by rw [Nat.succ_mul]; omega
    _ ≤ iface.ringSize.toNat * iface.frameSize.toNat := Nat.mul_le_mul_right _ hframe
    _ ≤ 2 ^ 32 := h.narrow

theorem Framed.map_fillAddrs (h : iface.Framed) :
    iface.fillAddrs.map iface.frameOf = List.range iface.ringSize.toNat := by
  obtain ⟨k, hk, hring⟩ := h.pow
  have hsmall : iface.ringSize.toNat < 2 ^ 31 := by
    rw [hring]
    exact Nat.pow_lt_pow_right (by omega) (by omega)
  have hcount : fillCount iface.ringSize.toNat = iface.ringSize.toNat := if_pos hsmall
  unfold fillAddrs
  rw [fillCount_eq, hcount, List.map_map]
  refine (List.map_congr_left fun i hi => ?_).trans (List.map_id _)
  rw [List.mem_range] at hi
  have hlt := h.lt hi h.frameSize_pos
  show (iface.fillAddr i).toNat / iface.frameSize.toNat = i
  rw [fillAddr_toNat, Nat.mod_eq_of_lt (by omega), Nat.mul_div_cancel _ h.frameSize_pos]

theorem Framed.le_txAddr (h : iface.Framed) {txSlot addr : UInt64}
    (haddr : iface.txAddr txSlot = some addr) :
    iface.ringSize.toNat * iface.frameSize.toNat ≤ addr.toNat := by
  obtain ⟨addr', hsome, hval⟩ := txAddr_eq_some h.half_pos txSlot
  obtain rfl : addr' = addr := Option.some.inj (hsome.symm.trans haddr)
  rw [hval]
  exact Nat.mul_le_mul_right _ (h.fits.trans (Nat.le_add_left ..))

variable (iface) in
/-- The packet of a descriptor is in one frame, and is what it was. -/
structure Intact (bufs : Buffer UInt8) (p : XdpDesc × List UInt8) : Prop where
  len : p.1.len.toNat = p.2.length
  inFrame : p.1.addr.toNat % iface.frameSize.toNat + p.2.length ≤ iface.frameSize.toNat
  bytes : bufs.slice p.1.addr.toNat p.2.length = p.2

theorem Intact.write {bufs : Buffer UInt8} {p : XdpDesc × List UInt8} {d : ℕ} {l : List UInt8}
    (h : iface.Intact bufs p)
    (hd : d + l.length ≤ iface.frameOf p.1.addr * iface.frameSize.toNat ∨
      (iface.frameOf p.1.addr + 1) * iface.frameSize.toNat ≤ d) :
    iface.Intact (bufs.write d l) p := by
  refine ⟨h.len, h.inFrame, (Buffer.slice_write_of_disjoint _ ?_).trans h.bytes⟩
  have hsplit := Nat.div_add_mod' p.1.addr.toNat iface.frameSize.toNat
  have hin := h.inFrame
  unfold frameOf at hd
  rw [Nat.succ_mul] at hd
  omega

end XskInterface

/-! ## The invariant -/

namespace RxQueue

variable (iface : XskInterface)

/-- Where the frames are that the receiver does not hold. -/
def places (q : RxQueue) : List ℕ :=
  (q.fill.toList iface.ringSize.toNat).map iface.frameOf ++ q.inKernel ++
    (q.rx.toList iface.ringSize.toNat).map fun desc => iface.frameOf desc.addr

/-- Every frame is in one place; what is in the receive ring is what has been delivered and not been
received, and it is as it was delivered, as is what the receiver holds. -/
structure Inv (held received : List (XdpDesc × List UInt8)) (q : RxQueue) : Prop where
  fill : q.fill.ProdOk iface.ringSize.toNat
  rx : q.rx.ConsOk iface.ringSize.toNat
  places : (q.places iface ++ held.map fun p => iface.frameOf p.1.addr).Perm
    (List.range iface.ringSize.toNat)
  queued : ∃ queued, queued.map Prod.fst = q.rx.toList iface.ringSize.toNat ∧
    q.delivered = received ++ queued ∧ ∀ p ∈ queued ++ held, iface.Intact q.bufs p
  senders : q.comp = q.senders

/-- What the receiver finds after others have gone on. -/
structure Later (q q' : RxQueue) : Prop where
  fillProducer : q'.fill.producer = q.fill.producer
  fillCached : q'.fill.cachedProd = q.fill.cachedProd
  fillSlots : q'.fill.slots = q.fill.slots
  rxConsumer : q'.rx.consumer = q.rx.consumer
  rxCached : q'.rx.cachedCons = q.rx.cachedCons
  rxQueued : q.rx.toList iface.ringSize.toNat <+: q'.rx.toList iface.ringSize.toNat

variable {iface} {held received : List (XdpDesc × List UInt8)} {q q' q'' : RxQueue}

theorem Later.refl (q : RxQueue) : Later iface q q := ⟨rfl, rfl, rfl, rfl, rfl, List.prefix_rfl⟩

theorem Later.trans (h : Later iface q q') (h' : Later iface q' q'') : Later iface q q'' where
  fillProducer := h'.fillProducer.trans h.fillProducer
  fillCached := h'.fillCached.trans h.fillCached
  fillSlots := h'.fillSlots.trans h.fillSlots
  rxConsumer := h'.rxConsumer.trans h.rxConsumer
  rxCached := h'.rxCached.trans h.rxCached
  rxQueued := h.rxQueued.trans h'.rxQueued

theorem Inv.frame_ne (h : Inv iface held received q) {frame : ℕ} (hframe : frame ∈ q.inKernel)
    {queued : List (XdpDesc × List UInt8)}
    (hqueued : queued.map Prod.fst = q.rx.toList iface.ringSize.toNat)
    {p : XdpDesc × List UInt8} (hp : p ∈ queued ++ held) : iface.frameOf p.1.addr ≠ frame := by
  have hnodup := h.places.nodup_iff.mpr List.nodup_range
  rintro rfl
  rcases List.mem_append.mp hp with hq | hheld
  · have hmem : p.1 ∈ q.rx.toList iface.ringSize.toNat := by
      rw [← hqueued]
      exact List.mem_map_of_mem hq
    have hplaces := (List.nodup_append.mp hnodup).1
    unfold RxQueue.places at hplaces
    exact (List.nodup_append.mp hplaces).2.2 _ (List.mem_append_right _ hframe) _
      (List.mem_map_of_mem hmem) rfl
  · exact (List.nodup_append.mp hnodup).2.2 _
      (List.mem_append_left _ (List.mem_append_right _ hframe)) _ (List.mem_map_of_mem hheld) rfl

theorem Inv.lt (h : Inv iface held received q) {frame : ℕ}
    (hframe : frame ∈ q.places iface ++ held.map fun p => iface.frameOf p.1.addr) :
    frame < iface.ringSize.toNat := List.mem_range.mp (h.places.mem_iff.mp hframe)

/-! ## What others do -/

theorem Inv.kernelTake (h : Inv iface held received q) (k : UInt32) :
    Inv iface held received (q.kernelTake iface k) ∧ Later iface q (q.kernelTake iface k) := by
  unfold RxQueue.kernelTake
  split_ifs with hk
  swap
  · exact ⟨h, .refl q⟩
  refine ⟨⟨h.fill.kernelRetire hk, h.rx, ?_, h.queued, h.senders⟩,
    ⟨rfl, rfl, rfl, rfl, rfl, List.prefix_rfl⟩⟩
  have hfill : (q.fill.kernelRetire k).toList iface.ringSize.toNat =
      (q.fill.toList iface.ringSize.toNat).drop k.toNat := toList_retire h.fill.dvd hk
  refine List.Perm.trans (List.perm_iff_count.mpr fun a => ?_) h.places
  have hsplit := congrArg (fun l => (l.map iface.frameOf).count a)
    (List.take_append_drop k.toNat (q.fill.toList iface.ringSize.toNat))
  simp only [List.map_append, List.count_append] at hsplit
  unfold RxQueue.places
  rw [hfill]
  simp only [List.count_append]
  omega

theorem Inv.kernelDeliver (hf : iface.Framed) (h : Inv iface held received q) (i headroom : ℕ)
    (data : List UInt8) :
    Inv iface held received (q.kernelDeliver iface i headroom data) ∧
      Later iface q (q.kernelDeliver iface i headroom data) := by
  unfold RxQueue.kernelDeliver
  split
  · exact ⟨h, .refl q⟩
  rename_i frame hframe
  simp only
  split_ifs with hfits
  swap
  · exact ⟨h, .refl q⟩
  obtain ⟨hhead, hlen, hroom⟩ := hfits
  obtain ⟨hi, hget⟩ := List.getElem?_eq_some_iff.mp hframe
  have hmem : frame ∈ q.inKernel := List.mem_of_getElem? hframe
  have hlt : frame * iface.frameSize.toNat + headroom < 2 ^ 32 :=
    hf.lt (h.lt (List.mem_append_left _ (List.mem_append_left _ (List.mem_append_right _ hmem)))) hhead
  generalize hdesc : (⟨UInt64.ofNat (frame * iface.frameSize.toNat + headroom),
    UInt32.ofNat data.length, 0⟩ : XdpDesc) = desc
  have haddr : desc.addr.toNat = frame * iface.frameSize.toNat + headroom := by
    rw [← hdesc]
    exact UInt64.toNat_ofNat_of_lt' (show _ < 2 ^ 64 by omega)
  have hdata : desc.len.toNat = data.length := by
    have := iface.frameSize.toNat_lt
    rw [← hdesc]
    exact UInt32.toNat_ofNat_of_lt' (show _ < 2 ^ 32 by omega)
  have hof : iface.frameOf desc.addr = frame := by
    unfold XskInterface.frameOf
    rw [haddr, Nat.mul_comm, Nat.mul_add_div hf.frameSize_pos, Nat.div_eq_of_lt hhead, Nat.add_zero]
  have hrx := h.rx.toList_kernelPut hroom desc
  obtain ⟨queued, hqueued, hlog, hintact⟩ := h.queued
  refine ⟨⟨h.fill, h.rx.kernelPut hroom _, ?_, ⟨queued ++ [(desc, data)], ?_, ?_, ?_⟩, h.senders⟩,
    ⟨rfl, rfl, rfl, rfl, rfl, ?_⟩⟩
  · refine List.Perm.trans (List.perm_iff_count.mpr fun a => ?_) h.places
    have hperm := (List.perm_iff_count.mp (List.getElem_cons_eraseIdx_perm hi)) a
    rw [hget] at hperm
    unfold RxQueue.places
    rw [hrx]
    simp only [List.map_append, List.map_singleton, hof, List.count_append, ← hperm,
      List.count_cons, List.count_nil]
    omega
  · rw [List.map_append, hqueued]
    exact hrx.symm
  · show q.delivered ++ [(desc, data)] = received ++ (queued ++ [(desc, data)])
    rw [← List.append_assoc, ← hlog]
  · intro p hp
    rw [List.append_assoc, List.mem_append, List.singleton_append, List.mem_cons,
      or_left_comm, ← List.mem_append] at hp
    rcases hp with rfl | hp
    · refine ⟨hdata, ?_, ?_⟩
      · show desc.addr.toNat % _ + _ ≤ _
        rw [haddr, Nat.mul_comm, Nat.mul_add_mod, Nat.mod_eq_of_lt hhead]
        exact hlen
      · show Buffer.slice _ desc.addr.toNat _ = _
        rw [haddr]
        exact Buffer.slice_write_self _ _ rfl
    · refine (hintact p hp).write ?_
      have hne := h.frame_ne hmem hqueued hp
      rcases lt_or_gt_of_ne hne with hbelow | habove
      · exact .inr ((Nat.mul_le_mul_right _ hbelow).trans (Nat.le_add_right ..))
      · refine .inl (le_trans ?_ (Nat.mul_le_mul_right _ (show frame + 1 ≤ _ from habove)))
        rw [Nat.succ_mul]
        omega
  · rw [hrx]
    exact List.prefix_append _ _

theorem Inv.sendersFrame (hf : iface.Framed) (h : Inv iface held received q) (txSlot : UInt64)
    (data : List UInt8) (comp : XskRing UInt64) :
    Inv iface held received (q.sendersFrame iface txSlot data comp) ∧
      Later iface q (q.sendersFrame iface txSlot data comp) := by
  unfold RxQueue.sendersFrame
  split
  · exact ⟨h, .refl q⟩
  rename_i addr haddr
  split_ifs with hlen
  swap
  · exact ⟨h, .refl q⟩
  obtain ⟨queued, hqueued, hlog, hintact⟩ := h.queued
  refine ⟨⟨h.fill, h.rx, h.places, ⟨queued, hqueued, hlog, fun p hp => ?_⟩, rfl⟩,
    ⟨rfl, rfl, rfl, rfl, rfl, List.prefix_rfl⟩⟩
  have hframe : iface.frameOf p.1.addr < iface.ringSize.toNat := by
    refine h.lt ?_
    rcases List.mem_append.mp hp with hq | hheld
    · refine List.mem_append_left _ (List.mem_append_right _ (List.mem_map_of_mem ?_))
      rw [← hqueued]
      exact List.mem_map_of_mem hq
    · exact List.mem_append_right _ (List.mem_map_of_mem hheld)
  exact (hintact p hp).write (.inr ((Nat.mul_le_mul_right _ hframe).trans (hf.le_txAddr haddr)))

theorem Inv.event (hf : iface.Framed) (h : Inv iface held received q) (e : RxEvent) :
    Inv iface held received (q.event iface e) ∧ Later iface q (q.event iface e) := by
  cases e with
  | take k => exact h.kernelTake k
  | deliver i headroom data => exact h.kernelDeliver hf i headroom data
  | send txSlot data comp => exact h.sendersFrame hf txSlot data comp

theorem Inv.events (hf : iface.Framed) : ∀ {es : List RxEvent} {q : RxQueue},
    Inv iface held received q → Inv iface held received (es.foldl (RxQueue.event iface) q) ∧
      Later iface q (es.foldl (RxQueue.event iface) q) := by
  intro es
  induction es with
  | nil => exact fun h => ⟨h, .refl _⟩
  | cons e es ih =>
    intro q h
    obtain ⟨he, hlater⟩ := h.event hf e
    obtain ⟨hes, hrest⟩ := ih he
    exact ⟨hes, hlater.trans hrest⟩

theorem Inv.tick (hf : iface.Framed) (h : Inv iface held received q) :
    Inv iface held received (q.tick iface) ∧ Later iface q (q.tick iface) := by
  unfold RxQueue.tick
  split
  · exact ⟨h, .refl q⟩
  · rename_i es rest _
    obtain ⟨⟨hfill, hrx, hplaces, hqueued, hsenders⟩, hlater⟩ := @Inv.events _ _ _ hf es _ h
    exact ⟨⟨hfill, hrx, hplaces, hqueued, hsenders⟩, ⟨hlater.fillProducer, hlater.fillCached,
      hlater.fillSlots, hlater.rxConsumer, hlater.rxCached, hlater.rxQueued⟩⟩

/-! ## Receiving -/

/-- The receiver is between two calls. -/
structure Idle (q : RxQueue) : Prop where
  fill : q.fill.cachedProd = q.fill.producer
  rx : q.rx.cachedCons = q.rx.consumer

theorem Later.idle (h : Later iface q q') (hq : q.Idle) : q'.Idle :=
  ⟨h.fillCached.trans (hq.fill.trans h.fillProducer.symm),
    h.rxCached.trans (hq.rx.trans h.rxConsumer.symm)⟩

theorem Inv.withRx (h : Inv iface held received q) {rx : XskRing XdpDesc}
    (hok : rx.ConsOk iface.ringSize.toNat) (hring : rx.toSharedRing = q.rx.toSharedRing) :
    Inv iface held received { q with rx := rx } := by
  obtain ⟨queued, hqueued, hlog, hintact⟩ := h.queued
  refine ⟨h.fill, hok, ?_, ⟨queued, hqueued.trans ?_, hlog, hintact⟩, h.senders⟩
  · have hplaces : RxQueue.places iface { q with rx := rx } = q.places iface := by
      unfold RxQueue.places
      rw [hring]
    rw [hplaces]
    exact h.places
  · exact congrArg (SharedRing.toList · _) hring.symm

theorem Inv.peekRx (hf : iface.Framed) (h : Inv iface held received q) (hq : q.Idle)
    {maxPkts rcvd idx : UInt32} (hpeek : q.peekRx iface maxPkts = (rcvd, idx, q')) :
    Inv iface held received q' ∧ q'.fill.cachedProd = q'.fill.producer ∧ idx = q'.rx.consumer ∧
      q'.rx.cachedCons = q'.rx.consumer + rcvd ∧ rcvd.toNat ≤ q'.rx.count := by
  obtain ⟨htick, hlater⟩ := h.tick hf
  have hidle := hlater.idle hq
  obtain ⟨hidx, hcached, -, hle, -⟩ := @XskRing.ConsOk.peek_eq _ _ _ maxPkts htick.rx
  have hok := @XskRing.ConsOk.peek _ _ _ maxPkts htick.rx
  have hring := @XskRing.peek_toSharedRing _ (q.tick iface).rx maxPkts
  unfold RxQueue.peekRx at hpeek
  rcases htuple : (q.tick iface).rx.xskRingConsPeek maxPkts with ⟨rcvd', idx', rx⟩
  simp only [htuple] at hidx hcached hle hok hring hpeek
  cases hpeek
  rw [hidle.rx, gap_self, Nat.zero_add] at hle
  refine ⟨htick.withRx hok hring, hidle.fill, ?_, ?_, ?_⟩
  · show idx = rx.consumer
    rw [hring, hidx, hidle.rx]
  · show rx.cachedCons = rx.consumer + rcvd
    rw [hring, hcached, hidle.rx]
  · show rcvd.toNat ≤ rx.count
    rw [hring]
    exact hle

theorem take_drop_of_prefix {β : Type*} {l l' : List β} {j m : ℕ} (h : l <+: l')
    (hlen : j + m ≤ l.length) : (l'.drop j).take m = (l.drop j).take m := by
  obtain ⟨t, rfl⟩ := h
  rw [List.drop_append_of_le_length (by omega), List.take_append_of_le_length]
  rw [List.length_drop]
  omega

theorem Inv.readDescs (hf : iface.Framed) : ∀ {rcvd j : ℕ} {idx : UInt32} {q : RxQueue},
    Inv iface held received q → gap idx q.rx.consumer = j → j + rcvd ≤ q.rx.count →
      (readDescs iface rcvd idx q).1 =
          ((q.rx.toList iface.ringSize.toNat).drop j).take rcvd ∧
        Inv iface held received (readDescs iface rcvd idx q).2 ∧
        Later iface q (readDescs iface rcvd idx q).2 := by
  intro rcvd
  induction rcvd with
  | zero => exact fun h _ _ => ⟨List.take_zero.symm, h, .refl _⟩
  | succ rcvd ih =>
    intro j idx q h hidx hle
    have hone : (1 : UInt32).toNat = 1 := rfl
    obtain ⟨htick, hlater⟩ := h.tick hf
    have hlen : (q.rx.toList iface.ringSize.toNat).length ≤
        ((q.tick iface).rx.toList iface.ringSize.toNat).length := hlater.rxQueued.length_le
    rw [length_toList, length_toList] at hlen
    have hlt : (q.tick iface).rx.count < 2 ^ 32 := gap_lt _ _
    have hidx' : gap idx (q.tick iface).rx.consumer = j := by rwa [hlater.rxConsumer]
    have hnext : gap (idx + 1) (q.tick iface).rx.consumer = j + 1 := by
      rw [gap_add_left (by omega), hidx', hone]
    obtain ⟨hdescs, hinv, hrest⟩ := ih htick hnext (by omega)
    refine ⟨?_, hinv, hlater.trans hrest⟩
    have hentry : ((q.tick iface).rx.toList iface.ringSize.toNat)[j]? =
        some ((q.tick iface).rx.entry idx) := by
      rw [getElem?_toList (by omega), htick.rx.entry_eq, ← hidx', ← toNat_mod_eq htick.rx.dvd]
    obtain ⟨hj, hget⟩ := List.getElem?_eq_some_iff.mp hentry
    have hsame := take_drop_of_prefix (j := j) (m := rcvd + 1) hlater.rxQueued
      (by rw [length_toList]; omega)
    rw [← hsame, List.drop_eq_getElem_cons hj, List.take_succ_cons, hget, ← hdescs]
    rfl

theorem packet_of_intact {p : XdpDesc × List UInt8} (h : iface.Intact q.bufs p) :
    q.packet p.1 = p := by
  unfold packet
  rw [h.len, h.bytes]

theorem Inv.recvDescs (hf : iface.Framed) {rcvd idx : UInt32} (h : Inv iface held received q)
    (hfill : q.fill.cachedProd = q.fill.producer) (hidx : idx = q.rx.consumer)
    (hcached : q.rx.cachedCons = q.rx.consumer + rcvd) (hle : rcvd.toNat ≤ q.rx.count)
    {descs : List XdpDesc} (hrecv : q.recvDescs iface rcvd idx = (descs, q')) :
    Inv iface (held ++ descs.map q'.packet) (received ++ descs.map q'.packet) q' ∧ q'.Idle := by
  have hgap : gap idx q.rx.consumer = 0 := by rw [hidx, gap_self]
  have hsum : 0 + rcvd.toNat ≤ q.rx.count := by omega
  obtain ⟨hdescs, hread, hlater₁⟩ := h.readDescs hf hgap hsum
  obtain ⟨htick, hlater₂⟩ := hread.tick hf
  have hlater := hlater₁.trans hlater₂
  unfold RxQueue.recvDescs at hrecv
  rcases hr : RxQueue.readDescs iface rcvd.toNat idx q with ⟨descs', q₁⟩
  simp only [hr] at hdescs hread hlater₁ htick hlater₂ hlater hrecv
  cases hrecv
  generalize hq₂ : q₁.tick iface = q₂ at *
  have hshown : gap q₂.rx.cachedCons q₂.rx.consumer = rcvd.toNat := by
    rw [hlater.rxCached, hlater.rxConsumer, hcached, gap_add_left, gap_self, Nat.zero_add]
    rw [gap_self, Nat.zero_add]
    exact rcvd.toNat_lt
  have hcount : rcvd.toNat ≤ q₂.rx.count := by
    have := hlater.rxQueued.length_le
    rw [length_toList, length_toList] at this
    omega
  have htake : descs = (q₂.rx.toList iface.ringSize.toNat).take rcvd.toNat := by
    have hsame := take_drop_of_prefix (j := 0) (m := rcvd.toNat) hlater.rxQueued
      (by rw [length_toList]; omega)
    rw [hdescs, ← hsame]
    rfl
  have hdrop : (q₂.rx.xskRingConsRelease rcvd).toList iface.ringSize.toNat =
      (q₂.rx.toList iface.ringSize.toNat).drop rcvd.toNat := toList_retire htick.rx.dvd hcount
  obtain ⟨queued, hqueued, hlog, hintact⟩ := htick.queued
  have hpackets : descs.map (RxQueue.packet { q₂ with rx := q₂.rx.xskRingConsRelease rcvd }) =
      queued.take rcvd.toNat := by
    rw [htake, ← hqueued, ← List.map_take, List.map_map]
    refine (List.map_congr_left fun p hp => ?_).trans (List.map_id _)
    exact packet_of_intact (q := q₂)
      (hintact p (List.mem_append_left _ (List.mem_of_mem_take hp)))
  rw [hpackets]
  refine ⟨⟨htick.fill, htick.rx.release (by omega), ?_, ⟨queued.drop rcvd.toNat, ?_, ?_, ?_⟩,
    htick.senders⟩, ?_, ?_⟩
  · refine List.Perm.trans (List.perm_iff_count.mpr fun a => ?_) htick.places
    have hsplit := congrArg (fun l => (l.map fun desc => iface.frameOf desc.addr).count a)
      (List.take_append_drop rcvd.toNat (q₂.rx.toList iface.ringSize.toNat))
    have hheld : (queued.take rcvd.toNat).map (fun p => iface.frameOf p.1.addr) =
        ((q₂.rx.toList iface.ringSize.toNat).take rcvd.toNat).map
          fun desc => iface.frameOf desc.addr := by
      rw [← hqueued, ← List.map_take, List.map_map]
      rfl
    simp only [List.map_append, List.count_append] at hsplit
    unfold RxQueue.places
    rw [hdrop, List.map_append, hheld]
    simp only [List.count_append]
    omega
  · rw [List.map_drop, hqueued]
    exact hdrop.symm
  · show q₂.delivered = _
    rw [hlog, List.append_assoc, List.take_append_drop]
  · intro p hp
    refine hintact p ?_
    rw [List.mem_append, List.mem_append] at hp
    rw [List.mem_append]
    rcases hp with hq | hheld | hq
    · exact .inl (List.mem_of_mem_drop hq)
    · exact .inr hheld
    · exact .inl (List.mem_of_mem_take hq)
  · exact hlater.fillCached.trans (hfill.trans hlater.fillProducer.symm)
  · show q₂.rx.cachedCons = q₂.rx.consumer + rcvd
    rw [hlater.rxCached, hlater.rxConsumer, hcached]

theorem Inv.recv (hf : iface.Framed) (h : Inv iface held received q) (hq : q.Idle)
    {maxPkts : UInt32} {ready : Bool} {descs : List XdpDesc}
    (hrecv : q.interfaceRecvSingleQueue iface maxPkts ready = (descs, q')) :
    Inv iface (held ++ descs.map q'.packet) (received ++ descs.map q'.packet) q' ∧ q'.Idle := by
  have hnone : ∀ {rcvd : UInt32} {q : RxQueue}, Inv iface held received q →
      q.fill.cachedProd = q.fill.producer → q.rx.cachedCons = q.rx.consumer + rcvd → rcvd = 0 →
      Inv iface (held ++ [].map q.packet) (received ++ [].map q.packet) q ∧ q.Idle := by
    rintro rcvd q h hfill hcached rfl
    rw [List.map_nil, List.append_nil, List.append_nil]
    exact ⟨h, hfill, hcached.trans (UInt32.add_zero _)⟩
  unfold interfaceRecvSingleQueue at hrecv
  rcases hpeek₁ : q.peekRx iface maxPkts with ⟨rcvd₁, idx₁, q₁⟩
  obtain ⟨h₁, hfill₁, hidx₁, hcached₁, hle₁⟩ := h.peekRx hf hq hpeek₁
  simp only [hpeek₁] at hrecv
  by_cases hzero₁ : rcvd₁ = 0
  swap
  · rw [if_neg hzero₁] at hrecv
    exact h₁.recvDescs hf hfill₁ hidx₁ hcached₁ hle₁ hrecv
  rw [if_pos hzero₁] at hrecv
  obtain ⟨hempty₁, hidle₁⟩ := hnone h₁ hfill₁ hcached₁ hzero₁
  by_cases hready : ready = true
  swap
  · rw [if_neg hready] at hrecv
    cases hrecv
    exact ⟨hempty₁, hidle₁⟩
  rw [if_pos hready] at hrecv
  -- `poll` has seen something, which another look at the ring may show
  rcases hpeek₂ : q₁.peekRx iface maxPkts with ⟨rcvd₂, idx₂, q₂⟩
  obtain ⟨h₂, hfill₂, hidx₂, hcached₂, hle₂⟩ := h₁.peekRx hf hidle₁ hpeek₂
  simp only [hpeek₂] at hrecv
  by_cases hzero₂ : rcvd₂ = 0
  · rw [if_pos hzero₂] at hrecv
    cases hrecv
    exact hnone h₂ hfill₂ hcached₂ hzero₂
  · rw [if_neg hzero₂] at hrecv
    exact h₂.recvDescs hf hfill₂ hidx₂ hcached₂ hle₂ hrecv

/-! ## Releasing -/

theorem Inv.withFill (h : Inv iface held received q) {fill : XskRing UInt64}
    (hok : fill.ProdOk iface.ringSize.toNat)
    (hlist : fill.toList iface.ringSize.toNat = q.fill.toList iface.ringSize.toNat) :
    Inv iface held received { q with fill := fill } := by
  refine ⟨hok, h.rx, ?_, h.queued, h.senders⟩
  have hplaces : RxQueue.places iface { q with fill := fill } = q.places iface := by
    unfold RxQueue.places
    rw [hlist]
  rw [hplaces]
  exact h.places

theorem Inv.count_add_le (h : Inv iface held received q) :
    q.fill.count + held.length ≤ iface.ringSize.toNat := by
  have hlen := h.places.length_eq
  unfold RxQueue.places at hlen
  simp only [List.length_append, List.length_map, length_toList, List.length_range] at hlen
  omega

/-- **Room.** As long as the receiver holds a frame, the fill ring has a place for it. -/
theorem Inv.reserveFill (hf : iface.Framed) {p : XdpDesc × List UInt8}
    (h : Inv iface (p :: held) received q) (hq : q.Idle) {idx : Option UInt32}
    (hreserve : q.reserveFill iface = (idx, q')) :
    idx = some q'.fill.producer ∧ Inv iface (p :: held) received q' ∧
      q'.fill.cachedProd = q'.fill.producer + 1 ∧ q'.rx.cachedCons = q'.rx.consumer := by
  have hone : (1 : UInt32).toNat = 1 := rfl
  obtain ⟨htick, hlater⟩ := h.tick hf
  have hidle := hlater.idle hq
  have hroom : (q.tick iface).fill.count +
      gap (q.tick iface).fill.cachedProd (q.tick iface).fill.producer + (1 : UInt32).toNat ≤
        iface.ringSize.toNat := by
    have := htick.count_add_le
    rw [List.length_cons] at this
    rw [hidle.fill, gap_self]
    omega
  have heq := @XskRing.ProdOk.reserve_eq _ _ _ 1 htick.fill
  have hcached := @XskRing.ProdOk.reserve_cachedProd _ _ _ 1 htick.fill
  have hok := @XskRing.ProdOk.reserve _ _ _ 1 htick.fill
  have hring := @XskRing.reserve_toSharedRing _ (q.tick iface).fill 1
  unfold RxQueue.reserveFill at hreserve
  rcases hr : (q.tick iface).fill.xskRingProdReserve 1 with ⟨idx', fill⟩
  simp only [hr, if_pos hroom] at heq hcached hok hring hreserve
  cases hreserve
  refine ⟨?_, htick.withFill hok (congrArg (SharedRing.toList · _) hring), ?_, hidle.rx⟩
  · show idx = some fill.producer
    rw [hring, heq, hidle.fill]
  · show fill.cachedProd = fill.producer + 1
    rw [hring, hcached, hidle.fill]

theorem Inv.putFill (hf : iface.Framed) {p : XdpDesc × List UInt8}
    (h : Inv iface (p :: held) received q) (hcached : q.fill.cachedProd = q.fill.producer + 1)
    (hrx : q.rx.cachedCons = q.rx.consumer) :
    Inv iface held received (q.putFill iface q.fill.producer p.1.addr) ∧
      (q.putFill iface q.fill.producer p.1.addr).Idle := by
  have hone : (1 : UInt32).toNat = 1 := rfl
  have hcount := h.count_add_le
  rw [List.length_cons] at hcount
  have hgap : gap q.fill.cachedProd q.fill.producer = 1 := by
    rw [hcached, gap_add_left, gap_self, hone]
    rw [gap_self, hone]
    omega
  have hset := h.fill.setEntry_toSharedRing q.fill.producer p.1.addr
  have hstored : Inv iface (p :: held) received
      { q with fill := q.fill.setEntry q.fill.producer p.1.addr } := by
    refine h.withFill (h.fill.setEntry _ _) ?_
    rw [hset]
    exact toList_store h.fill.dvd _ (by rw [gap_self]; omega)
  obtain ⟨htick, hlater⟩ := hstored.tick hf
  unfold RxQueue.putFill
  simp only
  generalize RxQueue.tick iface { q with fill := q.fill.setEntry q.fill.producer p.1.addr } = q₁ at *
  have hproducer : q₁.fill.producer = q.fill.producer := hlater.fillProducer
  have hcached₁ : q₁.fill.cachedProd = q₁.fill.producer + 1 := by
    rw [hproducer, hlater.fillCached]
    exact hcached
  have hgap₁ : gap q₁.fill.cachedProd q₁.fill.producer = 1 := by
    rw [hproducer, hlater.fillCached]
    exact hgap
  have hentry : q₁.fill.slots (q.fill.producer.toNat % iface.ringSize.toNat) = p.1.addr := by
    rw [hlater.fillSlots]
    show (q.fill.setEntry q.fill.producer p.1.addr).toSharedRing.slots _ = _
    rw [hset]
    exact Buffer.set_self ..
  have hlist : (q₁.fill.xskRingProdSubmit 1).toList iface.ringSize.toNat =
      q₁.fill.toList iface.ringSize.toNat ++ [p.1.addr] := by
    have hle := htick.count_add_le
    have hlt := htick.fill.lt
    rw [List.length_cons] at hle
    refine (toList_publish htick.fill.dvd (by omega)).trans ?_
    rw [hone, List.range_one, List.map_singleton, hproducer, Nat.add_zero, hentry]
  refine ⟨⟨htick.fill.submit (by omega), htick.rx, ?_, ?_, htick.senders⟩, hcached₁, ?_⟩
  · refine List.Perm.trans (List.perm_iff_count.mpr fun a => ?_) htick.places
    unfold RxQueue.places
    rw [hlist]
    simp only [List.map_append, List.map_cons, List.map_nil, List.count_append, List.count_cons,
      List.count_nil]
    omega
  · obtain ⟨queued, hqueued, hlog, hintact⟩ := htick.queued
    refine ⟨queued, hqueued, hlog, fun x hx => hintact x ?_⟩
    exact List.mem_append.mpr ((List.mem_append.mp hx).imp_right (List.mem_cons_of_mem _))
  · show q₁.rx.cachedCons = q₁.rx.consumer
    rw [hlater.rxCached, hlater.rxConsumer]
    exact hrx

theorem Inv.releaseFrame (hf : iface.Framed) {p : XdpDesc × List UInt8}
    (h : Inv iface (p :: held) received q) (hq : q.Idle) :
    Inv iface held received (q.releaseFrame iface p.1.addr) ∧
      (q.releaseFrame iface p.1.addr).Idle := by
  rcases hreserve : q.reserveFill iface with ⟨idx, q₁⟩
  obtain ⟨hidx, h₁, hcached, hrx⟩ := Inv.reserveFill hf h hq hreserve
  unfold RxQueue.releaseFrame
  simp only [hreserve, hidx]
  exact Inv.putFill hf h₁ hcached hrx

/-- **Releasing.** Every frame goes back to the fill ring. -/
theorem Inv.release (hf : iface.Framed) : ∀ {packets : List (XdpDesc × List UInt8)} {q : RxQueue},
    Inv iface (packets ++ held) received q → q.Idle →
      Inv iface held received
          (q.interfaceRecvReleaseSingleQueue iface (packets.map fun p => p.1.addr)) ∧
        (q.interfaceRecvReleaseSingleQueue iface (packets.map fun p => p.1.addr)).Idle := by
  intro packets
  induction packets with
  | nil => exact fun h hq => ⟨h, hq⟩
  | cons p packets ih =>
    intro q h hq
    obtain ⟨h₁, hq₁⟩ := Inv.releaseFrame hf h hq
    exact ih h₁ hq₁

theorem Inv.perm (h : Inv iface held received q) {held' : List (XdpDesc × List UInt8)}
    (hperm : held'.Perm held) : Inv iface held' received q := by
  refine ⟨h.fill, h.rx, ((hperm.map _).append_left _).trans h.places, ?_, h.senders⟩
  obtain ⟨queued, hqueued, hlog, hintact⟩ := h.queued
  exact ⟨queued, hqueued, hlog, fun p hp => hintact p ((hperm.append_left _).mem_iff.mp hp)⟩

theorem Inv.withUpcoming (h : Inv iface held received q) (upcoming : List (List RxEvent)) :
    Inv iface held received { q with upcoming := upcoming } :=
  ⟨h.fill, h.rx, h.places, h.queued, h.senders⟩

end RxQueue

/-! ## Runs -/

section

variable {iface : XskInterface} {slots : Buffer UInt64} {rxSlots : Buffer XdpDesc}
  {comp : XskRing UInt64} {bufs : Buffer UInt8} {s s' : RxSide}

theorem XskInterface.Framed.fillRing (hf : iface.Framed) :
    (iface.fillRing slots).ProdOk iface.ringSize.toNat ∧
      (iface.fillRing slots).toList iface.ringSize.toNat = iface.fillAddrs ∧
      (iface.fillRing slots).cachedProd = (iface.fillRing slots).producer := by
  obtain ⟨k, hk, hring⟩ := hf.pow
  have hlen : iface.fillAddrs.length = iface.ringSize.toNat := by
    have := congrArg List.length hf.map_fillAddrs
    rwa [List.length_map, List.length_range] at this
  have hof : UInt32.ofNat iface.fillAddrs.length = iface.ringSize := by
    rw [hlen, UInt32.ofNat_toNat]
  generalize hfresh : (⟨⟨0, 0, slots⟩, 0, iface.ringSize, iface.ringSize - 1, iface.ringSize⟩ :
    XskRing UInt64) = fresh
  have hcount : fresh.count = 0 := by
    rw [← hfresh]
    exact gap_self 0
  have hcached : fresh.cachedProd = fresh.producer := by rw [← hfresh]
  have hok : fresh.ProdOk iface.ringSize.toNat := by
    refine ⟨⟨⟨k, by omega, hring⟩, ?_, by rw [← hfresh]⟩, ?_⟩
    · rw [← hfresh]
      exact UInt32.ofNat_toNat.symm
    · unfold WriterOk
      rw [hcount, hcached, gap_self, ← hfresh]
      show 0 + 0 + (iface.ringSize - 0).toNat ≤ _
      rw [UInt32.sub_zero, Nat.zero_add]
  have hroom : fresh.count + gap fresh.cachedProd fresh.producer + iface.ringSize.toNat ≤
      iface.ringSize.toNat := by
    rw [hcount, hcached, gap_self]
    omega
  have heq := @XskRing.ProdOk.reserve_eq _ _ _ iface.ringSize hok
  have hprod := @XskRing.ProdOk.reserve_cachedProd _ _ _ iface.ringSize hok
  have hres := @XskRing.ProdOk.reserve _ _ _ iface.ringSize hok
  have hshared := @XskRing.reserve_toSharedRing _ fresh iface.ringSize
  unfold XskInterface.fillRing
  rw [hfresh]
  rcases hr : fresh.xskRingProdReserve iface.ringSize with ⟨idx, fill⟩
  simp only [hr, if_pos hroom] at heq hprod hres hshared ⊢
  rw [heq]
  simp only
  have hstored := @XskRing.Sized.setEntries_toSharedRing _ _ iface.fillAddrs _ fresh.cachedProd
    hres.toSized
  have hcounters := @storeAll_counters _ iface.ringSize.toNat iface.fillAddrs fresh.toSharedRing
    fresh.cachedProd
  obtain ⟨hsame, -⟩ := @XskRing.setEntries_cached _ iface.fillAddrs fill fresh.cachedProd
  rw [hshared] at hstored
  have hproducer : (XskRing.setEntries fresh.cachedProd iface.fillAddrs fill).producer =
      fresh.producer := by rw [hstored, hcounters.1]
  refine ⟨hres.setEntries.submit ?_, ?_, ?_⟩
  · rw [hproducer, hsame, hprod, hcached, gap_add_left, gap_self, Nat.zero_add]
    rw [gap_self, Nat.zero_add]
    exact iface.ringSize.toNat_lt
  · show (SharedRing.publish (XskRing.setEntries fresh.cachedProd iface.fillAddrs fill).toSharedRing
      iface.ringSize).toList _ = _
    have hpublish : (SharedRing.publish (storeAll iface.ringSize.toNat fresh.producer iface.fillAddrs
        fresh.toSharedRing) (UInt32.ofNat iface.fillAddrs.length)).toList iface.ringSize.toNat =
          fresh.toList iface.ringSize.toNat ++ iface.fillAddrs :=
      toList_storeAll_publish hok.dvd hok.lt (by rw [hcount, hlen, Nat.zero_add])
    rw [hof, List.length_eq_zero_iff.mp ((length_toList ..).trans hcount),
      List.nil_append] at hpublish
    rw [hstored, hcached, hpublish]
  · show (XskRing.setEntries fresh.cachedProd iface.fillAddrs fill).cachedProd =
      (XskRing.setEntries fresh.cachedProd iface.fillAddrs fill).producer + iface.ringSize
    rw [hproducer, hsame, hprod, hcached]

/-- The invariant of a receiver between two calls. -/
def RxSide.Inv (iface : XskInterface) (s : RxSide) : Prop :=
  s.queue.Inv iface s.held s.received ∧ s.queue.Idle

theorem RxSide.inv_start (hf : iface.Framed) :
    (RxSide.start iface slots rxSlots comp bufs).Inv iface := by
  obtain ⟨hfill, hlist, hcached⟩ := @XskInterface.Framed.fillRing _ slots hf
  obtain ⟨k, hk, hring⟩ := hf.pow
  have hsized : (RxSide.start iface slots rxSlots comp bufs).queue.rx.Sized iface.ringSize.toNat :=
    ⟨⟨k, by omega, hring⟩, UInt32.ofNat_toNat.symm, rfl⟩
  have hcount : (RxSide.start iface slots rxSlots comp bufs).queue.rx.count = 0 := gap_self 0
  have hnone : (RxSide.start iface slots rxSlots comp bufs).queue.rx.toList
      iface.ringSize.toNat = [] := List.length_eq_zero_iff.mp ((length_toList ..).trans hcount)
  refine ⟨⟨hfill, ⟨hsized, ?_, ?_⟩, ?_, ⟨[], hnone.symm, rfl, ?_⟩, rfl⟩, hcached, rfl⟩
  · unfold ReaderOk
    rw [hcount]
    simp [RxSide.start]
  · rw [hcount]
    exact Nat.zero_le _
  · unfold RxQueue.places
    rw [hnone]
    show (((iface.fillRing slots).toList _).map iface.frameOf ++ [] ++ [] ++ []).Perm _
    rw [hlist, hf.map_fillAddrs, List.append_nil, List.append_nil, List.append_nil]
  · intro p hp
    cases hp

theorem RxSide.inv_step (hf : iface.Framed) {call : RxCall} (h : s.Inv iface)
    (hstep : rxStep iface s call = some s') : s'.Inv iface := by
  obtain ⟨hinv, hidle⟩ := h
  have hq : ∀ upcoming, RxQueue.Idle { s.queue with upcoming := upcoming } :=
    fun _ => ⟨hidle.fill, hidle.rx⟩
  unfold rxStep at hstep
  cases call with
  | recv maxPkts ready upcoming =>
    rcases hrecv : RxQueue.interfaceRecvSingleQueue iface { s.queue with upcoming := upcoming }
      maxPkts ready with ⟨descs, q⟩
    simp only [hrecv] at hstep
    cases hstep
    exact (hinv.withUpcoming upcoming).recv hf (hq upcoming) hrecv
  | release packets upcoming =>
    simp only at hstep
    split_ifs at hstep with hsub
    cases hstep
    have hperm : (packets ++ s.held.diff packets).Perm s.held :=
      List.perm_iff_count.mpr fun p => by
        rw [List.count_append, List.count_diff]
        have := hsub.count_le p
        omega
    exact ((hinv.withUpcoming upcoming).perm hperm).release hf (hq upcoming)

/-- Whatever the kernel and the senders do between any two accesses of the receiver, every frame of
the fill ring is in exactly one place; the packets that have been delivered are those that have been
received, in the same order, and those in the receive ring; what the receiver holds is what it has
received; and the completion ring is as the senders have left it. -/
theorem rx_frames_conserved (hf : iface.Framed) {calls : List RxCall} {t : RxSide}
    (hrun : Runs.run (rxStep iface) (.start iface slots rxSlots comp bufs) calls = some t) :
    (t.queue.places iface ++ t.held.map fun p => iface.frameOf p.1.addr).Perm
        (List.range iface.ringSize.toNat) ∧
      (∃ queued, queued.map Prod.fst = t.queue.rx.toList iface.ringSize.toNat ∧
        t.queue.delivered = t.received ++ queued) ∧
      (∀ p ∈ t.held, t.queue.packet p.1 = p) ∧ t.queue.comp = t.queue.senders := by
  obtain ⟨hinv, -⟩ : t.Inv iface :=
    Runs.invariant_run (fun _ _ _ => RxSide.inv_step hf) (RxSide.inv_start hf) hrun
  obtain ⟨queued, hqueued, hlog, hintact⟩ := hinv.queued
  exact ⟨hinv.places, ⟨queued, hqueued, hlog⟩,
    fun p hp => RxQueue.packet_of_intact (hintact p (List.mem_append_right _ hp)), hinv.senders⟩

/-- Two frames to receive into and two to send from. -/
def fourFrames : XskInterface := ⟨8192, 2, 2048⟩

theorem fourFrames_framed : fourFrames.Framed :=
  ⟨⟨1, by omega, rfl⟩, by decide, by decide⟩

set_option maxRecDepth 10000 in
theorem rx_frames_conserved_fourFrames : ∃ t, Runs.run (rxStep fourFrames)
    (.start fourFrames (fun _ => 0) (fun _ => ⟨0, 0, 0⟩) ⟨⟨0, 0, fun _ => 0⟩, 0, 0, 1, 2⟩ fun _ => 0)
    [.recv 64 true [[.take 2, .deliver 1 256 [7, 8, 9]], [.deliver 0 256 [5]]],
      .release [(⟨2304, 3, 0⟩, [7, 8, 9])] []] = some t ∧
    t.received = [(⟨2304, 3, 0⟩, [7, 8, 9])] ∧
    (t.queue.places fourFrames ++ t.held.map fun p => fourFrames.frameOf p.1.addr).Perm
      (List.range 2) := by
  have hrun := fun t => @rx_frames_conserved fourFrames (fun _ => 0) (fun _ => ⟨0, 0, 0⟩)
    ⟨⟨0, 0, fun _ => 0⟩, 0, 0, 1, 2⟩ (fun _ => 0) fourFrames_framed
    [.recv 64 true [[.take 2, .deliver 1 256 [7, 8, 9]], [.deliver 0 256 [5]]],
      .release [(⟨2304, 3, 0⟩, [7, 8, 9])] []] t
  exact ⟨_, rfl, rfl, (hrun _ rfl).1⟩

end

end NetEncryptor

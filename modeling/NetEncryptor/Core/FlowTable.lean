import NetEncryptor.Core.Flow

/-!
# The flow table

A flow keeps its WAN interface until it has sent the interface's window.  `flow_table_get_wan`
knows flows by their two addresses, `flow_table_get_wan_profile` by addresses, ports and protocol;
both kinds of entries share one chained hash table.
-/

namespace NetEncryptor

def flowTimeoutSec : ℕ := 60

/-- What an entry is found by: `ips` if `ip_only_key` is set, `exact` if `profile_wan_pool` is. -/
inductive FlowIdent where
  | ips (srcIp dstIp : UInt32)
  | exact (t : FlowTuple)
  deriving DecidableEq

/-- `struct flow_entry`, but for its key. -/
structure FlowEntry where
  byteCount : UInt32
  currentWan : ℤ
  wrrSlot : ℤ
  lastSeen : ℕ
  deriving DecidableEq

/-- `struct flow_table`, and the counter `next_wan`. -/
structure FlowTable where
  buckets : ChainTable FlowIdent FlowEntry
  wanCount : ℤ
  wanWindowSizes : Buffer UInt32
  nextWan : Int32

def flowTableInit (wanWindowSizes : Option (Buffer UInt32)) (wanCount : ℤ) (nextWan : Int32) :
    FlowTable where
  buckets := ChainTable.empty
  wanCount := wanCount
  wanWindowSizes := wanWindowSizes.getD fun _ => 0
  nextWan := nextWan

def normalizeFlow5tuple (t : FlowTuple) : FlowTuple :=
  if ntohl t.dstIp < ntohl t.srcIp ∨ (ntohl t.srcIp = ntohl t.dstIp ∧ t.dstPort < t.srcPort) then
    t.swap
  else t

def normalizeFlowIps (srcIp dstIp : UInt32) : UInt32 × UInt32 :=
  if ntohl dstIp < ntohl srcIp then (dstIp, srcIp) else (srcIp, dstIp)

/-- The mixing that the hash functions end with. -/
def flowHashMix (hash : UInt32) : UInt32 :=
  let hash := hash ^^^ hash >>> 16
  let hash := hash * 0x85ebca6b
  let hash := hash ^^^ hash >>> 13
  let hash := hash * 0xc2b2ae35
  hash ^^^ hash >>> 16

/-- The hash of a flow, which `flow_hash` takes modulo the size of the table. -/
def flowHashLocalTq (t : FlowTuple) : UInt32 :=
  flowHashMix ((t.srcIp ^^^ t.dstIp) ^^^
    (UInt32.ofNat t.srcPort <<< 16 ||| UInt32.ofNat t.dstPort) ^^^ t.protocol.toUInt32)

def flowHash (t : FlowTuple) : ℕ := (flowHashLocalTq t).toNat % flowTableSize

def flowHashIps (srcIp dstIp : UInt32) : ℕ :=
  (flowHashMix (srcIp ^^^ dstIp)).toNat % flowTableSize

def FlowIdent.hash : FlowIdent → ℕ
  | .ips srcIp dstIp => flowHashIps srcIp dstIp
  | .exact t => flowHash t

/-! ## Choosing an interface -/

/-- The interface, and the counter afterwards.  The negation of the least value is that value. -/
def getNextWan (nextWan : Int32) (wanCount : ℤ) : ℤ × Int32 :=
  if wanCount ≤ 0 then (0, nextWan)
  else
    let wan := if nextWan < 0 then -nextWan else nextWan
    (wan.toInt.tmod wanCount, nextWan + 1)

/-- `none` stands for `-1`. -/
def wanAllowedPos (wanIdx : ℤ) (allowedWans : List ℤ) : Option ℕ :=
  allowedWans.findIdx? fun w => w == wanIdx

/-- `0` for no weights. -/
def weightsSumPositive (allowedWeights : Option (List ℤ)) : ℤ :=
  ((allowedWeights.getD []).map fun w => max w 0).sum

/-- The loop of `wrr_slot_to_wan`, with the weights up to `acc` gone by. -/
def wrrSlotLoop (s : ℤ) : ℤ → List (ℤ × ℤ) → Option ℤ
  | _, [] => none
  | acc, (wan, w) :: rest =>
    if w ≤ 0 then wrrSlotLoop s acc rest
    else if s < acc + w then some wan
    else wrrSlotLoop s (acc + w) rest

/-- For a list of interfaces that is not empty.  The sum with `sumw` is an `int`, which wraps. -/
def wrrSlotToWan (slot : ℤ) (allowedWans : List ℤ) (allowedWeights : Option (List ℤ))
    (sumw : ℤ) : ℤ :=
  match allowedWeights with
  | none => allowedWans.headD 0
  | some weights =>
    if sumw ≤ 0 then allowedWans.headD 0
    else
      let s := ((slot.tmod sumw + sumw).bmod (2 ^ 32)).tmod sumw
      (wrrSlotLoop s 0 (allowedWans.zip weights)).getD (allowedWans.getLastD 0)

/-- The interface, and `g_pkt_wrr_seq` afterwards; for weights, if any, that are as many as the
interfaces and whose sum is an `int`. -/
def flowTablePickWanPerPacket (seq : UInt64) (allowedWans : List ℤ)
    (allowedWeights : Option (List ℤ)) : ℤ × UInt64 :=
  match allowedWans with
  | [] => (0, seq)
  | [wan] => (wan, seq)
  | _ :: _ :: _ =>
    let sumw := weightsSumPositive allowedWeights
    if 0 < sumw then
      (wrrSlotToWan ((seq.toNat : ℤ).tmod sumw) allowedWans allowedWeights sumw, seq + 1)
    else (allowedWans.getD (seq.toNat % allowedWans.length) 0, seq + 1)

namespace FlowTable

/-- `cur_limit`. -/
def limit (ft : FlowTable) (wan : ℤ) : UInt32 :=
  if 0 ≤ wan ∧ wan < ft.wanCount then ft.wanWindowSizes wan.toNat else 0

def touch (ft : FlowTable) (entry : FlowEntry) (now : ℕ) (pktLen : UInt32) : FlowEntry :=
  let byteCount := entry.byteCount + pktLen
  let curLimit := ft.limit entry.currentWan
  if 0 < curLimit ∧ curLimit ≤ byteCount then
    { entry with
      lastSeen := now
      byteCount := 0
      currentWan := (entry.currentWan + 1).tmod ft.wanCount }
  else { entry with lastSeen := now, byteCount := byteCount }

def advanceProfile (entry : FlowEntry) (allowedWans : List ℤ) (allowedWeights : Option (List ℤ)) :
    FlowEntry :=
  let sumw := weightsSumPositive allowedWeights
  if 0 < sumw then
    let wrrSlot := (entry.wrrSlot + 1).tmod sumw
    { entry with
      byteCount := 0
      wrrSlot := wrrSlot
      currentWan := wrrSlotToWan wrrSlot allowedWans allowedWeights sumw }
  else
    let pos := (wanAllowedPos entry.currentWan allowedWans).getD 0
    { entry with
      byteCount := 0
      currentWan := allowedWans.getD ((pos + 1) % allowedWans.length) 0 }

def touchProfile (ft : FlowTable) (entry : FlowEntry) (now : ℕ) (pktLen : UInt32)
    (allowedWans : List ℤ) (allowedWeights : Option (List ℤ)) : FlowEntry :=
  let entry :=
    match wanAllowedPos entry.currentWan allowedWans with
    | some _ => entry
    | none => { entry with currentWan := allowedWans.headD 0, byteCount := 0, wrrSlot := 0 }
  let entry := { entry with lastSeen := now, byteCount := entry.byteCount + pktLen }
  let curLimit := ft.limit entry.currentWan
  if 0 < curLimit ∧ curLimit ≤ entry.byteCount then
    advanceProfile entry allowedWans allowedWeights
  else entry

def store (ft : FlowTable) (ident : FlowIdent) (entry : FlowEntry) : FlowTable :=
  { ft with buckets := ChainTable.put FlowIdent.hash ft.buckets ident entry }

end FlowTable

/-- `wan_idx`, and the table afterwards; `now` is what `get_time_sec` returned, `allocated` whether
`malloc` succeeds. -/
def flowTableGetWan (ft : FlowTable) (now : ℕ) (allocated : Bool) (srcIp dstIp : UInt32)
    (pktLen : UInt32) : ℤ × FlowTable :=
  let ips := normalizeFlowIps srcIp dstIp
  let ident := FlowIdent.ips ips.1 ips.2
  match ChainTable.find FlowIdent.hash ft.buckets ident with
  | some entry =>
    let entry := ft.touch entry now pktLen
    (entry.currentWan, ft.store ident entry)
  | none =>
    if allocated = false then (0, ft)
    else
      let next := getNextWan ft.nextWan ft.wanCount
      let entry : FlowEntry := ⟨pktLen, next.1, 0, now⟩
      (entry.currentWan, { ft with nextWan := next.2 }.store ident entry)

/-- The weights, if any, are as many as the interfaces. -/
def flowTableGetWanProfile (ft : FlowTable) (now : ℕ) (allocated : Bool) (t : FlowTuple)
    (pktLen : UInt32) (allowedWans : List ℤ) (allowedWeights : Option (List ℤ)) : ℤ × FlowTable :=
  match allowedWans with
  | [] => flowTableGetWan ft now allocated t.srcIp t.dstIp pktLen
  | [wan] => (wan, ft)
  | wan :: _ :: _ =>
    let t := normalizeFlow5tuple t
    match ChainTable.find FlowIdent.hash ft.buckets (.exact t) with
    | some entry =>
      let entry := ft.touchProfile entry now pktLen allowedWans allowedWeights
      (entry.currentWan, ft.store (.exact t) entry)
    | none =>
      if allocated = false then (0, ft)
      else
        let sumw := weightsSumPositive allowedWeights
        if 0 < sumw then
          let wrrSlot := (flowHash t : ℤ).tmod sumw
          let currentWan := wrrSlotToWan wrrSlot allowedWans allowedWeights sumw
          (currentWan, ft.store (.exact t) ⟨pktLen, currentWan, wrrSlot, now⟩)
        else
          let next := getNextWan ft.nextWan allowedWans.length
          let currentWan := allowedWans.getD (next.1.toNat % allowedWans.length) wan
          (currentWan, { ft with nextWan := next.2 }.store (.exact t) ⟨pktLen, currentWan, 0, now⟩)

/-- The visit of bucket `i` by `flow_table_gc`. -/
def flowTableGcBucket (ft : FlowTable) (now i : ℕ) : FlowTable :=
  { ft with
    buckets := ft.buckets.sweepChain (fun e => decide (usub now e.2.lastSeen ≤ flowTimeoutSec)) i }

def flowTableGc (ft : FlowTable) (now : ℕ) : FlowTable :=
  (List.range flowTableSize).foldl (fun ft i => flowTableGcBucket ft now i) ft

/-! ## More bytes -/

def FlowEntry.addBytes (entry : FlowEntry) (extraBytes : UInt32) : FlowEntry :=
  { entry with byteCount := entry.byteCount + extraBytes }

/-- The loop over a bucket that can have both entries of a flow: it ends at that of the profile. -/
def addBytesLoop (ips exact : FlowIdent) (extraBytes : UInt32) :
    List (FlowIdent × FlowEntry) → List (FlowIdent × FlowEntry)
  | [] => []
  | e :: es =>
    if e.1 = exact then (e.1, e.2.addBytes extraBytes) :: es
    else if e.1 = ips then (e.1, e.2.addBytes extraBytes) :: addBytesLoop ips exact extraBytes es
    else e :: addBytesLoop ips exact extraBytes es

/-- The loop over a bucket for one entry. -/
def addBytesTo (buckets : ChainTable FlowIdent FlowEntry) (ident : FlowIdent)
    (extraBytes : UInt32) : ChainTable FlowIdent FlowEntry :=
  match ChainTable.find FlowIdent.hash buckets ident with
  | some entry => ChainTable.put FlowIdent.hash buckets ident (entry.addBytes extraBytes)
  | none => buckets

/-- The branch for an entry without `ip_only_key` and `profile_wan_pool` is left out: no function
makes such an entry. -/
def flowTableAddBytes (ft : FlowTable) (t : FlowTuple) (extraBytes : UInt32) : FlowTable :=
  let t := normalizeFlow5tuple t
  let exact := FlowIdent.exact t
  let ips := FlowIdent.ips t.srcIp t.dstIp
  if exact.hash = ips.hash then
    { ft with
      buckets := ft.buckets.set exact.hash
        (addBytesLoop ips exact extraBytes (ft.buckets exact.hash)) }
  else
    { ft with buckets := addBytesTo (addBytesTo ft.buckets exact extraBytes) ips extraBytes }

/-! ## Stamps -/

section

variable (ft : FlowTable) (entry : FlowEntry) (now : ℕ) (pktLen : UInt32) (allowedWans : List ℤ)
  (allowedWeights : Option (List ℤ))

@[simp] theorem touch_lastSeen : (ft.touch entry now pktLen).lastSeen = now := by
  unfold FlowTable.touch
  simp only
  split_ifs
  · rfl
  · rfl

@[simp] theorem advanceProfile_lastSeen :
    (FlowTable.advanceProfile entry allowedWans allowedWeights).lastSeen = entry.lastSeen := by
  unfold FlowTable.advanceProfile
  simp only
  split_ifs
  · rfl
  · rfl

@[simp] theorem touchProfile_lastSeen :
    (ft.touchProfile entry now pktLen allowedWans allowedWeights).lastSeen = now := by
  unfold FlowTable.touchProfile
  simp only
  split_ifs
  · rw [advanceProfile_lastSeen]
  · rfl

end

end NetEncryptor

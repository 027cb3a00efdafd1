import NetEncryptor.Base.Sweep
import NetEncryptor.Core.FlowTable
import NetEncryptor.Core.FragTable

/-!
# Garbage collection

`gc_thread` sweeps the flow table, the pins and the three reassembly tables.  A sweep reads the
clock once; the packet threads use the tables between its visits.  The clock counts nanoseconds in
an `uint64_t`; flows and pins are stamped in seconds.

`gc_removes_iff` says when every sweep removes only what has timed out.
-/

namespace NetEncryptor

open Sweep

def uint64Size : ℕ := 2 ^ 64

def nsPerSec : ℕ := 1000000000

/-! ## Flows -/

/-- A call that looks a flow up, without the time. -/
inductive FlowOp where
  | getWan (allocated : Bool) (srcIp dstIp : UInt32) (pktLen : UInt32)
  | getWanProfile (allocated : Bool) (t : FlowTuple) (pktLen : UInt32) (allowedWans : List ℤ)
      (allowedWeights : Option (List ℤ))

namespace FlowOp

def run (ft : FlowTable) (now : ℕ) : FlowOp → ℤ × FlowTable
  | getWan allocated srcIp dstIp pktLen => flowTableGetWan ft now allocated srcIp dstIp pktLen
  | getWanProfile allocated t pktLen allowedWans allowedWeights =>
    flowTableGetWanProfile ft now allocated t pktLen allowedWans allowedWeights

def ident : FlowOp → Option FlowIdent
  | getWan _ srcIp dstIp _ =>
    some (.ips (normalizeFlowIps srcIp dstIp).1 (normalizeFlowIps srcIp dstIp).2)
  | getWanProfile _ t _ [] _ =>
    some (.ips (normalizeFlowIps t.srcIp t.dstIp).1 (normalizeFlowIps t.srcIp t.dstIp).2)
  | getWanProfile _ _ _ [_] _ => none
  | getWanProfile _ t _ (_ :: _ :: _) _ => some (.exact (normalizeFlow5tuple t))

def allocated : FlowOp → Bool
  | getWan allocated _ _ _ => allocated
  | getWanProfile allocated _ _ _ _ => allocated

/-- The flow whose entry is used or stored: none if there is no memory for a new one. -/
def uses (ft : FlowTable) (op : FlowOp) : Option FlowIdent :=
  op.ident.filter fun ident =>
    (ChainTable.find FlowIdent.hash ft.buckets ident).isSome || op.allocated

end FlowOp

theorem flowTableGetWan_touches (ft : FlowTable) (now : ℕ) (allocated : Bool)
    (srcIp dstIp pktLen : UInt32) :
    Touches FlowIdent.hash FlowEntry.lastSeen now ft.buckets
      (flowTableGetWan ft now allocated srcIp dstIp pktLen).2.buckets
      ((FlowOp.getWan allocated srcIp dstIp pktLen).uses ft) := by
  unfold flowTableGetWan FlowOp.uses
  simp only [FlowOp.ident, FlowOp.allocated]
  cases hfind : ChainTable.find FlowIdent.hash ft.buckets
      (.ips (normalizeFlowIps srcIp dstIp).1 (normalizeFlowIps srcIp dstIp).2) with
  | some entry =>
    simp only [Option.filter, hfind, Option.isSome_some, Bool.true_or, if_true]
    exact .stored _ _ (touch_lastSeen _ _ _ _)
  | none =>
    cases allocated with
    | false =>
      simp only [Option.filter, hfind, Option.isSome_none, Bool.or_false, if_true]
      exact .kept
    | true =>
      simp only [Option.filter, hfind, Option.isSome_none, Bool.false_or, if_true]
      exact .stored _ _ rfl

theorem flowTableGetWanProfile_touches (ft : FlowTable) (now : ℕ) (allocated : Bool) (t : FlowTuple)
    (pktLen : UInt32) (allowedWans : List ℤ) (allowedWeights : Option (List ℤ)) :
    Touches FlowIdent.hash FlowEntry.lastSeen now ft.buckets
      (flowTableGetWanProfile ft now allocated t pktLen allowedWans allowedWeights).2.buckets
      ((FlowOp.getWanProfile allocated t pktLen allowedWans allowedWeights).uses ft) := by
  match allowedWans with
  | [] => exact flowTableGetWan_touches ft now allocated t.srcIp t.dstIp pktLen
  | [wan] => exact .kept
  | wan :: wan' :: wans =>
    unfold flowTableGetWanProfile FlowOp.uses
    simp only [FlowOp.ident, FlowOp.allocated]
    cases hfind : ChainTable.find FlowIdent.hash ft.buckets (.exact (normalizeFlow5tuple t)) with
    | some entry =>
      simp only [Option.filter, hfind, Option.isSome_some, Bool.true_or, if_true]
      exact .stored _ _ (touchProfile_lastSeen _ _ _ _ _ _)
    | none =>
      cases allocated with
      | false =>
        simp only [Option.filter, hfind, Option.isSome_none, Bool.or_false, if_true]
        exact .kept
      | true =>
        simp only [Option.filter, hfind, Option.isSome_none, Bool.false_or, if_true,
          Bool.true_eq_false, if_false]
        split_ifs
        · exact .stored _ _ rfl
        · exact .stored _ _ rfl

theorem FlowOp.touches (ft : FlowTable) (now : ℕ) (op : FlowOp) :
    Touches FlowIdent.hash FlowEntry.lastSeen now ft.buckets (op.run ft now).2.buckets
      (op.uses ft) := by
  cases op with
  | getWan allocated srcIp dstIp pktLen => exact flowTableGetWan_touches ..
  | getWanProfile allocated t pktLen wans weights => exact flowTableGetWanProfile_touches ..

/-- The flow table under `flow_table_gc`. -/
def flowSweep : TimedTable FlowTable FlowOp FlowIdent where
  unit := nsPerSec
  timeout := flowTimeoutSec
  modulus := uint64Size
  size := flowTableSize
  Ok ft := ft.buckets.Unique ∧ ft.buckets.Placed FlowIdent.hash
  entries ft := stamps FlowEntry.lastSeen ft.buckets
  op ft now op := (op.run ft now).2
  uses ft _ op := op.uses ft
  begins _ _ := true
  visit := flowTableGcBucket
  unit_pos := by decide
  ok_op hok now op := (op.touches _ now).ok hok
  ok_visit hok _ _ := ⟨hok.1.sweepChain, hok.2.sweepChain⟩
  mem_op hok he := (FlowOp.touches _ _ _).mem_stamps hok he
  entries_visit {_ now _} _ _ _ :=
    stamps_sweepChain fun stamp => decide (usub now stamp ≤ flowTimeoutSec)

/-! ## Pins -/

/-- The pin table and `crypto_enabled`. -/
structure PinTable where
  cryptoEnabled : Bool
  pins : TcpPolicyPins

/-- A use of the pin table, without the time. -/
inductive PinOp where
  | set (t : FlowTuple) (policyPi : ℤ)
  | lookup (cfg : AppConfig) (ready : Buffer Bool) (t : FlowTuple)
  | remove (t : FlowTuple)
  | clearAll
  | enableCrypto (enabled : Bool)

namespace PinOp

def run (p : PinTable) (now : ℕ) : PinOp → PinTable
  | set t policyPi => { p with pins := tcpPolicyPinSet p.cryptoEnabled p.pins now t policyPi }
  | lookup cfg ready t =>
    { p with pins := (tcpPolicyPinLookup p.cryptoEnabled cfg ready p.pins now t).2 }
  | remove t => { p with pins := tcpPolicyPinRemove p.cryptoEnabled p.pins t }
  | clearAll => { p with pins := ChainTable.empty }
  | enableCrypto enabled => { p with cryptoEnabled := enabled }

/-- The connection whose pin is stored or followed. -/
def uses (p : PinTable) (now : ℕ) : PinOp → Option TcpConnection
  | set t policyPi =>
    if p.cryptoEnabled = true ∧ 0 ≤ policyPi ∧ policyPi < maxCryptoPolicies then some t.pinKey
    else none
  | lookup cfg ready t =>
    (tcpPolicyPinLookup p.cryptoEnabled cfg ready p.pins now t).1.map fun _ => t.pinKey
  | _ => none

theorem touches (p : PinTable) (now : ℕ) (op : PinOp) :
    Touches tcpPolicyPinHash TcpPolicyPin.lastSeenSec now p.pins (op.run p now).pins
      (op.uses p now) := by
  cases op with
  | set t policyPi =>
    simp only [run, uses, tcpPolicyPinSet]
    by_cases hkept : p.cryptoEnabled = false ∨ policyPi < 0 ∨ maxCryptoPolicies ≤ policyPi
    · have hnone : ¬ (p.cryptoEnabled = true ∧ 0 ≤ policyPi ∧ policyPi < maxCryptoPolicies) := by
        rintro ⟨henabled, h₀, hlt⟩
        rcases hkept with h | h | h
        · rw [henabled] at h
          cases h
        · omega
        · omega
      rw [if_pos hkept, if_neg hnone]
      exact .kept
    · rw [not_or, not_or, not_lt, not_le, Bool.not_eq_false] at hkept
      rw [if_neg (by rw [hkept.1]; simp; omega), if_pos hkept]
      exact .stored _ _ rfl
  | lookup cfg ready t =>
    simp only [run, uses, tcpPolicyPinLookup]
    split_ifs
    · exact .kept
    · split
      · exact .kept
      · split_ifs
        · exact .stored _ _ rfl
        · exact .erased _
  | remove t =>
    simp only [run, uses, tcpPolicyPinRemove]
    split_ifs
    · exact .kept
    · exact .erased _
  | clearAll => exact .cleared
  | enableCrypto enabled => exact .kept

end PinOp

/-- The visit of bucket `i` by `tcp_policy_pin_gc`. -/
def tcpPolicyPinGcBucket (p : PinTable) (now i : ℕ) : PinTable :=
  { p with
    pins :=
      p.pins.sweepChain (fun e => decide (usub now e.2.lastSeenSec ≤ tcpPolicyPinTimeoutSec)) i }

/-- **Visiting bucket after bucket** collects the table. -/
theorem foldl_tcpPolicyPinGcBucket {p : PinTable} {now : ℕ}
    (hplaced : p.pins.Placed tcpPolicyPinHash) (hbegin : p.cryptoEnabled = true ∧ now ≠ 0) :
    (List.range flowTableSize).foldl (tcpPolicyPinGcBucket · now) p =
      { p with pins := tcpPolicyPinGc p.cryptoEnabled p.pins now } := by
  have hfold : ∀ (is : List ℕ) (p : PinTable), is.foldl (tcpPolicyPinGcBucket · now) p =
      { p with
        pins := is.foldl (ChainTable.sweepChain fun e =>
          decide (usub now e.2.lastSeenSec ≤ tcpPolicyPinTimeoutSec)) p.pins } := by
    intro is
    induction is with
    | nil => exact fun _ => rfl
    | cons i is ih => exact fun p => ih (tcpPolicyPinGcBucket p now i)
  have hgc : ¬ (p.cryptoEnabled = false ∨ now = 0) := by
    rw [hbegin.1]
    simp [hbegin.2]
  rw [hfold, ChainTable.foldl_sweepChain, tcpPolicyPinGc, if_neg hgc]
  congr 1
  funext j
  split_ifs with hj
  · rfl
  · have hnil : p.pins j = [] := by
      rw [List.eq_nil_iff_forall_not_mem]
      intro e he
      have hlt : tcpPolicyPinHash e.1 < flowTableSize := Nat.mod_lt _ (by decide)
      rw [hplaced j e he] at hlt
      exact hj hlt
    rw [hnil, ChainTable.sweep, hnil, List.filter_nil]

/-- The pin table under `tcp_policy_pin_gc`. -/
def pinSweep : TimedTable PinTable PinOp TcpConnection where
  unit := nsPerSec
  timeout := tcpPolicyPinTimeoutSec
  modulus := uint64Size
  size := flowTableSize
  Ok p := p.pins.Unique ∧ p.pins.Placed tcpPolicyPinHash
  entries p := stamps TcpPolicyPin.lastSeenSec p.pins
  op p now op := op.run p now
  uses p now op := op.uses p now
  begins p now := p.cryptoEnabled && now != 0
  visit := tcpPolicyPinGcBucket
  unit_pos := by decide
  ok_op hok now op := (op.touches _ now).ok hok
  ok_visit hok _ _ := ⟨hok.1.sweepChain, hok.2.sweepChain⟩
  mem_op hok he := (PinOp.touches _ _ _).mem_stamps hok he
  entries_visit {_ now _} _ _ _ :=
    stamps_sweepChain fun stamp => decide (usub now stamp ≤ tcpPolicyPinTimeoutSec)

/-! ## Fragments -/

/-- The visit of entry `i` by `frag_table_gc`. -/
def fragTableGcEntry (ft : FragTable) (now i : ℕ) : FragTable :=
  if (ft i).valid = true ∧ fragTimeoutNs < usub now (ft i).timestampNs then ft.invalidate i else ft

/-- The stamp of an entry, if it is valid. -/
def fragStamps (ft : FragTable) (i : ℕ) : List (ℕ × ℕ) :=
  if (ft i).valid = true then [(i, (ft i).timestampNs)] else []

namespace ReassembleCall

def atTime (c : ReassembleCall) (now : ℕ) : ReassembleCall := { c with now := now }

/-- The slot into which the call stores. -/
def stores (c : ReassembleCall) (layer : SplitLayer) (ft : FragTable) : Option ℕ :=
  if (c.result layer.reassemble ft).ret = 0 then some c.slot else none

end ReassembleCall

section

variable {ft : FragTable} {now i j : ℕ}

theorem fragTableGcEntry_of_ne (h : j ≠ i) : fragTableGcEntry ft now i j = ft j := by
  unfold fragTableGcEntry
  split_ifs
  · exact FragTable.invalidate_of_ne h
  · rfl

theorem fragTableGcEntry_self : fragTableGcEntry ft now i i =
    if (ft i).valid = true ∧ fragTimeoutNs < usub now (ft i).timestampNs then
      { ft i with valid := false }
    else ft i := by
  unfold fragTableGcEntry
  split_ifs
  · exact Buffer.set_self _ _ _
  · rfl

/-- **Visiting entry after entry** collects the table. -/
theorem foldl_fragTableGcEntry (ft : FragTable) (now : ℕ) :
    (List.range fragTableSize).foldl (fragTableGcEntry · now) ft = fragTableGc ft now := by
  have hfold : ∀ n ≤ fragTableSize, (List.range n).foldl (fragTableGcEntry · now) ft =
      fun j => if j < n then fragTableGc ft now j else ft j := by
    intro n
    induction n with
    | zero => exact fun _ => rfl
    | succ n ih =>
      intro hn
      rw [List.range_succ, List.foldl_append, ih (by omega)]
      funext j
      by_cases hj : j = n
      · subst hj
        rw [List.foldl_cons, List.foldl_nil, fragTableGcEntry_self, if_pos (Nat.lt_succ_self _),
          fragTableGc, if_neg (lt_irrefl _)]
        exact if_congr (by rw [and_iff_right (show j < fragTableSize by omega)]) rfl rfl
      · rw [List.foldl_cons, List.foldl_nil, fragTableGcEntry_of_ne hj]
        exact if_congr (by omega) rfl rfl
  rw [hfold _ le_rfl]
  funext j
  by_cases hj : j < fragTableSize
  · exact if_pos hj
  · rw [if_neg hj, fragTableGc, if_neg fun h => hj h.1]

theorem mem_fragStamps {layer : SplitLayer} {c : ReassembleCall} {e : ℕ × ℕ}
    (he : e ∈ fragStamps (c.result layer.reassemble ft).table i) :
    (c.stores layer ft = some e.1 ∧ e.2 = c.now) ∨
      (c.stores layer ft ≠ some e.1 ∧ e ∈ fragStamps ft i) := by
  by_cases hi : i = c.slot
  · subst hi
    have hout := layer.outcome ft c
    unfold ReassembleCall.stores
    generalize c.result layer.reassemble ft = r at hout he ⊢
    unfold fragStamps at he
    cases hout with
    | refused => exact .inr ⟨nofun, he⟩
    | stored h =>
      simp only [Buffer.set_self, h.valid, if_true, List.mem_singleton] at he
      subst he
      exact .inl ⟨rfl, h.timestamp⟩
    | dropped => simp [FragTable.valid_invalidate] at he
    | completed => simp [FragTable.valid_invalidate] at he
  · unfold fragStamps at he ⊢
    rw [result_table_of_ne hi] at he
    refine .inr ⟨fun hstores => ?_, he⟩
    unfold ReassembleCall.stores at hstores
    split_ifs at he hstores
    · rw [List.mem_singleton] at he
      subst he
      exact hi (Option.some.inj hstores).symm
    · cases he

theorem fragStamps_gcEntry : fragStamps (fragTableGcEntry ft now i) j =
    if j = i then (fragStamps ft i).filter fun e => decide (usub now e.2 ≤ fragTimeoutNs)
    else fragStamps ft j := by
  by_cases hj : j = i
  · subst hj
    rw [if_pos rfl]
    unfold fragStamps
    rw [fragTableGcEntry_self]
    by_cases hvalid : (ft j).valid = true
    · by_cases hold : fragTimeoutNs < usub now (ft j).timestampNs
      · simp [hvalid, hold]
      · simp [hvalid, hold, not_lt.mp hold]
    · simp [hvalid]
  · rw [if_neg hj]
    unfold fragStamps
    rw [fragTableGcEntry_of_ne hj]

end

/-- A reassembly table under `frag_table_gc`; the call is given the time.  The sweep tests an entry
and clears it without the mutex of the table: here a visit is one step. -/
def fragSweep (layer : SplitLayer) : TimedTable FragTable ReassembleCall ℕ where
  unit := 1
  timeout := fragTimeoutNs
  modulus := uint64Size
  size := fragTableSize
  Ok _ := True
  entries := fragStamps
  op ft now c := ((c.atTime now).result layer.reassemble ft).table
  uses ft now c := (c.atTime now).stores layer ft
  begins _ _ := true
  visit := fragTableGcEntry
  unit_pos := by decide
  ok_op _ _ _ := trivial
  ok_visit _ _ _ := trivial
  mem_op _ he := mem_fragStamps he
  entries_visit _ _ _ := fragStamps_gcEntry

/-! ## Sweeps and uses interleaved -/

theorem inv_flowStart (sizes : Option (Buffer UInt32)) (wanCount : ℤ) (nextWan : Int32) (clock : ℕ)
    (used : FlowIdent → ℕ) :
    Inv flowSweep (.start (flowTableInit sizes wanCount nextWan) clock used) :=
  inv_start ⟨ChainTable.unique_empty, ChainTable.placed_empty⟩ fun _ => rfl

theorem inv_pinStart (cryptoEnabled : Bool) (clock : ℕ) (used : TcpConnection → ℕ) :
    Inv pinSweep (.start ⟨cryptoEnabled, ChainTable.empty⟩ clock used) :=
  inv_start ⟨ChainTable.unique_empty, ChainTable.placed_empty⟩ fun _ => rfl

theorem inv_fragStart (layer : SplitLayer) (clock : ℕ) (used : ℕ → ℕ) :
    Inv (fragSweep layer) (.start fragTableInit clock used) :=
  inv_start trivial fun _ => rfl

/-- **Every sweep removes only what has timed out** if and only if whatever it visits that was
stamped after it has read the clock has timed out: of the flow table, of the pins, and of the
reassembly tables, in every interleaving with their uses, from any time on. -/
theorem gc_removes_iff (clock : ℕ) :
    (∀ sizes wanCount nextWan used as,
      Runs.StepsMeet (step flowSweep) (RemovesTimedOut flowSweep)
          (.start (flowTableInit sizes wanCount nextWan) clock used) as ↔
        Runs.StepsMeet (step flowSweep) (LaterTimedOut flowSweep)
          (.start (flowTableInit sizes wanCount nextWan) clock used) as) ∧
    (∀ cryptoEnabled used as,
      Runs.StepsMeet (step pinSweep) (RemovesTimedOut pinSweep)
          (.start ⟨cryptoEnabled, ChainTable.empty⟩ clock used) as ↔
        Runs.StepsMeet (step pinSweep) (LaterTimedOut pinSweep)
          (.start ⟨cryptoEnabled, ChainTable.empty⟩ clock used) as) ∧
    ∀ layer used as,
      Runs.StepsMeet (step (fragSweep layer)) (RemovesTimedOut (fragSweep layer))
          (.start fragTableInit clock used) as ↔
        Runs.StepsMeet (step (fragSweep layer)) (LaterTimedOut (fragSweep layer))
          (.start fragTableInit clock used) as := by
  refine ⟨fun _ _ _ _ _ => ?_, fun _ _ _ => ?_, fun _ _ _ => ?_⟩
  · exact stepsMeet_iff (inv_flowStart _ _ _ _ _)
  · exact stepsMeet_iff (inv_pinStart _ _ _)
  · exact stepsMeet_iff (inv_fragStart _ _ _)

/-- Enough for flows: whenever one is looked up during a sweep, it is still the second in which the
sweep has read the clock. -/
theorem flowGc_removes_of_quiet {sizes : Option (Buffer UInt32)} {wanCount : ℤ} {nextWan : Int32}
    {clock : ℕ} {used : FlowIdent → ℕ} {as : List (Action FlowOp)}
    (hmeet : Runs.StepsMeet (step flowSweep) (UsedAtReading flowSweep)
      (.start (flowTableInit sizes wanCount nextWan) clock used) as) :
    Runs.StepsMeet (step flowSweep) (RemovesTimedOut flowSweep)
      (.start (flowTableInit sizes wanCount nextWan) clock used) as :=
  removesTimedOut_of_quiet (inv_flowStart _ _ _ _ _) rfl hmeet

theorem pinGc_removes_of_quiet {cryptoEnabled : Bool} {clock : ℕ} {used : TcpConnection → ℕ}
    {as : List (Action PinOp)}
    (hmeet : Runs.StepsMeet (step pinSweep) (UsedAtReading pinSweep)
      (.start ⟨cryptoEnabled, ChainTable.empty⟩ clock used) as) :
    Runs.StepsMeet (step pinSweep) (RemovesTimedOut pinSweep)
      (.start ⟨cryptoEnabled, ChainTable.empty⟩ clock used) as :=
  removesTimedOut_of_quiet (inv_pinStart _ _ _) rfl hmeet

/-! ## A new flow during a sweep -/

/-- The sweep has read second 100; in second 101 the first packet of a flow has come, whose bucket
is visited next. -/
def newFlowState : State FlowTable FlowIdent where
  table := (flowTableGetWan (flowTableInit none 1 0) 101 true 0x0100000a 0xde9fa8c0 100).2
  clock := 101000000000
  used := Function.update (fun _ => 0) (.ips 0x0100000a 0xde9fa8c0) 101000000000
  sweep := some (100, 0)

def newFlowRun : List (Action FlowOp) :=
  [.begin, .tick 1000000000, .op (.getWan true 0x0100000a 0xde9fa8c0 100)]

theorem step_newFlow :
    step flowSweep ⟨flowTableInit none 1 0, 101000000000, fun _ => 0, some (100, 0)⟩
      (.op (.getWan true 0x0100000a 0xde9fa8c0 100)) = some newFlowState := by
  have huses : flowSweep.uses (flowTableInit none 1 0) 101
      (.getWan true 0x0100000a 0xde9fa8c0 100) = some (.ips 0x0100000a 0xde9fa8c0) := by
    decide +kernel
  have hnow : now flowSweep (⟨flowTableInit none 1 0, 101000000000, fun _ => 0, some (100, 0)⟩ :
      State FlowTable FlowIdent) = 101 := by
    show 101000000000 / 1000000000 = 101
    norm_num
  simp only [step]
  rw [hnow, huses]
  rfl

theorem run_newFlowRun : Runs.run (step flowSweep)
    (.start (flowTableInit none 1 0) 100000000000 fun _ => 0) newFlowRun = some newFlowState := by
  have hclock : 100000000000 + 1000000000 < flowSweep.modulus :=
    show 100000000000 + 1000000000 < 2 ^ 64 by norm_num
  exact Runs.run_cons.mpr ⟨_, rfl, Runs.run_cons.mpr ⟨_, step_tick hclock,
    Runs.run_cons.mpr ⟨_, step_newFlow, rfl⟩⟩⟩

/-- **A flow is removed** at once if its first packet comes in a later second than the reading of
the sweep, and before the visit of its bucket. -/
theorem not_gc_removes_newFlow :
    ¬ Runs.StepsMeet (step flowSweep) (RemovesTimedOut flowSweep)
      (.start (flowTableInit none 1 0) 100000000000 fun _ => 0) (newFlowRun ++ [.visit]) := by
  intro h
  have hvisit := (h.of_concat run_newFlowRun).2
  have hup : TimedOut flowSweep newFlowState (.ips 0x0100000a 0xde9fa8c0, 101) :=
    hvisit rfl _ rfl 0 _ (by decide +kernel) (by decide +kernel)
  have hnot : ¬ TimedOut flowSweep newFlowState (.ips 0x0100000a 0xde9fa8c0, 101) := by
    unfold TimedOut
    decide +kernel
  exact hnot hup

end NetEncryptor

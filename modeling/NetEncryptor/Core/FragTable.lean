import NetEncryptor.Base.Runs
import NetEncryptor.Core.SplitRoundTrip

/-!
# The history of a reassembly table

A table is the object of reassembly calls and of collections, one after the other under its mutex
and with a clock that does not go back.  `SplitLayer.outcome` says once what a call can do, at any
of the three layers: it is refused, it stores a first fragment in its slot, it drops what the slot
holds, or it completes a packet.  From it follows the invariant that links every slot to the
history: what a valid slot holds was stored by the last call that stored into it
(`slotHistory`).
-/

namespace NetEncryptor

/-! ## Calls -/

/-- What a reassembly call is given besides the table; `now` is what `get_time_ns` returns to
it. -/
structure ReassembleCall where
  pktData : Packet
  pktLen : ℕ
  pktId : ℕ
  fragIndex : UInt8
  outBuf : Packet
  outLen : ℕ
  now : ℕ

namespace ReassembleCall

def slot (c : ReassembleCall) : ℕ := c.pktId % fragTableSize

def result (c : ReassembleCall) (reassemble : Reassembler) (ft : FragTable) : Reassembly :=
  reassemble ft c.now c.pktData c.pktLen c.pktId c.fragIndex c.outBuf c.outLen

end ReassembleCall

/-- The layers at which packets are split, each with a table of its own. -/
inductive SplitLayer
  | l2
  | l3
  | l4
  deriving DecidableEq

namespace SplitLayer

def reassemble : SplitLayer → Reassembler
  | l2 => fragTryReassembleL2
  | l3 => fragTryReassemble
  | l4 => fragTryReassembleL4

/-- Where the bytes begin that the layer joins. -/
def bodyOff : SplitLayer → Packet → ℕ
  | l2, _ => wireEthLen
  | l3, pkt => ethHeaderSize + ihlAt pkt ethHeaderSize
  | l4, pkt => ethHeaderSize + ihlAt pkt ethHeaderSize + l4WirePortLen

/-- How many bytes the layer joins. -/
def bodyLen : SplitLayer → Packet → ℕ → ℕ
  | l2, _, pktLen => pktLen - wireEthLen
  | l3, pkt, pktLen => pktLen - ethHeaderSize - ihlAt pkt ethHeaderSize
  | l4, pkt, pktLen => l4PlainLen pkt pktLen

/-- What the layer makes of a stored first fragment and the bytes of a second one. -/
def join : SplitLayer → FragEntry → Packet → ℕ → Packet → Packet × ℕ
  | l2 => joinFragmentsL2
  | l3 => joinFragments
  | l4 => joinFragmentsL4

end SplitLayer

/-- The entry is what the call stores: the bytes of its frame, its id and its time.  At layer 3 the
protocol is a guess. -/
structure StoredBy (layer : SplitLayer) (entry : FragEntry) (c : ReassembleCall) : Prop where
  fragIndex : c.fragIndex = 0
  valid : entry.valid = true
  pktId : entry.pktId = c.pktId
  timestamp : entry.timestampNs = c.now
  ethHdr : ∀ j < ethHeaderSize, entry.ethHdr j = c.pktData j
  ipHdrLen : entry.ipHdrLen = ihlAt c.pktData ethHeaderSize
  dataLen : entry.dataLen = layer.bodyLen c.pktData c.pktLen
  data : ∀ k < entry.dataLen, entry.data k = c.pktData (layer.bodyOff c.pktData + k)
  origProto : layer ≠ .l3 → entry.origProto = c.pktData ipv4ProtoOff

theorem StoredBy.of_pending {layer : SplitLayer} {old entry : FragEntry} {c : ReassembleCall}
    {ip : Packet} {proto : UInt8}
    (h : fragStorePending old c.pktId c.pktData ip (ihlAt c.pktData ethHeaderSize) proto
      (c.pktData.shift (layer.bodyOff c.pktData)) (layer.bodyLen c.pktData c.pktLen) c.now =
        some entry)
    (h₀ : c.fragIndex = 0) (hproto : layer ≠ .l3 → proto = c.pktData ipv4ProtoOff) :
    StoredBy layer entry c := by
  unfold fragStorePending at h
  split at h
  · cases h
  obtain rfl := Option.some.inj h
  refine ⟨h₀, rfl, rfl, rfl, fun j hj => ?_, rfl, rfl, fun k hk => ?_, hproto⟩
  · show Buffer.copy _ 0 c.pktData 0 14 j = _
    rw [Buffer.copy_of_mem (Nat.zero_le j) (by rwa [Nat.zero_add]), Nat.zero_add, Nat.sub_zero]
  · show Buffer.copy _ 0 _ 0 _ k = _
    rw [Buffer.copy_of_mem (Nat.zero_le k) (by rwa [Nat.zero_add]), Nat.zero_add, Nat.sub_zero,
      Buffer.shift_apply]

/-- What a call can do to the table, and what it returns then. -/
inductive CallOutcome (layer : SplitLayer) (ft : FragTable) (c : ReassembleCall) :
    Reassembly → Prop
  | refused : CallOutcome layer ft c ⟨-1, ft, c.outBuf, c.outLen⟩
  /-- A first fragment replaces what its slot holds. -/
  | stored {entry : FragEntry} (h : StoredBy layer entry c) :
      CallOutcome layer ft c ⟨0, ft.set c.slot entry, c.outBuf, c.outLen⟩
  /-- A second fragment comes too late or is too long. -/
  | dropped (h₁ : c.fragIndex = 1) :
      CallOutcome layer ft c ⟨-1, ft.invalidate c.slot, c.outBuf, c.outLen⟩
  /-- A second fragment meets the first one. -/
  | completed (h₁ : c.fragIndex = 1) (hvalid : (ft c.slot).valid = true)
      (hid : (ft c.slot).pktId = c.pktId)
      (htime : usub c.now (ft c.slot).timestampNs ≤ fragTimeoutNs) {out : Packet × ℕ}
      (hout : out = layer.join (ft c.slot) (c.pktData.shift (layer.bodyOff c.pktData))
        (layer.bodyLen c.pktData c.pktLen) c.outBuf) :
      CallOutcome layer ft c ⟨1, ft.invalidate c.slot, out.1, out.2⟩

section

variable {ft : FragTable} {c : ReassembleCall}

theorem CallOutcome.second {layer : SplitLayer} {tooLong : Prop} [Decidable tooLong]
    (h₁ : c.fragIndex = 1) :
    CallOutcome layer ft c
      (if (ft c.slot).valid = false ∨ (ft c.slot).pktId ≠ c.pktId then ⟨-1, ft, c.outBuf, c.outLen⟩
      else if fragTimeoutNs < usub c.now (ft c.slot).timestampNs ∨ tooLong then
        ⟨-1, ft.invalidate c.slot, c.outBuf, c.outLen⟩
      else
        let out := layer.join (ft c.slot) (c.pktData.shift (layer.bodyOff c.pktData))
          (layer.bodyLen c.pktData c.pktLen) c.outBuf
        ⟨1, ft.invalidate c.slot, out.1, out.2⟩) := by
  split
  · exact .refused
  rename_i hent
  split
  · exact .dropped h₁
  rename_i hlate
  rw [not_or] at hent hlate
  exact .completed h₁ (Bool.eq_true_of_not_eq_false hent.1) (not_not.mp hent.2)
    (not_lt.mp hlate.1) rfl

theorem fragTryReassembleL2_outcome :
    CallOutcome .l2 ft c (c.result fragTryReassembleL2 ft) := by
  unfold ReassembleCall.result fragTryReassembleL2
  simp only
  split
  · exact .refused
  split
  · rename_i h₀
    split
    · exact .refused
    split
    · exact .refused
    · rename_i hpend
      exact .stored (.of_pending hpend h₀ fun _ => rfl)
  split
  · rename_i h₁
    exact .second h₁
  · exact .refused

theorem fragTryReassemble_outcome : CallOutcome .l3 ft c (c.result fragTryReassemble ft) := by
  unfold ReassembleCall.result fragTryReassemble
  simp only
  cases hreq : fragRequireIpv4 c.pktData c.pktLen with
  | none => exact .refused
  | some ihl =>
    obtain ⟨-, rfl, -⟩ := fragRequireIpv4_eq_some_iff.mp hreq
    simp only
    split
    · rename_i h₀
      split
      · exact .refused
      split
      · exact .refused
      · rename_i hpend
        exact .stored (.of_pending hpend h₀ fun h => absurd rfl h)
    split
    · rename_i h₁
      exact .second h₁
    · exact .refused

theorem fragTryReassembleL4_outcome :
    CallOutcome .l4 ft c (c.result fragTryReassembleL4 ft) := by
  unfold ReassembleCall.result fragTryReassembleL4
  simp only
  split
  · exact .refused
  split
  · rename_i h₀
    split
    · exact .refused
    · rename_i hpend
      exact .stored (.of_pending hpend h₀ fun _ => rfl)
  split
  · rename_i h₁
    exact .second h₁
  · exact .refused

/-- **The calls.** Every call has one of the four outcomes. -/
theorem SplitLayer.outcome (layer : SplitLayer) (ft : FragTable) (c : ReassembleCall) :
    CallOutcome layer ft c (c.result layer.reassemble ft) := by
  cases layer with
  | l2 => exact fragTryReassembleL2_outcome
  | l3 => exact fragTryReassemble_outcome
  | l4 => exact fragTryReassembleL4_outcome

variable {layer : SplitLayer}

theorem FragTable.invalidate_of_ne {i j : ℕ} (h : i ≠ j) : ft.invalidate j i = ft i :=
  Buffer.set_of_ne h

theorem FragTable.valid_invalidate (i : ℕ) : (ft.invalidate i i).valid = false := by
  unfold FragTable.invalidate
  rw [Buffer.set_self]

theorem result_table_of_ne {i : ℕ} (h : i ≠ c.slot) :
    (c.result layer.reassemble ft).table i = ft i := by
  have hout := layer.outcome ft c
  generalize c.result layer.reassemble ft = r at hout ⊢
  cases hout with
  | refused => rfl
  | stored _ => exact Buffer.set_of_ne h
  | dropped _ => exact FragTable.invalidate_of_ne h
  | completed => exact FragTable.invalidate_of_ne h

theorem SplitLayer.reassemble_empty_ret (layer : SplitLayer) {now pktLen pktId outLen : ℕ}
    {pkt out : Packet} {fragIndex : UInt8} :
    (layer.reassemble fragTableInit now pkt pktLen pktId fragIndex out outLen).ret ≠ 1 := by
  have hout := layer.outcome fragTableInit ⟨pkt, pktLen, pktId, fragIndex, out, outLen, now⟩
  unfold ReassembleCall.result at hout
  generalize layer.reassemble fragTableInit now pkt pktLen pktId fragIndex out outLen = r at hout ⊢
  have hrefused : (-1 : ℤ) ≠ 1 := by decide
  cases hout with
  | refused => exact hrefused
  | stored _ => exact zero_ne_one
  | dropped _ => exact hrefused
  | completed _ hvalid => exact absurd hvalid Bool.false_ne_true

theorem result_table_of_refused (h₀ : c.fragIndex = 0)
    (hret : (c.result layer.reassemble ft).ret = -1) :
    (c.result layer.reassemble ft).table = ft := by
  have hout := layer.outcome ft c
  generalize c.result layer.reassemble ft = r at hout hret ⊢
  cases hout with
  | refused => rfl
  | stored _ => simp at hret
  | dropped h₁ => rw [h₀] at h₁; exact absurd h₁ (by decide)
  | completed => simp at hret

end

/-! ## Histories -/

/-- What happens to a table: a reassembly call, or a collection at a time. -/
inductive TableEvent
  | reassemble (c : ReassembleCall)
  | gc (now : ℕ)

structure FragTableState where
  table : FragTable
  clock : ℕ

def FragTableState.init : FragTableState := ⟨fragTableInit, 0⟩

/-- One event; `none` when its time is before that of the last one. -/
def fragTableStep (layer : SplitLayer) (s : FragTableState) : TableEvent → Option FragTableState
  | .reassemble c =>
    if c.now < s.clock then none
    else some ⟨(c.result layer.reassemble s.table).table, c.now⟩
  | .gc now => if now < s.clock then none else some ⟨fragTableGc s.table now, now⟩

/-- The event is the given call, which stores its fragment. -/
def StoresFirst (layer : SplitLayer) (first : ReassembleCall) (s : FragTableState)
    (e : TableEvent) : Prop :=
  e = .reassemble first ∧ (first.result layer.reassemble s.table).ret = 0

/-- The event neither stores into the slot, nor completes a packet from it, nor changes it. -/
structure LeavesSlot (layer : SplitLayer) (i : ℕ) (s : FragTableState) (e : TableEvent) :
    Prop where
  notUsed : ∀ c, e = .reassemble c → c.slot = i → (c.result layer.reassemble s.table).ret = -1
  unchanged : ∀ s' ∈ fragTableStep layer s e, s'.table i = s.table i

/-- The call is the last one of the history that stored into the slot, and nothing has happened to
the slot since. -/
def LastStore (layer : SplitLayer) (as : List TableEvent) (i : ℕ) (first : ReassembleCall) : Prop :=
  first.slot = i ∧
    Runs.Since (fragTableStep layer) (StoresFirst layer first) (LeavesSlot layer i)
      FragTableState.init as

/-- Every valid slot holds what the last call that stored into it has stored. -/
def SlotHistory (layer : SplitLayer) (as : List TableEvent) (s : FragTableState) : Prop :=
  ∀ i, (s.table i).valid = true → ∃ first, LastStore layer as i first ∧
    StoredBy layer (s.table i) first ∧ first.now ≤ s.clock

section

variable {layer : SplitLayer} {as : List TableEvent} {s s' : FragTableState}

theorem fragTableStep_reassemble {c : ReassembleCall} :
    fragTableStep layer s (.reassemble c) = some s' ↔
      s.clock ≤ c.now ∧ s' = ⟨(c.result layer.reassemble s.table).table, c.now⟩ := by
  show (if _ then _ else _) = _ ↔ _
  split_ifs with h
  · exact iff_of_false (by simp) fun h' => absurd h'.1 (by omega)
  · simp [not_lt.mp h, eq_comm]

theorem fragTableStep_gc {now : ℕ} :
    fragTableStep layer s (.gc now) = some s' ↔
      s.clock ≤ now ∧ s' = ⟨fragTableGc s.table now, now⟩ := by
  show (if _ then _ else _) = _ ↔ _
  split_ifs with h
  · exact iff_of_false (by simp) fun h' => absurd h'.1 (by omega)
  · simp [not_lt.mp h, eq_comm]

theorem clock_le_of_step {e : TableEvent} (h : fragTableStep layer s e = some s') :
    s.clock ≤ s'.clock := by
  cases e with
  | reassemble c =>
    obtain ⟨hle, rfl⟩ := fragTableStep_reassemble.mp h
    exact hle
  | gc now =>
    obtain ⟨hle, rfl⟩ := fragTableStep_gc.mp h
    exact hle

theorem LastStore.later {i : ℕ} {first : ReassembleCall} {e : TableEvent}
    (h : LastStore layer as i first)
    (hrun : Runs.run (fragTableStep layer) FragTableState.init as = some s)
    (he : LeavesSlot layer i s e) : LastStore layer (as ++ [e]) i first :=
  ⟨h.1, h.2.later hrun he⟩

theorem LastStore.mem {i : ℕ} {first : ReassembleCall} (h : LastStore layer as i first) :
    .reassemble first ∈ as := by
  obtain ⟨-, as₁, e, as₂, s₁, s₂, rfl, -, ⟨rfl, -⟩, -⟩ := h
  simp

theorem fragTableGc_of_valid {ft : FragTable} {now i : ℕ}
    (h : (fragTableGc ft now i).valid = true) : fragTableGc ft now i = ft i := by
  unfold fragTableGc at h ⊢
  split_ifs at h ⊢
  rfl

/-- The step: an event that leaves a slot valid has left the slot alone or stored into it. -/
theorem SlotHistory.step {e : TableEvent}
    (hrun : Runs.run (fragTableStep layer) FragTableState.init as = some s)
    (h : SlotHistory layer as s) (hstep : fragTableStep layer s e = some s') :
    SlotHistory layer (as ++ [e]) s' := by
  intro i hi
  have hclock := clock_le_of_step hstep
  -- a slot that is left alone was valid before, and its history goes on
  have hkeep : LeavesSlot layer i s e → ∃ first, LastStore layer (as ++ [e]) i first ∧
      StoredBy layer (s'.table i) first ∧ first.now ≤ s'.clock := fun hleaves => by
    rw [hleaves.unchanged s' hstep] at hi ⊢
    obtain ⟨first, hlast, hstored, hle⟩ := h i hi
    exact ⟨first, hlast.later hrun hleaves, hstored, hle.trans hclock⟩
  cases e with
  | gc now =>
    apply hkeep
    obtain ⟨-, rfl⟩ := fragTableStep_gc.mp hstep
    refine ⟨fun _ h => (nomatch h), fun s'' hs'' => ?_⟩
    obtain rfl := Option.some.inj (hstep.symm.trans hs'')
    exact fragTableGc_of_valid hi
  | reassemble c =>
    obtain ⟨-, rfl⟩ := fragTableStep_reassemble.mp hstep
    by_cases hslot : i = c.slot
    · subst hslot
      have hout := layer.outcome s.table c
      generalize hr : c.result layer.reassemble s.table = r at hout hi hstep ⊢
      cases hout with
      | refused =>
        rw [hr] at hkeep
        refine hkeep ⟨fun c' h _ => ?_, fun s'' hs'' => ?_⟩
        · obtain rfl := TableEvent.reassemble.inj h
          rw [hr]
        · obtain rfl := Option.some.inj (hstep.symm.trans hs'')
          rfl
      | stored hstored =>
        refine ⟨c, ⟨rfl, .now hrun ⟨rfl, by rw [hr]⟩ hstep⟩, ?_, le_rfl⟩
        show StoredBy layer (Buffer.set _ c.slot _ c.slot) c
        rwa [Buffer.set_self]
      | dropped => exact absurd hi (by simp [FragTable.valid_invalidate])
      | completed => exact absurd hi (by simp [FragTable.valid_invalidate])
    · refine hkeep ⟨fun c' h hc' => ?_, fun s'' hs'' => ?_⟩
      · obtain rfl := TableEvent.reassemble.inj h
        exact absurd hc'.symm hslot
      · obtain rfl := Option.some.inj (hstep.symm.trans hs'')
        exact result_table_of_ne hslot

/-- **The history invariant.** It holds after every history of a table. -/
theorem slotHistory (hrun : Runs.run (fragTableStep layer) FragTableState.init as = some s) :
    SlotHistory layer as s :=
  Runs.history (fun _ hi => absurd hi Bool.false_ne_true)
    (fun _ _ _ _ hrun h hstep => h.step hrun hstep) hrun

/-- A call that completes a packet joins its fragment to the last one that was stored in its slot,
which has the same packet id and is not older than the timeout. -/
theorem completed_lastStore {c : ReassembleCall}
    (hrun : Runs.run (fragTableStep layer) FragTableState.init as = some s)
    (hnow : s.clock ≤ c.now) (hret : (c.result layer.reassemble s.table).ret = 1) :
    c.fragIndex = 1 ∧ ∃ first, LastStore layer as c.slot first ∧ first.pktId = c.pktId ∧
      (first.now ≤ c.now ∧ c.now - first.now ≤ fragTimeoutNs) ∧
      StoredBy layer (s.table c.slot) first ∧
      ∃ out, out = layer.join (s.table c.slot) (c.pktData.shift (layer.bodyOff c.pktData))
          (layer.bodyLen c.pktData c.pktLen) c.outBuf ∧
        c.result layer.reassemble s.table = ⟨1, s.table.invalidate c.slot, out.1, out.2⟩ := by
  have hout := layer.outcome s.table c
  generalize c.result layer.reassemble s.table = r at hout hret ⊢
  cases hout with
  | refused => simp at hret
  | stored _ => simp at hret
  | dropped _ => simp at hret
  | completed h₁ hvalid hid htime hjoin =>
    obtain ⟨first, hlast, hstored, hle⟩ := slotHistory hrun c.slot hvalid
    rw [hstored.timestamp, usub_of_le (hle.trans hnow)] at htime
    exact ⟨h₁, first, hlast, hstored.pktId.symm.trans hid, ⟨hle.trans hnow, htime⟩, hstored, _,
      hjoin, rfl⟩

end

/-! ## Layer 4 -/

/-- The shape of what `crypto_layer4_decrypt_fragment` returns. -/
structure ReassembleCall.IsL4 (c : ReassembleCall) : Prop where
  ihl_ge : 20 ≤ ihlAt c.pktData ethHeaderSize
  len_ge : ethHeaderSize + ihlAt c.pktData ethHeaderSize + l4WirePortLen ≤ c.pktLen
  len_le : c.pktLen ≤ reassembleMax

/-- The output is the first fragment's bytes and then the second one's, behind an IP header as long
as the first one's. -/
structure JoinsL4 (first second : ReassembleCall) (r : Reassembly) : Prop where
  outLen : r.outLen = ethHeaderSize + ihlAt first.pktData ethHeaderSize +
    l4PlainLen first.pktData first.pktLen + l4PlainLen second.pktData second.pktLen
  firstBytes : ∀ k < l4PlainLen first.pktData first.pktLen,
    r.outBuf (ethHeaderSize + ihlAt first.pktData ethHeaderSize + k) =
      first.pktData (SplitLayer.l4.bodyOff first.pktData + k)
  secondBytes : ∀ k < l4PlainLen second.pktData second.pktLen,
    r.outBuf (ethHeaderSize + ihlAt first.pktData ethHeaderSize +
        l4PlainLen first.pktData first.pktLen + k) =
      second.pktData (SplitLayer.l4.bodyOff second.pktData + k)

/-- The fragment is as long as the shortest transport header of its protocol. -/
def HeaderFits (c : ReassembleCall) : Prop :=
  (if c.pktData ipv4ProtoOff = 6 then 20 else 8) ≤ l4PlainLen c.pktData c.pktLen

instance (c : ReassembleCall) : Decidable (HeaderFits c) := inferInstanceAs (Decidable (_ ≤ _))

theorem restoredTh_le_iff {data : Packet} {proto : UInt8} {n : ℕ} :
    restoredTh data proto n ≤ n ↔ (if proto = 6 then 20 else 8) ≤ n := by
  unfold restoredTh getTransportHdrSize
  simp only
  split_ifs <;> simp only [Option.getD_some, Option.getD_none]
  all_goals omega

section

variable {first second : ReassembleCall} {entry : FragEntry}

/-- A joined packet is made of the two fragments exactly when the first one has room for the
header that the join restores. -/
theorem joinsL4_iff {r : Reassembly} (hfirst : first.IsL4) (he : StoredBy .l4 entry first)
    (hout : (r.outBuf, r.outLen) = joinFragmentsL4 entry
      (second.pktData.shift (SplitLayer.l4.bodyOff second.pktData))
      (l4PlainLen second.pktData second.pktLen) second.outBuf) :
    JoinsL4 first second r ↔ HeaderFits first := by
  have heth : ethHeaderSize = 14 := rfl
  have h₂₀ := hfirst.ihl_ge
  have hdata := he.data
  rw [joinFragmentsL4_eq, Prod.mk.injEq, he.ipHdrLen] at hout
  obtain ⟨hbuf, hlen⟩ := hout
  have hn : entry.dataLen = l4PlainLen first.pktData first.pktLen := he.dataLen
  have hfits : HeaderFits first ↔ joinedLenL4 entry = entry.dataLen := by
    unfold HeaderFits joinedLenL4
    rw [← he.origProto (by decide), ← hn, max_eq_right_iff,
      restoredTh_le_iff]
  rw [hfits]
  refine ⟨fun h => ?_, fun hjoined => ?_⟩
  · have := h.outLen
    omega
  rw [hjoined] at hbuf hlen
  -- the patch of the header does not reach what stands behind it
  have hbody : ∀ j, ethHeaderSize + ihlAt first.pktData ethHeaderSize ≤ j →
      r.outBuf j = joinedL4 entry (second.pktData.shift (SplitLayer.l4.bodyOff second.pktData))
        (l4PlainLen second.pktData second.pktLen) second.outBuf j := fun j hj => by
    rw [hbuf]
    exact patchIpv4_of_ne (by omega) (by omega) (by omega) (by omega)
  refine ⟨?_, fun k hk => ?_, fun k hk => ?_⟩
  · rw [hlen, hn]
    rfl
  · rw [hbody _ (by omega)]
    unfold joinedL4
    rw [hjoined, he.ipHdrLen, show (14 : ℕ) = ethHeaderSize from rfl, Buffer.copy_of_lt (by omega),
      Buffer.copy_add (by omega), Nat.zero_add, hdata k (by omega)]
  · rw [hbody _ (by omega)]
    unfold joinedL4
    rw [hjoined, he.ipHdrLen, hn, show (14 : ℕ) = ethHeaderSize from rfl, Buffer.copy_add hk,
      Nat.zero_add, Buffer.shift_apply]

end

/-- **The layer-4 table.** After any history, a refused first fragment leaves the table as it is, a
call touches no slot but its own, and a call that completes a packet has the index `1` and uses up
the last fragment that was stored in its slot, which has the same id and is not older than the
timeout; what it puts out is made of the two fragments exactly when the first one has room for the
header that is restored. -/
theorem fragTryReassembleL4_history {as : List TableEvent} {s : FragTableState}
    {c : ReassembleCall} (hrun : Runs.run (fragTableStep .l4) FragTableState.init as = some s)
    (hshape : ∀ c', .reassemble c' ∈ as → c'.IsL4) (hnow : s.clock ≤ c.now) :
    let r := c.result fragTryReassembleL4 s.table
    (c.fragIndex = 0 → r.ret = -1 → r.table = s.table) ∧
    (∀ i ≠ c.slot, r.table i = s.table i) ∧
    (r.ret = 1 → c.fragIndex = 1 ∧ (r.table c.slot).valid = false ∧
      ∃ first, LastStore .l4 as c.slot first ∧ first.fragIndex = 0 ∧ first.pktId = c.pktId ∧
        (first.now ≤ c.now ∧ c.now - first.now ≤ fragTimeoutNs) ∧
        (JoinsL4 first c r ↔ HeaderFits first)) := by
  have hrefused : c.fragIndex = 0 → (c.result SplitLayer.l4.reassemble s.table).ret = -1 →
    (c.result SplitLayer.l4.reassemble s.table).table = s.table := result_table_of_refused
  have hframe : ∀ i ≠ c.slot, (c.result SplitLayer.l4.reassemble s.table).table i = s.table i :=
    fun _ => result_table_of_ne
  refine ⟨hrefused, hframe, fun hret => ?_⟩
  obtain ⟨h₁, first, hlast, hid, htime, hstored, out, hjoin, hr⟩ := completed_lastStore hrun hnow hret
  refine ⟨h₁, ?_, first, hlast, hstored.fragIndex, hid, htime, ?_⟩
  · show ((c.result SplitLayer.l4.reassemble s.table).table c.slot).valid = false
    rw [hr]
    exact FragTable.valid_invalidate c.slot
  · exact joinsL4_iff (hshape first hlast.mem) hstored ((congrArg (fun r : Reassembly =>
      (r.outBuf, r.outLen)) hr).trans hjoin)

theorem run_singleton {layer : SplitLayer} {c : ReassembleCall} :
    Runs.run (fragTableStep layer) FragTableState.init [.reassemble c] =
      some ⟨(c.result layer.reassemble fragTableInit).table, c.now⟩ :=
  Runs.run_cons.mpr ⟨_, fragTableStep_reassemble.mpr ⟨Nat.zero_le _, rfl⟩, rfl⟩

theorem LastStore.eq_of_singleton {layer : SplitLayer} {c first : ReassembleCall} {i : ℕ}
    (h : LastStore layer [.reassemble c] i first) : first = c :=
  TableEvent.reassemble.inj (List.mem_singleton.mp h.mem)

/-- A fragment of a UDP datagram, eight bytes long, as one call at a time. -/
def pingCall (fragIndex : UInt8) (now : ℕ) : ReassembleCall :=
  ⟨pingFrame, 46, 7, fragIndex, fun _ => 0, 0, now⟩

theorem fragTryReassembleL4_history_ping :
    ∃ s, Runs.run (fragTableStep .l4) FragTableState.init [.reassemble (pingCall 0 1000)] = some s ∧
      ((pingCall 1 2000).result fragTryReassembleL4 s.table).ret = 1 ∧
      ∃ first, LastStore .l4 [.reassemble (pingCall 0 1000)] 7 first ∧
        JoinsL4 first (pingCall 1 2000) ((pingCall 1 2000).result fragTryReassembleL4 s.table) := by
  have hshape : ∀ c', .reassemble c' ∈ [TableEvent.reassemble (pingCall 0 1000)] → c'.IsL4 := by
    intro c' h
    obtain rfl := TableEvent.reassemble.inj (List.mem_singleton.mp h)
    exact ⟨by decide, by decide, by decide⟩
  have hret : ((pingCall 1 2000).result fragTryReassembleL4
      ((pingCall 0 1000).result fragTryReassembleL4 fragTableInit).table).ret = 1 := by decide
  obtain ⟨-, -, first, hlast, -, -, -, hjoins⟩ :=
    (fragTryReassembleL4_history run_singleton hshape (by decide)).2.2 hret
  refine ⟨_, run_singleton, hret, first, hlast, hjoins.mpr ?_⟩
  rw [hlast.eq_of_singleton]
  decide

/-- A TCP fragment of four bytes, as one call at a time. -/
def shortCall (fragIndex : UInt8) (now : ℕ) : ReassembleCall where
  pktData := packetOf [2, 0, 0, 0, 0, 2, 2, 0, 0, 0, 0, 1, 8, 0, 0x45, 0, 0, 28, 18, 52, 64, 0, 64, 6,
    0, 0, 10, 0, 0, 1, 10, 0, 0, 2, 19, 136, 19, 137, 1, 2, 3, 4]
  pktLen := 42
  pktId := 7
  fragIndex := fragIndex
  outBuf := fun _ => 0
  outLen := 0
  now := now

/-- The join puts out twenty bytes of the first fragment, which has only four. -/
theorem not_joinsL4_shortCall :
    (shortCall 0 1000).IsL4 ∧ (shortCall 1 2000).IsL4 ∧
    ∃ s, Runs.run (fragTableStep .l4) FragTableState.init [.reassemble (shortCall 0 1000)] =
        some s ∧ s.clock ≤ (shortCall 1 2000).now ∧
      ((shortCall 1 2000).result fragTryReassembleL4 s.table).ret = 1 ∧
      ¬ ∃ first, LastStore .l4 [.reassemble (shortCall 0 1000)] (shortCall 1 2000).slot first ∧
        JoinsL4 first (shortCall 1 2000)
          ((shortCall 1 2000).result fragTryReassembleL4 s.table) := by
  refine ⟨⟨by decide, by decide, by decide⟩, ⟨by decide, by decide, by decide⟩, _, run_singleton,
    by decide, by decide, ?_⟩
  rintro ⟨first, hlast, hjoins⟩
  obtain rfl := hlast.eq_of_singleton
  exact absurd hjoins.outLen (by decide)

end NetEncryptor

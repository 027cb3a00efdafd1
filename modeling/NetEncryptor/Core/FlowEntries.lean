import NetEncryptor.Core.GarbageCollection

/-!
# The entries of the flow table

The entries by address pair and those of profiles share the buckets.  Every call keeps each entry in
the bucket of its own hash, under a normalized key that no other entry has, so that the packets of
both directions meet in one entry.
-/

namespace NetEncryptor

/-! ## Normalized keys -/

theorem normalizeFlowIps_swap (srcIp dstIp : UInt32) :
    normalizeFlowIps dstIp srcIp = normalizeFlowIps srcIp dstIp := by
  unfold normalizeFlowIps
  split_ifs with h₁ h₂ h₂
  · omega
  · rfl
  · rfl
  · have hip : srcIp = dstIp := ntohl_injective (by omega)
    rw [hip]

theorem normalizeFlow5tuple_swap (t : FlowTuple) :
    normalizeFlow5tuple t.swap = normalizeFlow5tuple t := by
  unfold normalizeFlow5tuple FlowTuple.swap
  simp only
  split_ifs with h₁ h₂ h₂
  · omega
  · rfl
  · rfl
  · have hip : t.srcIp = t.dstIp := ntohl_injective (by omega)
    have hport : t.srcPort = t.dstPort := by omega
    cases t
    simp only [FlowTuple.mk.injEq] at hip hport ⊢
    exact ⟨hip.symm, hip, hport.symm, hport, trivial⟩

theorem normalizeFlow5tuple_eq_or (t : FlowTuple) :
    normalizeFlow5tuple t = t ∨ normalizeFlow5tuple t = t.swap := by
  unfold normalizeFlow5tuple
  split_ifs
  · exact .inr rfl
  · exact .inl rfl

theorem normalizeFlow5tuple_ips (t : FlowTuple) :
    ((normalizeFlow5tuple t).srcIp, (normalizeFlow5tuple t).dstIp) =
      normalizeFlowIps t.srcIp t.dstIp := by
  unfold normalizeFlow5tuple normalizeFlowIps FlowTuple.swap
  split_ifs with h₁ h₂ h₂
  · rfl
  · have hip : t.srcIp = t.dstIp := ntohl_injective (by omega)
    simp only
    rw [hip]
  · omega
  · rfl

namespace FlowIdent

def srcIp : FlowIdent → UInt32
  | ips srcIp _ => srcIp
  | exact t => t.srcIp

def dstIp : FlowIdent → UInt32
  | ips _ dstIp => dstIp
  | exact t => t.dstIp

/-- The key is the one that its normalization gives. -/
def Normalized : FlowIdent → Prop
  | ips srcIp dstIp => normalizeFlowIps srcIp dstIp = (srcIp, dstIp)
  | exact t => normalizeFlow5tuple t = t

/-- Two keys of one flow: the same two addresses, or the same normalized tuple. -/
def SameFlow : FlowIdent → FlowIdent → Prop
  | ips a b, ips c d => (a = c ∧ b = d) ∨ (a = d ∧ b = c)
  | exact t, exact u => normalizeFlow5tuple t = normalizeFlow5tuple u
  | _, _ => False

theorem Normalized.ordered {ident : FlowIdent} (h : ident.Normalized) :
    ntohl ident.srcIp ≤ ntohl ident.dstIp := by
  cases ident with
  | ips srcIp dstIp =>
    simp only [Normalized, normalizeFlowIps] at h
    split_ifs at h with hlt
    · cases h
      exact le_refl _
    · exact not_lt.mp hlt
  | exact t =>
    have hips := normalizeFlow5tuple_ips t
    rw [h] at hips
    unfold normalizeFlowIps at hips
    split_ifs at hips with hlt
    · rw [Prod.mk.injEq] at hips
      rw [srcIp, dstIp, hips.1]
    · exact not_lt.mp hlt

theorem normalized_ips (srcIp dstIp : UInt32) :
    (ips (normalizeFlowIps srcIp dstIp).1 (normalizeFlowIps srcIp dstIp).2).Normalized := by
  unfold Normalized
  by_cases h : ntohl dstIp < ntohl srcIp
  · have hnot : ¬ ntohl srcIp < ntohl dstIp := by omega
    simp only [normalizeFlowIps, if_pos h, if_neg hnot]
  · simp only [normalizeFlowIps, if_neg h]

theorem normalized_exact (t : FlowTuple) : (exact (normalizeFlow5tuple t)).Normalized := by
  show normalizeFlow5tuple (normalizeFlow5tuple t) = normalizeFlow5tuple t
  rcases normalizeFlow5tuple_eq_or t with h | h
  · rw [h, h]
  · rw [h, normalizeFlow5tuple_swap, h]

/-- **A flow has one normalized key.** -/
theorem SameFlow.eq {ident ident' : FlowIdent} (h : ident.SameFlow ident')
    (hn : ident.Normalized) (hn' : ident'.Normalized) : ident = ident' := by
  cases ident with
  | ips a b =>
    cases ident' with
    | exact u => exact h.elim
    | ips c d =>
      rcases h with ⟨rfl, rfl⟩ | ⟨rfl, rfl⟩
      · rfl
      · simp only [Normalized] at hn hn'
        rw [normalizeFlowIps_swap, hn, Prod.mk.injEq] at hn'
        rw [hn'.1]
  | exact t =>
    cases ident' with
    | ips c d => exact h.elim
    | exact u =>
      simp only [SameFlow, Normalized] at h hn hn'
      rw [← hn, h, hn']

end FlowIdent

/-! ## Adding bytes -/

section

variable {ips exact ident : FlowIdent} {extraBytes : UInt32}

theorem keys_addBytesLoop {es : List (FlowIdent × FlowEntry)} :
    (addBytesLoop ips exact extraBytes es).map Prod.fst = es.map Prod.fst := by
  induction es with
  | nil => rfl
  | cons e es ih =>
    unfold addBytesLoop
    split_ifs
    · rfl
    · rw [List.map_cons, List.map_cons, ih]
    · rw [List.map_cons, List.map_cons, ih]

theorem keys_addBytesTo {buckets : ChainTable FlowIdent FlowEntry} (i : ℕ) :
    (addBytesTo buckets ident extraBytes i).map Prod.fst = (buckets i).map Prod.fst := by
  unfold addBytesTo
  cases hfind : ChainTable.find FlowIdent.hash buckets ident with
  | none => rfl
  | some entry => exact ChainTable.keys_put (by rw [hfind]; exact Option.some_ne_none _) i

theorem keys_flowTableAddBytes (ft : FlowTable) (t : FlowTuple) (extraBytes : UInt32) (i : ℕ) :
    ((flowTableAddBytes ft t extraBytes).buckets i).map Prod.fst =
      (ft.buckets i).map Prod.fst := by
  rw [flowTableAddBytes]
  split_ifs
  · by_cases hi : i = (FlowIdent.exact (normalizeFlow5tuple t)).hash
    · rw [hi]
      simp only [Buffer.set_self, keys_addBytesLoop]
    · simp only [Buffer.set_of_ne hi]
  · simp only [keys_addBytesTo]

end

/-! ## Calls -/

/-- A call, with the time that `get_time_sec` returns to it. -/
inductive FlowCall
  | find (now : ℕ) (op : FlowOp)
  | addBytes (t : FlowTuple) (extraBytes : UInt32)
  | gc (now : ℕ)

def FlowCall.run (ft : FlowTable) : FlowCall → FlowTable
  | find now op => (op.run ft now).2
  | addBytes t extraBytes => flowTableAddBytes ft t extraBytes
  | gc now => flowTableGc ft now

/-- Every entry has a normalized key that no other entry of its chain has, in the chain that the
hash of its key names. -/
structure FlowInv (ft : FlowTable) : Prop where
  unique : ft.buckets.Unique
  placed : ft.buckets.Placed FlowIdent.hash
  normalized : ∀ i, ∀ e ∈ ft.buckets i, e.1.Normalized

section

variable {ft : FlowTable}

theorem flowInv_init (windows : Option (Buffer UInt32)) (wanCount : ℤ) (nextWan : Int32) :
    FlowInv (flowTableInit windows wanCount nextWan) where
  unique := ChainTable.unique_empty
  placed := ChainTable.placed_empty
  normalized _ _ he := by cases he

theorem FlowOp.normalized_ident {op : FlowOp} {ident : FlowIdent} (h : op.ident = some ident) :
    ident.Normalized := by
  cases op with
  | getWan allocated srcIp dstIp pktLen =>
    cases h
    exact FlowIdent.normalized_ips srcIp dstIp
  | getWanProfile allocated t pktLen wans weights =>
    match wans with
    | [] =>
      cases h
      exact FlowIdent.normalized_ips t.srcIp t.dstIp
    | [_] => cases h
    | _ :: _ :: _ =>
      cases h
      exact FlowIdent.normalized_exact t

theorem FlowInv.find (h : FlowInv ft) (now : ℕ) (op : FlowOp) : FlowInv (op.run ft now).2 := by
  have htouches := op.touches ft now
  obtain ⟨hunique, hplaced⟩ := htouches.ok ⟨h.unique, h.placed⟩
  refine ⟨hunique, hplaced, fun i e he => ?_⟩
  have hnorm : ∀ ident, op.uses ft = some ident → ident.Normalized := by
    intro ident hident
    exact FlowOp.normalized_ident (Option.filter_eq_some_iff.mp hident).1
  generalize op.uses ft = used at htouches hnorm
  generalize (op.run ft now).2.buckets = buckets at htouches he
  cases htouches with
  | kept => exact h.normalized i e he
  | erased k => exact h.normalized i e (ChainTable.mem_erase he)
  | cleared => cases he
  | stored k v _ =>
    rcases ChainTable.mem_put h.unique h.placed he with rfl | ⟨-, hmem⟩
    · exact hnorm k rfl
    · exact h.normalized i e hmem

theorem FlowInv.addBytes (h : FlowInv ft) (t : FlowTuple) (extraBytes : UInt32) :
    FlowInv (flowTableAddBytes ft t extraBytes) := by
  have hkeys := keys_flowTableAddBytes ft t extraBytes
  refine ⟨h.unique.of_keys hkeys, h.placed.of_keys hkeys, fun i e he => ?_⟩
  have hmem : e.1 ∈ (((flowTableAddBytes ft t extraBytes).buckets i).map Prod.fst) :=
    List.mem_map_of_mem he
  rw [hkeys i] at hmem
  obtain ⟨e', he', heq⟩ := List.mem_map.mp hmem
  exact heq ▸ h.normalized i e' he'

theorem FlowInv.gcBucket (h : FlowInv ft) (now i : ℕ) : FlowInv (flowTableGcBucket ft now i) := by
  refine ⟨h.unique.sweepChain, h.placed.sweepChain, fun j e he => ?_⟩
  simp only [flowTableGcBucket, ChainTable.sweepChain_apply] at he
  split_ifs at he with hj
  · exact h.normalized i e (List.mem_filter.mp he).1
  · exact h.normalized j e he

/-- **Every call** preserves the invariant. -/
theorem FlowInv.step (h : FlowInv ft) (call : FlowCall) : FlowInv (call.run ft) := by
  cases call with
  | find now op => exact h.find now op
  | addBytes t extraBytes => exact h.addBytes t extraBytes
  | gc now =>
    simp only [FlowCall.run, flowTableGc]
    refine List.foldlRecOn _ _ h fun ft' h' i _ => ?_
    exact h'.gcBucket now i

theorem flowInv_run (calls : List FlowCall) (h : FlowInv ft) :
    FlowInv (calls.foldl FlowCall.run ft) :=
  List.foldlRecOn calls _ h fun _ h' call _ => h'.step call

/-! ## One entry for both directions -/

/-- No two places of the table hold entries of one flow. -/
def OnePerFlow (ft : FlowTable) : Prop :=
  ∀ (i m : ℕ) (e : FlowIdent × FlowEntry) (j n : ℕ) (e' : FlowIdent × FlowEntry),
    (ft.buckets i)[m]? = some e → (ft.buckets j)[n]? = some e' →
      e.1.SameFlow e'.1 → i = j ∧ m = n

/-- The entry of an address pair is what the packets of both directions use and update. -/
def SharedByDirections (ft : FlowTable) : Prop :=
  ∀ i srcIp dstIp entry, (.ips srcIp dstIp, entry) ∈ ft.buckets i →
    ∀ now allocated pktLen a b, (a = srcIp ∧ b = dstIp) ∨ (a = dstIp ∧ b = srcIp) →
      flowTableGetWan ft now allocated a b pktLen =
        ((ft.touch entry now pktLen).currentWan,
          ft.store (.ips srcIp dstIp) (ft.touch entry now pktLen))

theorem FlowInv.onePerFlow (h : FlowInv ft) : OnePerFlow ft := by
  intro i m e j n e' he he' hsame
  have hmem := List.mem_of_getElem? he
  have hmem' := List.mem_of_getElem? he'
  have hkey : e.1 = e'.1 := hsame.eq (h.normalized i e hmem) (h.normalized j e' hmem')
  have hij : i = j := by rw [← h.placed i e hmem, ← h.placed j e' hmem', hkey]
  subst hij
  refine ⟨rfl, ?_⟩
  have hm : ((ft.buckets i).map Prod.fst)[m]? = some e.1 := by rw [List.getElem?_map, he]; rfl
  have hn : ((ft.buckets i).map Prod.fst)[n]? = some e'.1 := by rw [List.getElem?_map, he']; rfl
  obtain ⟨hlt, -⟩ := List.getElem?_eq_some_iff.mp hm
  exact (List.getElem?_inj hlt (h.unique i)).mp (by rw [hm, hn, hkey])

theorem FlowInv.sharedByDirections (h : FlowInv ft) : SharedByDirections ft := by
  intro i srcIp dstIp entry hmem now allocated pktLen a b hdir
  have hnorm : normalizeFlowIps srcIp dstIp = (srcIp, dstIp) := h.normalized i _ hmem
  have hips : normalizeFlowIps a b = (srcIp, dstIp) := by
    rcases hdir with ⟨rfl, rfl⟩ | ⟨rfl, rfl⟩
    · exact hnorm
    · rw [normalizeFlowIps_swap, hnorm]
  unfold flowTableGetWan
  simp only [hips, ChainTable.find_of_mem h.unique h.placed hmem]

/-- The same look-up for a packet of the other direction. -/
def FlowOp.swap : FlowOp → FlowOp
  | getWan allocated srcIp dstIp pktLen => getWan allocated dstIp srcIp pktLen
  | getWanProfile allocated t pktLen wans weights =>
    getWanProfile allocated t.swap pktLen wans weights

theorem flowTableGetWan_swap (now : ℕ) (allocated : Bool) (srcIp dstIp pktLen : UInt32) :
    flowTableGetWan ft now allocated dstIp srcIp pktLen =
      flowTableGetWan ft now allocated srcIp dstIp pktLen := by
  unfold flowTableGetWan
  rw [normalizeFlowIps_swap]

theorem FlowOp.run_swap (op : FlowOp) (now : ℕ) : op.swap.run ft now = op.run ft now := by
  cases op with
  | getWan allocated srcIp dstIp pktLen => exact flowTableGetWan_swap ..
  | getWanProfile allocated t pktLen wans weights =>
    match wans with
    | [] => exact flowTableGetWan_swap ..
    | [_] => rfl
    | _ :: _ :: _ =>
      simp only [FlowOp.swap, FlowOp.run, flowTableGetWanProfile, normalizeFlow5tuple_swap]

theorem flowTableAddBytes_swap (t : FlowTuple) (extraBytes : UInt32) :
    flowTableAddBytes ft t.swap extraBytes = flowTableAddBytes ft t extraBytes := by
  rw [flowTableAddBytes, normalizeFlow5tuple_swap, ← flowTableAddBytes]

end

/-- The representation: ordered addresses, each entry in its own bucket, one entry a flow, which is
what both directions of the flow use. -/
structure FlowTableOk (ft : FlowTable) : Prop where
  ordered : ∀ i, ∀ e ∈ ft.buckets i, ntohl e.1.srcIp ≤ ntohl e.1.dstIp
  placed : ∀ i, ∀ e ∈ ft.buckets i, e.1.hash = i
  onePerFlow : OnePerFlow ft
  shared : SharedByDirections ft
  find_swap : ∀ (op : FlowOp) (now : ℕ), op.swap.run ft now = op.run ft now
  addBytes_swap : ∀ (t : FlowTuple) (extraBytes : UInt32),
    flowTableAddBytes ft t.swap extraBytes = flowTableAddBytes ft t extraBytes

/-- **The flow table.** The representation holds after every sequence of calls. -/
theorem flowTable_ok (windows : Option (Buffer UInt32)) (wanCount : ℤ) (nextWan : Int32)
    (calls : List FlowCall) :
    FlowTableOk (calls.foldl FlowCall.run (flowTableInit windows wanCount nextWan)) := by
  have h := flowInv_run calls (flowInv_init windows wanCount nextWan)
  exact
    { ordered := fun i e he => (h.normalized i e he).ordered
      placed := h.placed
      onePerFlow := h.onePerFlow
      shared := h.sharedByDirections
      find_swap := FlowOp.run_swap
      addBytes_swap := flowTableAddBytes_swap }

/-- A packet and the answer to it are counted together. -/
example :
    let ft := [.find 5 (.getWan true 0x0100000a 0x0200000a 100),
      .find 6 (.getWan true 0x0200000a 0x0100000a 40)].foldl FlowCall.run (flowTableInit none 2 0)
    ChainTable.find FlowIdent.hash ft.buckets (.ips 0x0100000a 0x0200000a) =
      some ⟨140, 0, 0, 6⟩ := by
  decide

end NetEncryptor

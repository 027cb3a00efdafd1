import NetEncryptor.Core.FlowTable

/-!
# Adding bytes to both entries of a flow

`flow_table_add_bytes` adds to the exact entry of a flow and to the one of its address pair.  When
both hashes are equal it walks the bucket once and stops at the exact entry; else it walks two
buckets, each up to its entry.  Here an entry has all the fields that these walks read, so also one
that belongs to no profile.  `sameBucket_agrees_iff` says when the single walk does what the two
walks do; `flowTableAddBytes_nodes` connects these entries with those of the flow table.
-/

namespace NetEncryptor

/-- `struct flow_entry`, but for `valid` and `next`. -/
structure FlowNode where
  key : FlowTuple
  ipOnlyKey : Bool
  profileWanPool : Bool
  byteCount : UInt32
  currentWan : ℤ
  wrrSlot : ℤ
  lastSeen : ℕ
  deriving DecidableEq

/-- `struct flow_table`. -/
structure FlowNodes where
  buckets : Buffer (List FlowNode)
  wanCount : ℤ
  wanWindowSizes : Buffer UInt32

namespace FlowNode

def IsIps (t : FlowTuple) (e : FlowNode) : Prop :=
  e.ipOnlyKey = true ∧ e.key.srcIp = t.srcIp ∧ e.key.dstIp = t.dstIp

def IsExact (t : FlowTuple) (e : FlowNode) : Prop := e.ipOnlyKey = false ∧ e.key = t

instance (t : FlowTuple) (e : FlowNode) : Decidable (e.IsIps t) := inferInstanceAs (Decidable (_ ∧ _))

instance (t : FlowTuple) (e : FlowNode) : Decidable (e.IsExact t) :=
  inferInstanceAs (Decidable (_ ∧ _))

/-- `entry->byte_count += extra_bytes`. -/
def addBytes (e : FlowNode) (extraBytes : UInt32) : FlowNode :=
  { e with byteCount := e.byteCount + extraBytes }

/-- What is added to an exact entry moves it on to the next interface, unless it belongs to a
profile. -/
def addBytesExact (ft : FlowNodes) (e : FlowNode) (extraBytes : UInt32) : FlowNode :=
  let e := e.addBytes extraBytes
  if e.profileWanPool = false then
    let curLimit :=
      if 0 ≤ e.currentWan ∧ e.currentWan < ft.wanCount then ft.wanWindowSizes e.currentWan.toNat
      else 0
    if 0 < curLimit ∧ curLimit ≤ e.byteCount then
      { e with byteCount := 0, currentWan := (e.currentWan + 1).tmod ft.wanCount }
    else e
  else e

@[simp] theorem addBytes_ipOnlyKey (e : FlowNode) (extraBytes : UInt32) :
    (e.addBytes extraBytes).ipOnlyKey = e.ipOnlyKey := rfl

@[simp] theorem addBytesExact_ipOnlyKey (ft : FlowNodes) (e : FlowNode) (extraBytes : UInt32) :
    (addBytesExact ft e extraBytes).ipOnlyKey = e.ipOnlyKey := by
  unfold addBytesExact
  simp only
  split_ifs <;> rfl

theorem addBytes_eq_self_iff {e : FlowNode} {extraBytes : UInt32} :
    e.addBytes extraBytes = e ↔ extraBytes = 0 := by
  cases e
  simp [addBytes]

end FlowNode

/-! ## The walks -/

section

variable (ft : FlowNodes) (t : FlowTuple) (extraBytes : UInt32)

/-- The walk over a bucket that has both hashes. -/
def sameBucketLoop : List FlowNode → List FlowNode
  | [] => []
  | e :: es =>
    if e.IsIps t then e.addBytes extraBytes :: sameBucketLoop es
    else if e.IsExact t then e.addBytesExact ft extraBytes :: es
    else e :: sameBucketLoop es

/-- The walk over the bucket of the exact hash. -/
def exactBucketLoop : List FlowNode → List FlowNode
  | [] => []
  | e :: es =>
    if e.IsExact t then e.addBytesExact ft extraBytes :: es else e :: exactBucketLoop es

/-- The walk over the bucket of the address pair. -/
def ipBucketLoop : List FlowNode → List FlowNode
  | [] => []
  | e :: es => if e.IsIps t then e.addBytes extraBytes :: es else e :: ipBucketLoop es

def flowNodesAddBytes : FlowNodes :=
  let t := normalizeFlow5tuple t
  let idxExact := flowHash t
  let idxIp := flowHashIps t.srcIp t.dstIp
  if idxExact = idxIp then
    { ft with
      buckets := ft.buckets.set idxExact (sameBucketLoop ft t extraBytes (ft.buckets idxExact)) }
  else
    let buckets := ft.buckets.set idxExact (exactBucketLoop ft t extraBytes (ft.buckets idxExact))
    { ft with buckets := buckets.set idxIp (ipBucketLoop t extraBytes (buckets idxIp)) }

end

/-! ## One walk and two -/

/-- The entries of a bucket with the flag, or those without. -/
def withFlag (ipOnly : Bool) (es : List FlowNode) : List FlowNode :=
  es.filter fun e => e.ipOnlyKey == ipOnly

/-- The bucket after the single walk has the exact entries that the walk over a bucket of exact
entries leaves, and the entries of address pairs that the walk over a bucket of those leaves. -/
def AgreesWithTwoWalks (ft : FlowNodes) (t : FlowTuple) (extraBytes : UInt32) (es es' : List FlowNode) :
    Prop :=
  withFlag false es' = exactBucketLoop ft t extraBytes (withFlag false es) ∧
    withFlag true es' = ipBucketLoop t extraBytes (withFlag true es)

/-- One entry an address pair and one exact entry a tuple. -/
def UniqueNodes (es : List FlowNode) : Prop :=
  es.Pairwise fun e e' =>
    e.ipOnlyKey = e'.ipOnlyKey →
      (e.ipOnlyKey = true → ¬ (e.key.srcIp = e'.key.srcIp ∧ e.key.dstIp = e'.key.dstIp)) ∧
      (e.ipOnlyKey = false → e.key ≠ e'.key)

/-- The exact entry of the tuple stands before the one of its address pair. -/
def ExactFirst (t : FlowTuple) (es : List FlowNode) : Prop :=
  ∃ before e after, es = before ++ e :: after ∧ e.IsExact t ∧ ∃ e' ∈ after, e'.IsIps t

section

variable {ft : FlowNodes} {t : FlowTuple} {extraBytes : UInt32} {e : FlowNode} {es : List FlowNode}

@[simp] theorem withFlag_nil (ipOnly : Bool) : withFlag ipOnly [] = [] := rfl

theorem withFlag_cons_of_eq {ipOnly : Bool} (h : e.ipOnlyKey = ipOnly) :
    withFlag ipOnly (e :: es) = e :: withFlag ipOnly es :=
  List.filter_cons_of_pos (by rw [beq_iff_eq]; exact h)

theorem withFlag_cons_of_ne {ipOnly : Bool} (h : e.ipOnlyKey = !ipOnly) :
    withFlag ipOnly (e :: es) = withFlag ipOnly es :=
  List.filter_cons_of_neg (by rw [beq_iff_eq, h]; cases ipOnly <;> decide)

theorem ipBucketLoop_eq_self_iff :
    withFlag true es = ipBucketLoop t extraBytes (withFlag true es) ↔
      extraBytes = 0 ∨ ¬ ∃ e ∈ es, e.IsIps t := by
  induction es with
  | nil => exact iff_of_true rfl (.inr (by simp))
  | cons e es ih =>
    cases hflag : e.ipOnlyKey with
    | false =>
      have hnot : ¬ e.IsIps t := fun h => by rw [h.1] at hflag; cases hflag
      rw [withFlag_cons_of_ne hflag, ih]
      simp [hnot]
    | true =>
      rw [withFlag_cons_of_eq hflag, ipBucketLoop]
      by_cases hips : e.IsIps t
      · rw [if_pos hips, List.cons.injEq, and_iff_left rfl, eq_comm,
          FlowNode.addBytes_eq_self_iff]
        simp [hips]
      · rw [if_neg hips, List.cons_inj_right, ih]
        simp [hips]

theorem exactFirst_cons : ExactFirst t (e :: es) ↔
    (e.IsExact t ∧ ∃ e' ∈ es, e'.IsIps t) ∨ ExactFirst t es := by
  constructor
  · rintro ⟨before, x, after, heq, hexact, hips⟩
    cases before with
    | nil =>
      obtain ⟨rfl, rfl⟩ := List.cons_eq_cons.mp heq
      exact .inl ⟨hexact, hips⟩
    | cons y before =>
      obtain ⟨rfl, rfl⟩ := List.cons_eq_cons.mp heq
      exact .inr ⟨before, x, after, rfl, hexact, hips⟩
  · rintro (⟨hexact, hips⟩ | ⟨before, x, after, rfl, hexact, hips⟩)
    · exact ⟨[], e, es, rfl, hexact, hips⟩
    · exact ⟨e :: before, x, after, rfl, hexact, hips⟩

theorem ExactFirst.exists_ips (h : ExactFirst t es) : ∃ e ∈ es, e.IsIps t := by
  obtain ⟨before, x, after, rfl, -, e, he, hips⟩ := h
  exact ⟨e, by simp [he], hips⟩

theorem UniqueNodes.not_ips (h : UniqueNodes (e :: es)) (he : e.IsIps t) :
    ¬ ∃ e' ∈ es, e'.IsIps t := by
  rintro ⟨e', hmem, he'⟩
  have hne := (List.pairwise_cons.mp h).1 e' hmem (he.1.trans he'.1.symm)
  exact hne.1 he.1 ⟨he.2.1.trans he'.2.1.symm, he.2.2.trans he'.2.2.symm⟩

/-- Behind the entry of the address pair the single walk adds only to the exact entry. -/
theorem withFlag_true_sameBucketLoop_of_not (h : ¬ ∃ e ∈ es, e.IsIps t) :
    withFlag true (sameBucketLoop ft t extraBytes es) = withFlag true es := by
  induction es with
  | nil => rfl
  | cons e es ih =>
    have hhead : ¬ e.IsIps t := fun he => h ⟨e, List.mem_cons_self, he⟩
    have htail : ¬ ∃ e ∈ es, e.IsIps t := fun ⟨e', hmem, he'⟩ =>
      h ⟨e', List.mem_cons_of_mem _ hmem, he'⟩
    rw [sameBucketLoop, if_neg hhead]
    by_cases hexact : e.IsExact t
    · rw [if_pos hexact, withFlag_cons_of_ne
        (by rw [FlowNode.addBytesExact_ipOnlyKey]; exact hexact.1), withFlag_cons_of_ne hexact.1]
    · rw [if_neg hexact]
      cases hflag : e.ipOnlyKey with
      | false => rw [withFlag_cons_of_ne hflag, withFlag_cons_of_ne hflag, ih htail]
      | true => rw [withFlag_cons_of_eq hflag, withFlag_cons_of_eq hflag, ih htail]

theorem withFlag_false_sameBucketLoop :
    withFlag false (sameBucketLoop ft t extraBytes es) =
      exactBucketLoop ft t extraBytes (withFlag false es) := by
  induction es with
  | nil => rfl
  | cons e es ih =>
    rw [sameBucketLoop]
    cases hflag : e.ipOnlyKey with
    | true =>
      have hexact : ¬ e.IsExact t := fun h => by rw [h.1] at hflag; cases hflag
      rw [withFlag_cons_of_ne hflag, if_neg hexact]
      split_ifs
      · rw [withFlag_cons_of_ne (by rw [FlowNode.addBytes_ipOnlyKey]; exact hflag), ih]
      · rw [withFlag_cons_of_ne hflag, ih]
    | false =>
      have hips : ¬ e.IsIps t := fun h => by rw [h.1] at hflag; cases hflag
      rw [withFlag_cons_of_eq hflag, if_neg hips, exactBucketLoop]
      split_ifs with hexact
      · rw [withFlag_cons_of_eq (by rw [FlowNode.addBytesExact_ipOnlyKey]; exact hflag)]
      · rw [withFlag_cons_of_eq hflag, ih]

/-- The single walk misses the entry of the address pair behind the exact one. -/
theorem withFlag_true_sameBucketLoop_iff (hu : UniqueNodes es) :
    withFlag true (sameBucketLoop ft t extraBytes es) =
        ipBucketLoop t extraBytes (withFlag true es) ↔
      extraBytes = 0 ∨ ¬ ExactFirst t es := by
  induction es with
  | nil => exact iff_of_true rfl (.inr fun h => by obtain ⟨e, he, -⟩ := h.exists_ips; cases he)
  | cons e es ih =>
    have hrest := ih (List.pairwise_cons.mp hu).2
    rw [exactFirst_cons, sameBucketLoop]
    by_cases hips : e.IsIps t
    · -- the entry of the address pair comes first: nothing else in the bucket is missed
      have hnone := hu.not_ips hips
      have hlate : ¬ ((e.IsExact t ∧ ∃ e' ∈ es, e'.IsIps t) ∨ ExactFirst t es) := by
        rintro (⟨-, h⟩ | h)
        · exact hnone h
        · exact hnone h.exists_ips
      rw [if_pos hips, withFlag_cons_of_eq hips.1, ipBucketLoop, if_pos hips,
        withFlag_cons_of_eq (by rw [FlowNode.addBytes_ipOnlyKey]; exact hips.1),
        withFlag_true_sameBucketLoop_of_not hnone]
      exact iff_of_true rfl (.inr hlate)
    · rw [if_neg hips]
      by_cases hexact : e.IsExact t
      · -- the walk ends here
        rw [if_pos hexact, withFlag_cons_of_ne
          (by rw [FlowNode.addBytesExact_ipOnlyKey]; exact hexact.1),
          withFlag_cons_of_ne hexact.1, ipBucketLoop_eq_self_iff]
        have hiff : ((e.IsExact t ∧ ∃ e' ∈ es, e'.IsIps t) ∨ ExactFirst t es) ↔
            ∃ e' ∈ es, e'.IsIps t :=
          ⟨fun h => h.elim And.right ExactFirst.exists_ips, fun h => .inl ⟨hexact, h⟩⟩
        rw [hiff]
      · have hiff : ((e.IsExact t ∧ ∃ e' ∈ es, e'.IsIps t) ∨ ExactFirst t es) ↔ ExactFirst t es :=
          or_iff_right fun h => hexact h.1
        rw [if_neg hexact, hiff, ← hrest]
        cases hflag : e.ipOnlyKey with
        | false => rw [withFlag_cons_of_ne hflag, withFlag_cons_of_ne hflag]
        | true =>
          rw [withFlag_cons_of_eq hflag, withFlag_cons_of_eq hflag, ipBucketLoop, if_neg hips,
            List.cons_inj_right]

end

theorem buckets_flowNodesAddBytes (ft : FlowNodes) (t : FlowTuple) (extraBytes : UInt32) :
    (flowNodesAddBytes ft t extraBytes).buckets =
      let n := normalizeFlow5tuple t
      if flowHash n = flowHashIps n.srcIp n.dstIp then
        ft.buckets.set (flowHash n) (sameBucketLoop ft n extraBytes (ft.buckets (flowHash n)))
      else
        let buckets :=
          ft.buckets.set (flowHash n) (exactBucketLoop ft n extraBytes (ft.buckets (flowHash n)))
        buckets.set (flowHashIps n.srcIp n.dstIp)
          (ipBucketLoop n extraBytes (buckets (flowHashIps n.srcIp n.dstIp))) := by
  unfold flowNodesAddBytes
  simp only
  split_ifs <;> rfl

/-- **Byte accounting and equal hashes.** When the exact hash of a flow is the hash of its address
pair, the single walk does what the two walks would do with the same entries in two buckets if and
only if nothing is added, or the exact entry does not stand before the one of the address pair. -/
theorem sameBucket_agrees_iff (ft : FlowNodes) (hu : ∀ i, UniqueNodes (ft.buckets i))
    (t : FlowTuple) (extraBytes : UInt32)
    (hsame : flowHash (normalizeFlow5tuple t) =
      flowHashIps (normalizeFlow5tuple t).srcIp (normalizeFlow5tuple t).dstIp) :
    AgreesWithTwoWalks ft (normalizeFlow5tuple t) extraBytes
        (ft.buckets (flowHash (normalizeFlow5tuple t)))
        ((flowNodesAddBytes ft t extraBytes).buckets (flowHash (normalizeFlow5tuple t))) ↔
      extraBytes = 0 ∨
        ¬ ExactFirst (normalizeFlow5tuple t) (ft.buckets (flowHash (normalizeFlow5tuple t))) := by
  rw [buckets_flowNodesAddBytes]
  simp only
  rw [if_pos hsame]
  generalize flowHash (normalizeFlow5tuple t) = i
  unfold AgreesWithTwoWalks
  rw [Buffer.set_self, and_iff_right withFlag_false_sameBucketLoop]
  exact withFlag_true_sameBucketLoop_iff (hu i)

/-! ## The entries of the flow table -/

namespace FlowNode

/-- What the entry is found by. -/
def ident (e : FlowNode) : FlowIdent :=
  if e.ipOnlyKey = true then .ips e.key.srcIp e.key.dstIp else .exact e.key

def entry (e : FlowNode) : FlowEntry := ⟨e.byteCount, e.currentWan, e.wrrSlot, e.lastSeen⟩

/-- Key and entry, as the flow table has them. -/
def keyed (e : FlowNode) : FlowIdent × FlowEntry := (e.ident, e.entry)

variable {ft : FlowNodes} {t : FlowTuple} {e : FlowNode} {extraBytes : UInt32}

theorem isIps_iff : e.IsIps t ↔ e.ident = .ips t.srcIp t.dstIp := by
  unfold IsIps ident
  cases e.ipOnlyKey <;> simp

theorem isExact_iff : e.IsExact t ↔ e.ident = .exact t := by
  unfold IsExact ident
  cases e.ipOnlyKey <;> simp

theorem keyed_addBytesExact (h : e.profileWanPool = true) :
    (e.addBytesExact ft extraBytes).keyed = (e.ident, e.entry.addBytes extraBytes) := by
  unfold addBytesExact
  simp only
  rw [if_neg (by rw [show (e.addBytes extraBytes).profileWanPool = true from h]; decide)]
  rfl

end FlowNode

namespace FlowNodes

/-- The flow table with these entries. -/
def table (ft : FlowNodes) (nextWan : Int32) : FlowTable where
  buckets := fun i => (ft.buckets i).map FlowNode.keyed
  wanCount := ft.wanCount
  wanWindowSizes := ft.wanWindowSizes
  nextWan := nextWan

/-- Every exact entry belongs to a profile, as `flow_table_get_wan_profile` makes them. -/
def AllPooled (es : List FlowNode) : Prop :=
  ∀ e ∈ es, e.ipOnlyKey = false → e.profileWanPool = true

end FlowNodes

def addToFirst (ident : FlowIdent) (extraBytes : UInt32) :
    List (FlowIdent × FlowEntry) → List (FlowIdent × FlowEntry)
  | [] => []
  | e :: es =>
    if e.1 = ident then (e.1, e.2.addBytes extraBytes) :: es
    else e :: addToFirst ident extraBytes es

section

variable {ft : FlowNodes} {t : FlowTuple} {extraBytes : UInt32} {es : List FlowNode}

theorem addToFirst_of_find {ident : FlowIdent} {ks : List (FlowIdent × FlowEntry)} :
    addToFirst ident extraBytes ks =
      match ChainTable.findFirst ident ks with
      | some entry => ChainTable.replaceFirst ident (entry.addBytes extraBytes) ks
      | none => ks := by
  induction ks with
  | nil => rfl
  | cons e ks ih =>
    rw [addToFirst, ChainTable.findFirst]
    by_cases h : e.1 = ident
    · rw [if_pos h, if_pos h]
      simp only
      rw [ChainTable.replaceFirst, if_pos h, h]
    · rw [if_neg h, if_neg h, ih]
      cases ChainTable.findFirst ident ks with
      | none => rfl
      | some entry =>
        simp only
        rw [ChainTable.replaceFirst, if_neg h]

theorem addBytesTo_eq (buckets : ChainTable FlowIdent FlowEntry) (ident : FlowIdent) :
    addBytesTo buckets ident extraBytes =
      buckets.set ident.hash (addToFirst ident extraBytes (buckets ident.hash)) := by
  unfold addBytesTo ChainTable.put
  rw [addToFirst_of_find, ← ChainTable.find]
  cases hfind : ChainTable.find FlowIdent.hash buckets ident with
  | none =>
    funext i
    by_cases hi : i = ident.hash
    · subst hi; rw [Buffer.set_self]
    · rw [Buffer.set_of_ne hi]
  | some entry =>
    simp only
    rw [if_neg (Option.some_ne_none entry)]

theorem map_sameBucketLoop (h : FlowNodes.AllPooled es) :
    (sameBucketLoop ft t extraBytes es).map FlowNode.keyed =
      addBytesLoop (.ips t.srcIp t.dstIp) (.exact t) extraBytes (es.map FlowNode.keyed) := by
  induction es with
  | nil => rfl
  | cons e es ih =>
    have hrest := ih fun x hx => h x (List.mem_cons_of_mem _ hx)
    rw [sameBucketLoop, List.map_cons, addBytesLoop]
    by_cases hips : e.IsIps t
    · have hkey : e.keyed.1 = .ips t.srcIp t.dstIp := FlowNode.isIps_iff.mp hips
      rw [if_pos hips, if_neg (by rw [hkey]; simp), if_pos hkey, List.map_cons, hrest]
      rfl
    · have hkey : ¬ e.keyed.1 = .ips t.srcIp t.dstIp := fun hk => hips (FlowNode.isIps_iff.mpr hk)
      rw [if_neg hips]
      by_cases hexact : e.IsExact t
      · have hkey' : e.keyed.1 = .exact t := FlowNode.isExact_iff.mp hexact
        rw [if_pos hexact, if_pos hkey', List.map_cons,
          FlowNode.keyed_addBytesExact (h e List.mem_cons_self hexact.1)]
        rfl
      · have hkey' : ¬ e.keyed.1 = .exact t := fun hk => hexact (FlowNode.isExact_iff.mpr hk)
        rw [if_neg hexact, if_neg hkey', if_neg hkey, List.map_cons, hrest]

theorem map_exactBucketLoop (h : FlowNodes.AllPooled es) :
    (exactBucketLoop ft t extraBytes es).map FlowNode.keyed =
      addToFirst (.exact t) extraBytes (es.map FlowNode.keyed) := by
  induction es with
  | nil => rfl
  | cons e es ih =>
    have hrest := ih fun x hx => h x (List.mem_cons_of_mem _ hx)
    rw [exactBucketLoop, List.map_cons, addToFirst]
    by_cases hexact : e.IsExact t
    · have hkey : e.keyed.1 = .exact t := FlowNode.isExact_iff.mp hexact
      rw [if_pos hexact, if_pos hkey, List.map_cons,
        FlowNode.keyed_addBytesExact (h e List.mem_cons_self hexact.1)]
      rfl
    · have hkey : ¬ e.keyed.1 = .exact t := fun hk => hexact (FlowNode.isExact_iff.mpr hk)
      rw [if_neg hexact, if_neg hkey, List.map_cons, hrest]

theorem map_ipBucketLoop :
    (ipBucketLoop t extraBytes es).map FlowNode.keyed =
      addToFirst (.ips t.srcIp t.dstIp) extraBytes (es.map FlowNode.keyed) := by
  induction es with
  | nil => rfl
  | cons e es ih =>
    rw [ipBucketLoop, List.map_cons, addToFirst]
    by_cases hips : e.IsIps t
    · have hkey : e.keyed.1 = .ips t.srcIp t.dstIp := FlowNode.isIps_iff.mp hips
      rw [if_pos hips, if_pos hkey, List.map_cons]
      rfl
    · have hkey : ¬ e.keyed.1 = .ips t.srcIp t.dstIp := fun hk => hips (FlowNode.isIps_iff.mpr hk)
      rw [if_neg hips, if_neg hkey, List.map_cons, ih]

theorem map_set (b : Buffer (List FlowNode)) (i : ℕ) :
    (fun j => (b.set i es j).map FlowNode.keyed) =
      Buffer.set (fun j => (b j).map FlowNode.keyed) i (es.map FlowNode.keyed) := by
  funext j
  by_cases hj : j = i
  · subst hj; rw [Buffer.set_self, Buffer.set_self]
  · rw [Buffer.set_of_ne hj, Buffer.set_of_ne hj]

/-- **The flow table's version.** On a table whose exact entries all belong to profiles, adding
bytes is what `flowTableAddBytes` does to the flow table with these entries. -/
theorem flowTableAddBytes_nodes (h : ∀ i, FlowNodes.AllPooled (ft.buckets i)) (nextWan : Int32) :
    (flowNodesAddBytes ft t extraBytes).table nextWan =
      flowTableAddBytes (ft.table nextWan) t extraBytes := by
  have hcount : (flowNodesAddBytes ft t extraBytes).wanCount = ft.wanCount := by
    unfold flowNodesAddBytes
    simp only
    split_ifs <;> rfl
  have hwindows : (flowNodesAddBytes ft t extraBytes).wanWindowSizes = ft.wanWindowSizes := by
    unfold flowNodesAddBytes
    simp only
    split_ifs <;> rfl
  unfold FlowNodes.table
  rw [hcount, hwindows, buckets_flowNodesAddBytes, flowTableAddBytes]
  simp only
  generalize normalizeFlow5tuple t = n
  have hexact : (FlowIdent.exact n).hash = flowHash n := rfl
  have hips : (FlowIdent.ips n.srcIp n.dstIp).hash = flowHashIps n.srcIp n.dstIp := rfl
  by_cases hsame : flowHash n = flowHashIps n.srcIp n.dstIp
  · rw [if_pos hsame, if_pos (hexact.trans (hsame.trans hips.symm)), map_set,
      map_sameBucketLoop (h _), hexact]
  · have hmid : (fun j => (ft.buckets.set (flowHash n)
          (exactBucketLoop ft n extraBytes (ft.buckets (flowHash n))) j).map FlowNode.keyed) =
        addBytesTo (fun i => (ft.buckets i).map FlowNode.keyed) (.exact n) extraBytes := by
      rw [map_set, map_exactBucketLoop (h _), addBytesTo_eq, hexact]
    rw [if_neg hsame, if_neg fun heq => hsame (hexact.symm.trans (heq.trans hips)), map_set,
      map_ipBucketLoop, ← hmid, addBytesTo_eq, hips]

end

/-- The flow 10.0.0.1:36417 to 10.0.0.2:443, whose hash is that of its address pair. -/
def coincidentFlow : FlowTuple := ⟨0x0100000a, 0x0200000a, 36417, 443, 6⟩

/-- A table with the two entries of the flow in one bucket, in this order. -/
def coincidentNodes (exactFirst : Bool) : FlowNodes where
  buckets := fun i =>
    if i = flowHash coincidentFlow then
      let exact : FlowNode := ⟨coincidentFlow, false, true, 100, 0, 0, 5⟩
      let ips : FlowNode := ⟨coincidentFlow, true, false, 100, 0, 0, 5⟩
      if exactFirst then [exact, ips] else [ips, exact]
    else []
  wanCount := 2
  wanWindowSizes := fun _ => 0

theorem uniqueNodes_coincident (exactFirst : Bool) (i : ℕ) :
    UniqueNodes ((coincidentNodes exactFirst).buckets i) := by
  unfold coincidentNodes
  simp only
  split_ifs
  · simp [UniqueNodes]
  · simp [UniqueNodes]
  · exact List.Pairwise.nil

theorem flowHash_coincidentFlow : flowHash (normalizeFlow5tuple coincidentFlow) =
    flowHashIps (normalizeFlow5tuple coincidentFlow).srcIp
      (normalizeFlow5tuple coincidentFlow).dstIp := by decide

theorem sameBucket_agrees_ipsFirst :
    AgreesWithTwoWalks (coincidentNodes false) (normalizeFlow5tuple coincidentFlow) 40
      ((coincidentNodes false).buckets (flowHash (normalizeFlow5tuple coincidentFlow)))
      ((flowNodesAddBytes (coincidentNodes false) coincidentFlow 40).buckets
        (flowHash (normalizeFlow5tuple coincidentFlow))) := by
  refine (sameBucket_agrees_iff _ (uniqueNodes_coincident false) _ _ flowHash_coincidentFlow).mpr
    (.inr fun h => ?_)
  have hbucket : (coincidentNodes false).buckets (flowHash (normalizeFlow5tuple coincidentFlow)) =
      [⟨coincidentFlow, true, false, 100, 0, 0, 5⟩, ⟨coincidentFlow, false, true, 100, 0, 0, 5⟩] :=
    rfl
  rw [hbucket, exactFirst_cons, exactFirst_cons] at h
  rcases h with ⟨hexact, -⟩ | ⟨-, e, he, -⟩ | ⟨before, e, after, heq, -⟩
  · exact absurd hexact.1 (by decide)
  · cases he
  · exact absurd heq (by simp)

/-- With the exact entry first, the walk ends there, and the entry of the address pair does not get
the bytes. -/
theorem not_sameBucket_agrees_exactFirst :
    (∀ i, UniqueNodes ((coincidentNodes true).buckets i)) ∧
      flowHash (normalizeFlow5tuple coincidentFlow) =
        flowHashIps (normalizeFlow5tuple coincidentFlow).srcIp
          (normalizeFlow5tuple coincidentFlow).dstIp ∧
      ¬ AgreesWithTwoWalks (coincidentNodes true) (normalizeFlow5tuple coincidentFlow) 40
        ((coincidentNodes true).buckets (flowHash (normalizeFlow5tuple coincidentFlow)))
        ((flowNodesAddBytes (coincidentNodes true) coincidentFlow 40).buckets
          (flowHash (normalizeFlow5tuple coincidentFlow))) := by
  refine ⟨uniqueNodes_coincident true, flowHash_coincidentFlow, fun h => ?_⟩
  have hips := h.2
  revert hips
  decide

end NetEncryptor

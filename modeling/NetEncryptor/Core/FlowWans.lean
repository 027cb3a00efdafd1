import NetEncryptor.Base.Runs
import NetEncryptor.Core.FlowEntries

/-!
# The interfaces in the flow table

`get_next_wan` negates a negative counter before it reduces it modulo the number of interfaces.
The least 32-bit value is its own negation, so for a number of interfaces that does not divide
`2 ^ 31` the entry that is made with it names an interface that does not exist.
`wansReal_iff` says that nothing else can go wrong in any run of the table.
-/

namespace NetEncryptor

def RealWan (wanCount wan : ℤ) : Prop := 0 ≤ wan ∧ wan < wanCount

instance (wanCount wan : ℤ) : Decidable (RealWan wanCount wan) :=
  inferInstanceAs (Decidable (_ ∧ _))

/-! ## The counter -/

/-- The next value of the counter gives an interface: it has a negation, or its remainder is
zero. -/
def CounterOk (nextWan : Int32) (wanCount : ℤ) : Prop :=
  nextWan ≠ Int32.minValue ∨ wanCount ∣ 2 ^ 31

instance (nextWan : Int32) (wanCount : ℤ) : Decidable (CounterOk nextWan wanCount) :=
  inferInstanceAs (Decidable (_ ∨ _))

theorem realWan_tmod {x wanCount : ℤ} (hx : 0 ≤ x) (hw : 0 < wanCount) :
    RealWan wanCount (x.tmod wanCount) :=
  ⟨Int.tmod_nonneg _ hx, Int.tmod_lt_of_pos _ hw⟩

/-- The value after `if (wan < 0) wan = -wan` is negative for the least value alone. -/
theorem toInt_abs_nonneg {nextWan : Int32} (h : nextWan ≠ Int32.minValue) :
    0 ≤ (if nextWan < 0 then -nextWan else nextWan).toInt := by
  have hle := nextWan.le_toInt
  have hlt := nextWan.toInt_lt
  have hne : nextWan.toInt ≠ -2 ^ 31 := fun heq => h (Int32.toInt_inj.mp heq)
  have hzero : (0 : Int32).toInt = 0 := rfl
  split_ifs with hneg
  · rw [Int32.lt_iff_toInt_lt, hzero] at hneg
    rw [Int32.toInt_neg, Int.bmod_eq_of_le (by omega) (by omega)]
    omega
  · rw [Int32.lt_iff_toInt_lt, hzero] at hneg
    omega

/-- **The counter.** `get_next_wan` returns an interface exactly if the counter is not at its least
value, or the number of interfaces divides `2 ^ 31`. -/
theorem getNextWan_real_iff {nextWan : Int32} {wanCount : ℤ} (hw : 0 < wanCount) :
    RealWan wanCount (getNextWan nextWan wanCount).1 ↔ CounterOk nextWan wanCount := by
  unfold getNextWan CounterOk
  rw [if_neg (by omega)]
  simp only
  by_cases h : nextWan = Int32.minValue
  · subst h
    have hmin : (if Int32.minValue < 0 then -Int32.minValue else Int32.minValue).toInt = -2 ^ 31 :=
      rfl
    rw [hmin, Int.neg_tmod]
    have hpow := realWan_tmod (x := 2 ^ 31) (by omega) hw
    unfold RealWan at hpow ⊢
    rw [Int.dvd_iff_tmod_eq_zero]
    refine ⟨fun hreal => .inr (by omega), ?_⟩
    rintro (hne | hdvd)
    · exact absurd rfl hne
    · omega
  · exact iff_of_true (realWan_tmod (toInt_abs_nonneg h) hw) (.inl h)

/-! ## Calls -/

/-- A call on the table, with the time that `get_time_sec` returns to it and whether `malloc`
succeeds. -/
inductive WanCall
  | getWan (now : ℕ) (allocated : Bool) (srcIp dstIp : UInt32) (pktLen : UInt32)
  | addBytes (t : FlowTuple) (extraBytes : UInt32)
  | gc (now : ℕ)

/-- The table, and what `flow_table_get_wan` has returned, the last first. -/
structure WanRun where
  table : FlowTable
  returned : List ℤ

def wanStep (s : WanRun) : WanCall → Option WanRun
  | .getWan now allocated srcIp dstIp pktLen =>
    let r := flowTableGetWan s.table now allocated srcIp dstIp pktLen
    some ⟨r.2, r.1 :: s.returned⟩
  | .addBytes t extraBytes => some { s with table := flowTableAddBytes s.table t extraBytes }
  | .gc now => some { s with table := flowTableGc s.table now }

/-- Every entry by address pair names an interface, and so did every answer. -/
structure WansReal (s : WanRun) : Prop where
  entries : ∀ i srcIp dstIp entry, (.ips srcIp dstIp, entry) ∈ s.table.buckets i →
    RealWan s.table.wanCount entry.currentWan
  answers : ∀ wan ∈ s.returned, RealWan s.table.wanCount wan

/-- The call makes an entry. -/
def MakesEntry (ft : FlowTable) : WanCall → Prop
  | .getWan _ allocated srcIp dstIp _ =>
    allocated = true ∧ ChainTable.find FlowIdent.hash ft.buckets
      (.ips (normalizeFlowIps srcIp dstIp).1 (normalizeFlowIps srcIp dstIp).2) = none
  | .addBytes _ _ => False
  | .gc _ => False

/-- An entry is made only while the counter gives an interface. -/
def EntryOk (s : WanRun) (call : WanCall) : Prop :=
  MakesEntry s.table call → CounterOk s.table.nextWan s.table.wanCount

section

variable {ft : FlowTable} {s s' : WanRun} {call : WanCall}

/-! ## What a call does to the entries -/

/-- Every entry of the second table has the key and the interface of an entry of the first one. -/
def SameWans (ft ft' : FlowTable) : Prop :=
  ∀ i, ∀ e ∈ ft'.buckets i, ∃ e' ∈ ft.buckets i, e'.1 = e.1 ∧ e'.2.currentWan = e.2.currentWan

theorem sameWans_addBytesLoop {ips exact : FlowIdent} {extraBytes : UInt32}
    {es : List (FlowIdent × FlowEntry)} {e : FlowIdent × FlowEntry}
    (he : e ∈ addBytesLoop ips exact extraBytes es) :
    ∃ e' ∈ es, e'.1 = e.1 ∧ e'.2.currentWan = e.2.currentWan := by
  induction es with
  | nil => cases he
  | cons x es ih =>
    have later : e ∈ addBytesLoop ips exact extraBytes es →
        ∃ e' ∈ x :: es, e'.1 = e.1 ∧ e'.2.currentWan = e.2.currentWan := fun hmem => by
      obtain ⟨e', he', h⟩ := ih hmem
      exact ⟨e', List.mem_cons_of_mem _ he', h⟩
    unfold addBytesLoop at he
    split_ifs at he
    · rcases List.mem_cons.mp he with rfl | hmem
      · exact ⟨x, List.mem_cons_self, rfl, rfl⟩
      · exact ⟨e, List.mem_cons_of_mem _ hmem, rfl, rfl⟩
    · rcases List.mem_cons.mp he with rfl | hmem
      · exact ⟨x, List.mem_cons_self, rfl, rfl⟩
      · exact later hmem
    · rcases List.mem_cons.mp he with rfl | hmem
      · exact ⟨e, List.mem_cons_self, rfl, rfl⟩
      · exact later hmem

theorem sameWans_addBytesTo {buckets : ChainTable FlowIdent FlowEntry} (hu : buckets.Unique)
    (hp : buckets.Placed FlowIdent.hash) {ident : FlowIdent} {extraBytes : UInt32} {i : ℕ}
    {e : FlowIdent × FlowEntry} (he : e ∈ addBytesTo buckets ident extraBytes i) :
    ∃ e' ∈ buckets i, e'.1 = e.1 ∧ e'.2.currentWan = e.2.currentWan := by
  unfold addBytesTo at he
  cases hfind : ChainTable.find FlowIdent.hash buckets ident with
  | none =>
    rw [hfind] at he
    exact ⟨e, he, rfl, rfl⟩
  | some entry =>
    rw [hfind] at he
    have hi : FlowIdent.hash e.1 = i := hp.put i e he
    rcases ChainTable.mem_put hu hp he with rfl | ⟨-, hmem⟩
    · exact ⟨(ident, entry), hi ▸ ChainTable.mem_of_find hfind, rfl, rfl⟩
    · exact ⟨e, hmem, rfl, rfl⟩

theorem sameWans_flowTableAddBytes (h : FlowInv ft) (t : FlowTuple) (extraBytes : UInt32) :
    SameWans ft (flowTableAddBytes ft t extraBytes) := by
  intro i e he
  rw [flowTableAddBytes] at he
  split_ifs at he with hsame
  · by_cases hi : i = (FlowIdent.exact (normalizeFlow5tuple t)).hash
    · subst hi
      simp only [Buffer.set_self] at he
      exact sameWans_addBytesLoop he
    · simp only [Buffer.set_of_ne hi] at he
      exact ⟨e, he, rfl, rfl⟩
  · set mid := addBytesTo ft.buckets (.exact (normalizeFlow5tuple t)) extraBytes with hmid
    have hkeys : ∀ j, (mid j).map Prod.fst = (ft.buckets j).map Prod.fst := keys_addBytesTo
    obtain ⟨e₁, he₁, hkey₁, hwan₁⟩ :=
      sameWans_addBytesTo (h.unique.of_keys hkeys) (h.placed.of_keys hkeys) he
    obtain ⟨e₂, he₂, hkey₂, hwan₂⟩ := sameWans_addBytesTo h.unique h.placed he₁
    exact ⟨e₂, he₂, hkey₂.trans hkey₁, hwan₂.trans hwan₁⟩

theorem sameWans_flowTableGc (now : ℕ) : SameWans ft (flowTableGc ft now) := by
  unfold flowTableGc
  refine List.foldlRecOn _ _ (fun i e he => ⟨e, he, rfl, rfl⟩) fun ft' h' j _ => ?_
  intro i e he
  refine h' i e ?_
  simp only [flowTableGcBucket, ChainTable.sweepChain_apply] at he
  split_ifs at he with hi
  · exact hi ▸ (List.mem_filter.mp he).1
  · exact he

/-! ## One call -/

theorem wanCount_flowTableGc (now : ℕ) : (flowTableGc ft now).wanCount = ft.wanCount := by
  unfold flowTableGc
  exact List.foldlRecOn (motive := fun ft' : FlowTable => ft'.wanCount = ft.wanCount) _ _ rfl
    fun _ h _ _ => h

theorem wanCount_flowTableAddBytes (t : FlowTuple) (extraBytes : UInt32) :
    (flowTableAddBytes ft t extraBytes).wanCount = ft.wanCount := by
  rw [flowTableAddBytes]
  split_ifs <;> rfl

/-- The answer to a packet is the interface of the entry that is stored, or `0` if there is no
memory for one. -/
theorem flowTableGetWan_spec (ft : FlowTable) (now : ℕ) (allocated : Bool)
    (srcIp dstIp pktLen : UInt32) :
    let ident := FlowIdent.ips (normalizeFlowIps srcIp dstIp).1 (normalizeFlowIps srcIp dstIp).2
    let r := flowTableGetWan ft now allocated srcIp dstIp pktLen
    (∃ entry, ChainTable.find FlowIdent.hash ft.buckets ident = some entry ∧
      r = ((ft.touch entry now pktLen).currentWan, ft.store ident (ft.touch entry now pktLen))) ∨
    (allocated = false ∧ r = (0, ft)) ∨
    (MakesEntry ft (.getWan now allocated srcIp dstIp pktLen) ∧
      r.1 = (getNextWan ft.nextWan ft.wanCount).1 ∧
      r.2.wanCount = ft.wanCount ∧ ∃ entry, entry.currentWan = r.1 ∧
        r.2.buckets = ChainTable.put FlowIdent.hash ft.buckets ident entry) := by
  intro ident r
  cases hfind : ChainTable.find FlowIdent.hash ft.buckets ident with
  | some entry =>
    refine .inl ⟨entry, rfl, ?_⟩
    simp only [r, flowTableGetWan, ident] at hfind ⊢
    rw [hfind]
  | none =>
    cases hall : allocated with
    | false =>
      refine .inr (.inl ⟨rfl, ?_⟩)
      simp only [r, flowTableGetWan, ident] at hfind ⊢
      rw [hfind, if_pos hall]
    | true =>
      have hr : r = ((getNextWan ft.nextWan ft.wanCount).1,
          { ft with nextWan := (getNextWan ft.nextWan ft.wanCount).2 }.store ident
            ⟨pktLen, (getNextWan ft.nextWan ft.wanCount).1, 0, now⟩) := by
        simp only [r, flowTableGetWan, ident] at hfind ⊢
        rw [hfind, if_neg (by rw [hall]; decide)]
      refine .inr (.inr ⟨⟨rfl, hfind⟩, ?_⟩)
      rw [hr]
      exact ⟨rfl, rfl, _, rfl, rfl⟩

theorem touch_real {entry : FlowEntry} {now : ℕ} {pktLen : UInt32}
    (h : RealWan ft.wanCount entry.currentWan) :
    RealWan ft.wanCount (ft.touch entry now pktLen).currentWan := by
  unfold FlowTable.touch
  simp only
  split_ifs
  · exact realWan_tmod (by have := h.1; omega) (by have := h.1; have := h.2; omega)
  · exact h

theorem WansReal.put (hP : WansReal s) (hI : FlowInv s.table) {ident : FlowIdent}
    {entry : FlowEntry} (hcount : ft.wanCount = s.table.wanCount)
    (hbuckets : ft.buckets = ChainTable.put FlowIdent.hash s.table.buckets ident entry)
    (hreal : RealWan s.table.wanCount entry.currentWan) :
    WansReal ⟨ft, entry.currentWan :: s.returned⟩ where
  entries i srcIp dstIp e he := by
    simp only [hbuckets] at he
    rw [hcount]
    rcases ChainTable.mem_put hI.unique hI.placed he with heq | ⟨-, hmem⟩
    · rw [Prod.mk.injEq] at heq
      rw [heq.2]
      exact hreal
    · exact hP.entries i srcIp dstIp e hmem
  answers wan hwan := by
    rw [hcount]
    rcases List.mem_cons.mp hwan with rfl | hmem
    · exact hreal
    · exact hP.answers wan hmem

theorem WansReal.sameWans (hP : WansReal s) (hsame : SameWans s.table ft)
    (hcount : ft.wanCount = s.table.wanCount) : WansReal { s with table := ft } where
  entries i srcIp dstIp e he := by
    obtain ⟨e', he', hkey, hwan⟩ := hsame i _ he
    simp only at hkey hwan
    rw [hcount, ← hwan]
    exact hP.entries i srcIp dstIp e'.2 (hkey ▸ he')
  answers wan hwan := by
    rw [hcount]
    exact hP.answers wan hwan

/-- What every state of a run has: the representation of the table, and its interfaces. -/
structure WanInv (wanCount : ℤ) (s : WanRun) : Prop where
  table : FlowInv s.table
  wanCount_eq : s.table.wanCount = wanCount
  wanCount_pos : 0 < s.table.wanCount

theorem WanInv.getWan {wanCount : ℤ} (hI : WanInv wanCount s) (hP : WansReal s) (now : ℕ) (allocated : Bool)
    (srcIp dstIp pktLen : UInt32) {r : ℤ × FlowTable}
    (hr : flowTableGetWan s.table now allocated srcIp dstIp pktLen = r) :
    WanInv wanCount ⟨r.2, r.1 :: s.returned⟩ ∧ (WansReal ⟨r.2, r.1 :: s.returned⟩ ↔
      EntryOk s (.getWan now allocated srcIp dstIp pktLen)) := by
  have htable : FlowInv r.2 := hr ▸ hI.table.find now (.getWan allocated srcIp dstIp pktLen)
  have heq := hI.wanCount_eq
  have hpos := hI.wanCount_pos
  have hspec := flowTableGetWan_spec s.table now allocated srcIp dstIp pktLen
  simp only [hr] at hspec
  rcases hspec with ⟨entry, hfind, rfl⟩ | ⟨hall, rfl⟩ | ⟨hmakes, hans, hcount, entry, hwan, hput⟩
  · refine ⟨⟨htable, heq, hpos⟩, iff_of_true ?_ ?_⟩
    · have hreal := hP.entries _ _ _ _ (ChainTable.mem_of_find hfind)
      exact hP.put hI.table rfl rfl (touch_real hreal)
    · rintro ⟨-, hnone⟩
      rw [hfind] at hnone
      cases hnone
  · refine ⟨⟨htable, heq, hpos⟩, iff_of_true ⟨hP.entries, fun wan hmem => ?_⟩ ?_⟩
    · rcases List.mem_cons.mp hmem with rfl | hmem
      · exact ⟨le_rfl, hpos⟩
      · exact hP.answers wan hmem
    · rintro ⟨htrue, -⟩
      rw [hall] at htrue
      cases htrue
  · refine ⟨⟨htable, hcount.trans heq, hcount ▸ hpos⟩, fun hreal _ => ?_, fun hok => ?_⟩
    · have hhead := hreal.answers r.1 List.mem_cons_self
      simp only [hcount, hans] at hhead
      exact (getNextWan_real_iff hpos).mp hhead
    · have hreal := (getNextWan_real_iff hpos).mpr (hok hmakes)
      rw [← hans, ← hwan] at hreal
      rw [← hwan]
      exact hP.put hI.table hcount hput hreal

theorem WanInv.sameWans {wanCount : ℤ} (hI : WanInv wanCount s) (hP : WansReal s)
    (htable : FlowInv ft) (hsame : SameWans s.table ft) (hcount : ft.wanCount = s.table.wanCount) :
    WanInv wanCount { s with table := ft } ∧ WansReal { s with table := ft } :=
  ⟨⟨htable, hcount.trans hI.wanCount_eq, hcount ▸ hI.wanCount_pos⟩, hP.sameWans hsame hcount⟩

/-- **One call**, from a state in which all interfaces are real. -/
theorem WanInv.step {wanCount : ℤ} (hI : WanInv wanCount s) (hP : WansReal s)
    (hstep : wanStep s call = some s') :
    WanInv wanCount s' ∧ (WansReal s' ↔ EntryOk s call) := by
  cases call with
  | getWan now allocated srcIp dstIp pktLen =>
    cases hstep
    exact hI.getWan hP now allocated srcIp dstIp pktLen rfl
  | addBytes t extraBytes =>
    obtain ⟨hI', hP'⟩ := hI.sameWans hP (hI.table.addBytes t extraBytes)
      (sameWans_flowTableAddBytes hI.table t extraBytes) (wanCount_flowTableAddBytes t extraBytes)
    rw [← Option.some.inj hstep]
    exact ⟨hI', iff_of_true hP' fun h => h.elim⟩
  | gc now =>
    obtain ⟨hI', hP'⟩ := hI.sameWans hP (hI.table.step (.gc now)) (sameWans_flowTableGc now)
      (wanCount_flowTableGc now)
    rw [← Option.some.inj hstep]
    exact ⟨hI', iff_of_true hP' fun h => h.elim⟩

theorem exists_run_wanStep : ∀ (calls : List WanCall) (s : WanRun),
    ∃ t, Runs.run wanStep s calls = some t := by
  intro calls
  induction calls with
  | nil => exact fun s => ⟨s, rfl⟩
  | cons call calls ih =>
    intro s
    obtain ⟨s', hs'⟩ : ∃ s', wanStep s call = some s' := by cases call <;> exact ⟨_, rfl⟩
    obtain ⟨t, ht⟩ := ih s'
    exact ⟨t, Runs.run_cons.mpr ⟨s', hs', ht⟩⟩

end

/-- The table as `flow_table_init` leaves it, and no answer yet. -/
def wanRunStart (windows : Option (Buffer UInt32)) (wanCount : ℤ) (nextWan : Int32) : WanRun :=
  ⟨flowTableInit windows wanCount nextWan, []⟩

theorem wanInv_start (windows : Option (Buffer UInt32)) {wanCount : ℤ} (h₁ : 1 ≤ wanCount)
    (nextWan : Int32) : WanInv wanCount (wanRunStart windows wanCount nextWan) where
  table := flowInv_init windows wanCount nextWan
  wanCount_eq := rfl
  wanCount_pos := h₁

theorem wansReal_start (windows : Option (Buffer UInt32)) (wanCount : ℤ) (nextWan : Int32) :
    WansReal (wanRunStart windows wanCount nextWan) where
  entries _ _ _ _ he := by cases he
  answers _ he := by cases he

/-- **When the flow table names real interfaces.** For every number of interfaces, all windows,
every start of the counter and every sequence of calls, all interfaces in entries by address pair
and all answers are real, from the first call to the last, if and only if no entry is made while
the counter is at its least value and the number of interfaces does not divide `2 ^ 31`. -/
theorem wansReal_iff (windows : Option (Buffer UInt32)) {wanCount : ℤ} (h₁ : 1 ≤ wanCount)
    (nextWan : Int32) (calls : List WanCall) :
    Runs.Always wanStep WansReal (wanRunStart windows wanCount nextWan) calls ↔
      Runs.StepsMeet wanStep EntryOk (wanRunStart windows wanCount nextWan) calls := by
  obtain ⟨t, ht⟩ := exists_run_wanStep calls (wanRunStart windows wanCount nextWan)
  refine Runs.always_iff_stepsMeet (I := WanInv wanCount) ?_ (wanInv_start windows h₁ nextWan)
    (wansReal_start windows wanCount nextWan) ht
  intro s call s' hI hP hstep
  exact hI.step hP hstep

/-- For 1, 2, 4, 8 and 16 interfaces nothing can go wrong. -/
theorem wansReal_of_dvd (windows : Option (Buffer UInt32)) {wanCount : ℤ} (h₁ : 1 ≤ wanCount)
    (hdvd : wanCount ∣ 2 ^ 31) (nextWan : Int32) (calls : List WanCall) :
    Runs.Always wanStep WansReal (wanRunStart windows wanCount nextWan) calls := by
  refine Runs.always_of_invariant (I := fun s => WanInv wanCount s ∧ WansReal s) ?_
    (fun s h => h.2) ⟨wanInv_start windows h₁ nextWan, wansReal_start windows wanCount nextWan⟩
  rintro s call s' ⟨hI, hP⟩ hstep
  obtain ⟨hI', hiff⟩ := hI.step hP hstep
  exact ⟨hI', hiff.mpr fun _ => .inr (hI.wanCount_eq ▸ hdvd)⟩

theorem wansReal_iff_overZero :
    Runs.Always wanStep WansReal (wanRunStart none 3 (-1))
      [.getWan 5 true 0x0100000a 0x0200000a 100, .getWan 6 true 0x0100000a 0x0300000a 100] := by
  refine (wansReal_iff none (by decide) (-1) _).mpr ⟨fun _ => .inl (by decide), ?_⟩
  rintro s' hs'
  cases hs'
  exact ⟨fun _ => .inl (by decide), fun _ _ => trivial⟩

/-- With three interfaces, the flow that comes when the counter is at `-2 ^ 31` gets the interface
`-2`. -/
theorem not_wansReal_leastCounter :
    (flowTableGetWan (flowTableInit none 3 Int32.minValue) 5 true 0x0100000a 0x0200000a 100).1 =
        -2 ∧
      ¬ Runs.Always wanStep WansReal (wanRunStart none 3 Int32.minValue)
        [.getWan 5 true 0x0100000a 0x0200000a 100] := by
  have hans : (flowTableGetWan (flowTableInit none 3 Int32.minValue) 5 true 0x0100000a 0x0200000a
      100).1 = -2 := by decide
  refine ⟨hans, fun h => ?_⟩
  have hreal := h [.getWan 5 true 0x0100000a 0x0200000a 100] [] _ rfl rfl
  have hlast := hreal.answers _ List.mem_cons_self
  simp only [wanRunStart, hans] at hlast
  exact absurd hlast.1 (by decide)

end NetEncryptor

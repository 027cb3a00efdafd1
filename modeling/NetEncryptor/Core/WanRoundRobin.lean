import NetEncryptor.Core.WanSlots

/-!
# Weighted round robin

A profile with several WAN interfaces sends its packets round robin, each interface as often as its
weight says.  The counter behind it belongs to the process: every such profile draws from it.
Besides, the slots that are too high for `wrr_slot_to_wan` go to the first interface.
`picks_fair_iff` says when a profile gets its shares all the same.
-/

namespace NetEncryptor

open RoundRobin

/-- What `flow_table_pick_wan_per_packet` is given for the packets of a profile. -/
structure WanShares where
  allowedWans : List ℤ
  allowedWeights : Option (List ℤ)
  two : 2 ≤ allowedWans.length
  length_lt : allowedWans.length < 2 ^ 31
  length_weights : ∀ weights ∈ allowedWeights, weights.length = allowedWans.length
  sum_lt : weightsSumPositive allowedWeights < 2 ^ 31

namespace WanShares

variable (p : WanShares)

/-- Every interface with its weight: with `1` if no weight is positive, and not at all if only its
own is not. -/
def weighted : List (ℤ × ℕ) :=
  if 0 < weightsSumPositive p.allowedWeights then
    p.allowedWans.zip ((p.allowedWeights.getD []).map Int.toNat)
  else p.allowedWans.map fun wan => (wan, 1)

def total : ℕ := (p.weighted.map Prod.snd).sum

def share (wan : ℤ) : ℕ := ((p.weighted.filter fun e => e.1 == wan).map Prod.snd).sum

/-- The interfaces, each as often as its weight. -/
def wheel : List ℤ := p.weighted.flatMap fun e => List.replicate e.2 e.1

/-- The interfaces of the slots. -/
def turn : List ℤ :=
  if 0 < weightsSumPositive p.allowedWeights then cut (2 ^ 31 - p.total) p.wheel else p.wheel

/-- The slots that are too high are those of the first interface anyway. -/
def Whole : Prop :=
  0 < weightsSumPositive p.allowedWeights →
    ∀ x ∈ p.wheel.head?, ∀ y ∈ p.wheel.drop (2 ^ 31 - p.total), y = x

/-! ## The wheel of a profile -/

variable {p}

theorem length_wheel : p.wheel.length = p.total := by
  simp [wheel, total, List.length_flatMap]

theorem count_wheel (wan : ℤ) : p.wheel.count wan = p.share wan := by
  unfold wheel share
  induction p.weighted with
  | nil => rfl
  | cons e es ih =>
    rw [List.flatMap_cons, List.count_append, ih, List.count_replicate, List.filter_cons]
    by_cases he : e.1 = wan
    · simp [he]
    · simp [he]

theorem total_weighted (h : 0 < weightsSumPositive p.allowedWeights) :
    (p.total : ℤ) = weightsSumPositive p.allowedWeights := by
  unfold total weighted
  rw [if_pos h, List.map_snd_zip, sum_toNat]
  · rfl
  · cases hw : p.allowedWeights with
    | none =>
      rw [hw] at h
      exact absurd h (by decide)
    | some ws =>
      have := p.length_weights ws hw
      simp [this]

theorem total_unweighted (h : ¬ 0 < weightsSumPositive p.allowedWeights) :
    p.total = p.allowedWans.length := by
  unfold total weighted
  rw [if_neg h, List.map_map]
  simp [Function.comp_def]

theorem wheel_unweighted (h : ¬ 0 < weightsSumPositive p.allowedWeights) :
    p.wheel = p.allowedWans := by
  unfold wheel weighted
  rw [if_neg h, List.flatMap_map]
  simp [List.replicate_one]

theorem wheel_weighted {weights : List ℤ} (h : 0 < weightsSumPositive (some weights))
    (hw : p.allowedWeights = some weights) : p.wheel = slotWheel (p.allowedWans.zip weights) := by
  unfold wheel weighted slotWheel
  rw [hw, if_pos h, Option.getD_some, List.zip_map_right, List.flatMap_map]
  rfl

/-- The interface of a slot is the one at its place of the turn. -/
theorem wrrSlotToWan_eq (h : 0 < weightsSumPositive p.allowedWeights) {r : ℕ}
    (hr : r < p.total) :
    some (wrrSlotToWan r p.allowedWans p.allowedWeights p.total) = p.turn[r]? := by
  have htotal := total_weighted h
  cases hw : p.allowedWeights with
  | none =>
    rw [hw] at h
    exact absurd h (by decide)
  | some weights =>
    have hlt := p.sum_lt
    rw [hw] at h hlt htotal
    let q : SlotWeights :=
      { allowedWans := p.allowedWans
        allowedWeights := weights
        length_weights := p.length_weights weights hw
        sum_pos := h
        sum_lt := hlt }
    have hq : q.wheel = p.wheel := (wheel_weighted h hw).symm
    have hsome : some (wrrSlotToWan r p.allowedWans (some weights) p.total) =
        p.wheel[slotPlace p.total r]? := by
      rw [htotal, ← hq]
      exact q.some_wan r
    have hturn : p.turn = cut (2 ^ 31 - p.total) p.wheel := if_pos (by rwa [hw])
    rw [hsome, hturn, slotPlace_natCast (by omega) hr, getElem?_cut (by rwa [length_wheel])]

variable (p)

theorem total_pos : 0 < p.total := by
  by_cases h : 0 < weightsSumPositive p.allowedWeights
  · have := total_weighted h
    omega
  · have := p.two
    rw [total_unweighted h]
    omega

theorem total_lt : p.total < 2 ^ 31 := by
  by_cases h : 0 < weightsSumPositive p.allowedWeights
  · have := total_weighted h
    have := p.sum_lt
    omega
  · rw [total_unweighted h]
    exact p.length_lt

theorem length_turn : p.turn.length = p.total := by
  unfold turn
  split_ifs
  · rw [length_cut, length_wheel]
  · exact length_wheel

theorem turn_pos : 0 < p.turn.length := by
  rw [length_turn]
  exact p.total_pos

theorem turn_perm_iff : p.turn.Perm p.wheel ↔ p.Whole := by
  unfold turn Whole
  split_ifs with h
  · rw [cut_perm_iff]
    exact ⟨fun hcut _ => hcut, fun hcut => hcut h⟩
  · exact ⟨fun _ hsum => absurd hsum h, fun _ => List.Perm.refl _⟩

/-- **The pick** of a number is what the turn has at its place. -/
theorem flowTablePickWanPerPacket_eq (seq : UInt64) :
    flowTablePickWanPerPacket seq p.allowedWans p.allowedWeights =
      (pick p.turn p.turn_pos seq.toNat, seq + 1) := by
  have hlt : seq.toNat % p.turn.length < p.turn.length := Nat.mod_lt _ p.turn_pos
  have hpick : some (pick p.turn p.turn_pos seq.toNat) = p.turn[seq.toNat % p.turn.length]? := by
    rw [List.getElem?_eq_getElem hlt, pick, List.get_eq_getElem]
  have htwo := p.two
  unfold flowTablePickWanPerPacket
  split
  · rename_i hnil
    rw [hnil] at htwo
    simp at htwo
  · rename_i hone
    rw [hone] at htwo
    simp at htwo
  · simp only
    rw [length_turn] at hlt hpick
    split_ifs with hsum
    · have hslot : (seq.toNat : ℤ).tmod p.total = (seq.toNat % p.total : ℕ) := by
        rw [Int.tmod_eq_emod_of_nonneg (by omega), Int.natCast_mod]
      rw [← total_weighted hsum, hslot, Prod.mk.injEq]
      exact ⟨Option.some.inj ((wrrSlotToWan_eq hsum hlt).trans hpick.symm), rfl⟩
    · have hturn : p.turn = p.allowedWans := (if_neg hsum).trans (wheel_unweighted hsum)
      have hget : p.turn[seq.toNat % p.total]? = p.allowedWans[seq.toNat % p.total]? := by
        rw [hturn]
      rw [Prod.mk.injEq, List.getD_eq_getElem?_getD, ← total_unweighted hsum, ← hget, ← hpick]
      exact ⟨rfl, rfl⟩

/-- Two interfaces have a share. -/
def Varied : Prop := ∃ v w, v ≠ w ∧ 0 < p.share v ∧ 0 < p.share w

theorem Varied.exists_pick_ne (h : p.Varied) (hturn : p.turn.Perm p.wheel) :
    ∃ m < p.turn.length, pick p.turn p.turn_pos m ≠ pick p.turn p.turn_pos 0 := by
  obtain ⟨v, w, hne, hv, hw⟩ := h
  have hplace : ∀ x, 0 < p.share x → ∃ m < p.turn.length, pick p.turn p.turn_pos m = x := by
    intro x hx
    rw [← count_wheel, List.count_pos_iff, ← hturn.mem_iff] at hx
    obtain ⟨m, hm, hx⟩ := List.mem_iff_getElem.mp hx
    refine ⟨m, hm, ?_⟩
    rw [pick, List.get_eq_getElem]
    simp only [Nat.mod_eq_of_lt hm, hx]
  obtain ⟨m, hm, hmv⟩ := hplace v hv
  obtain ⟨n, hn, hnw⟩ := hplace w hw
  by_cases hzero : pick p.turn p.turn_pos m = pick p.turn p.turn_pos 0
  · refine ⟨n, hn, fun h => hne ?_⟩
    rw [← hmv, ← hnw, hzero, h]
  · exact ⟨m, hm, hzero⟩

variable {p}

theorem map_fst_weighted : p.weighted.map Prod.fst = p.allowedWans := by
  unfold weighted
  split_ifs with h
  · rw [List.map_fst_zip]
    cases hw : p.allowedWeights with
    | none =>
      rw [hw] at h
      exact absurd h (by decide)
    | some weights =>
      rw [Option.getD_some, List.length_map, p.length_weights weights hw]
  · rw [List.map_map]
    exact List.map_id _

theorem weighted_pos (hpos : ∀ weights ∈ p.allowedWeights, ∀ w ∈ weights, 0 < w) :
    ∀ e ∈ p.weighted, 0 < e.2 := by
  intro e he
  unfold weighted at he
  split_ifs at he
  · obtain ⟨w, hw, hew⟩ := List.mem_map.mp (List.of_mem_zip he).2
    cases hweights : p.allowedWeights with
    | none =>
      rw [hweights] at hw
      cases hw
    | some weights =>
      rw [hweights] at hw
      have := hpos weights hweights w hw
      omega
  · obtain ⟨wan, -, rfl⟩ := List.mem_map.mp he
    exact Nat.one_pos

theorem varied_of_nodup (hnodup : p.allowedWans.Nodup)
    (hpos : ∀ weights ∈ p.allowedWeights, ∀ w ∈ weights, 0 < w) : p.Varied := by
  have hshare : ∀ wan ∈ p.allowedWans, 0 < p.share wan := by
    intro wan hwan
    rw [← map_fst_weighted] at hwan
    obtain ⟨e, he, rfl⟩ := List.mem_map.mp hwan
    rw [← count_wheel, List.count_pos_iff]
    have hne : e.2 ≠ 0 := (weighted_pos hpos e he).ne'
    exact List.mem_flatMap.mpr ⟨e, he, List.mem_replicate.mpr ⟨hne, rfl⟩⟩
  have htwo := p.two
  obtain ⟨v, w, wans, hwans⟩ : ∃ v w wans, p.allowedWans = v :: w :: wans := by
    match hl : p.allowedWans with
    | [] => simp [hl] at htwo
    | [_] => simp [hl] at htwo
    | v :: w :: wans => exact ⟨v, w, wans, rfl⟩
  rw [hwans] at hnodup hshare
  refine ⟨v, w, ?_, hshare v (by simp), hshare w (by simp)⟩
  rintro rfl
  exact (List.nodup_cons.mp hnodup).1 List.mem_cons_self

variable (p)

theorem fair_of_not_varied {ns : List ℕ} (hturn : p.turn.Perm p.wheel) (h : ¬ p.Varied) :
    Fair p.turn p.turn_pos p.wheel ns := by
  have hfirst : pick p.turn p.turn_pos 0 ∈ p.wheel := hturn.mem_iff.mp (List.get_mem _ _)
  refine fair_of_single hturn (x := pick p.turn p.turn_pos 0) fun y hy => ?_
  by_contra hne
  refine h ⟨y, _, hne, ?_, ?_⟩
  · rw [← count_wheel]
    exact List.count_pos_iff.mpr hy
  · rw [← count_wheel]
    exact List.count_pos_iff.mpr hfirst

end WanShares

/-! ## Interleaved profiles -/

section

variable {ι : Type*} (profiles : ι → WanShares)

/-- The packets of the profiles, one after the other, each with the interface that it gets. -/
def pickRun : UInt64 → List ι → List (ι × ℤ)
  | _, [] => []
  | seq, i :: is =>
    let r := flowTablePickWanPerPacket seq (profiles i).allowedWans (profiles i).allowedWeights
    (i, r.1) :: pickRun r.2 is

variable [DecidableEq ι]

/-- The interfaces that the packets of one profile get. -/
def picksOf (i : ι) (run : List (ι × ℤ)) : List ℤ := (run.filter fun e => e.1 == i).map Prod.snd

/-- Of any `k` times the total weight of consecutive packets of a profile, every interface gets `k`
times its weight. -/
def FairPicks (p : WanShares) (wans : List ℤ) : Prop :=
  ∀ i k, i + k * p.total ≤ wans.length →
    ∀ wan, ((wans.drop i).take (k * p.total)).count wan = k * p.share wan

/-- Of any total weight of consecutive packets of the profile, the numbers that they have among the
packets of all profiles fall, modulo the total weight, into the slots of each interface as often
as its weight says; the slots that are too high count as the first one. -/
def FullSlots (i : ι) (seq : UInt64) (packets : List ι) : Prop :=
  FullTurns (profiles i).turn (profiles i).turn_pos (profiles i).wheel
    (numbers i seq.toNat packets)

variable {profiles}

theorem picksOf_pickRun (i : ι) (seq : UInt64) (packets : List ι)
    (hwrap : seq.toNat + packets.length ≤ 2 ^ 64) :
    picksOf i (pickRun profiles seq packets) =
      (numbers i seq.toNat packets).map (pick (profiles i).turn (profiles i).turn_pos) := by
  induction packets generalizing seq with
  | nil => rfl
  | cons j packets ih =>
    rw [List.length_cons] at hwrap
    -- the counter wraps at most behind the last packet
    have hrest : picksOf i (pickRun profiles (seq + 1) packets) =
        (numbers i (seq.toNat + 1) packets).map
          (pick (profiles i).turn (profiles i).turn_pos) := by
      cases packets with
      | nil => rfl
      | cons k packets =>
        have hnext : (seq + 1).toNat = seq.toNat + 1 := by
          rw [List.length_cons] at hwrap
          rw [UInt64.toNat_add, UInt64.toNat_one, Nat.mod_eq_of_lt (by omega)]
        rw [ih (seq + 1) (by rw [hnext]; omega), hnext]
    rw [pickRun, (profiles j).flowTablePickWanPerPacket_eq, numbers]
    simp only [picksOf, List.filter_cons] at hrest ⊢
    by_cases hj : j = i
    · subst hj
      simp [hrest]
    · simp [hj, hrest]

theorem fairPicks_iff (p : WanShares) (ns : List ℕ) :
    FairPicks p (ns.map (pick p.turn p.turn_pos)) ↔ Fair p.turn p.turn_pos p.wheel ns := by
  unfold FairPicks Fair window
  simp only [← WanShares.length_wheel, ← WanShares.count_wheel, List.length_map, ← List.map_drop,
    ← List.map_take]

/-- **Weighted round robin.** A profile gets its shares exactly if its packets' numbers in the
shared sequence fall into the slots as the weights say; and it gets them in every interleaving
exactly if none of its slots is lost and there is no other profile. -/
theorem picks_fair_iff :
    (∀ (seq : UInt64) (packets : List ι), seq.toNat + packets.length ≤ 2 ^ 64 → ∀ i,
      (FairPicks (profiles i) (picksOf i (pickRun profiles seq packets)) ↔
        FullSlots profiles i seq packets)) ∧
    ((∀ (seq : UInt64) (packets : List ι), seq.toNat + packets.length ≤ 2 ^ 64 → ∀ i,
      FairPicks (profiles i) (picksOf i (pickRun profiles seq packets))) ↔
        ∀ i, (profiles i).Whole ∧ ((profiles i).Varied → ∀ j, j = i)) := by
  have hiff : ∀ (seq : UInt64) (packets : List ι), seq.toNat + packets.length ≤ 2 ^ 64 → ∀ i,
      (FairPicks (profiles i) (picksOf i (pickRun profiles seq packets)) ↔
        Fair (profiles i).turn (profiles i).turn_pos (profiles i).wheel
          (numbers i seq.toNat packets)) := by
    intro seq packets hwrap i
    rw [picksOf_pickRun i seq packets hwrap]
    exact fairPicks_iff _ _
  refine ⟨fun seq packets hwrap i => (hiff seq packets hwrap i).trans fair_iff, ?_, ?_⟩
  · intro hfair i
    have hlt := (profiles i).total_lt
    -- the first turn of a profile that is alone
    have hturn : (profiles i).turn.Perm (profiles i).wheel := by
      have hlen : (profiles i).turn.length = (profiles i).wheel.length := by
        rw [WanShares.length_turn, WanShares.length_wheel]
      have hwrap : (0 : UInt64).toNat + (List.replicate (profiles i).wheel.length i).length ≤
          2 ^ 64 := by
        rw [List.length_replicate, WanShares.length_wheel, UInt64.toNat_zero]
        omega
      have := (hiff 0 _ hwrap i).mp (hfair 0 _ hwrap i)
      rw [numbers_alone fun j hj => List.eq_of_mem_replicate hj, List.length_replicate] at this
      exact perm_of_fair_range' hlen this
    refine ⟨(profiles i).turn_perm_iff.mp hturn, fun hvaried j => ?_⟩
    by_contra hne
    obtain ⟨m, hm, hpick⟩ := hvaried.exists_pick_ne _ hturn
    refine not_fair_skip hturn hm hpick ?_
    have hwrap : (0 : UInt64).toNat + (List.replicate m i ++
        j :: List.replicate ((profiles i).turn.length - m) i).length ≤ 2 ^ 64 := by
      rw [WanShares.length_turn] at hm ⊢
      simp only [List.length_append, List.length_cons, List.length_replicate, UInt64.toNat_zero]
      omega
    have := (hiff 0 _ hwrap i).mp (hfair 0 _ hwrap i)
    rwa [UInt64.toNat_zero, numbers_skip hne] at this
  · intro h seq packets hwrap i
    have hturn := (profiles i).turn_perm_iff.mpr (h i).1
    refine (hiff seq packets hwrap i).mpr ?_
    by_cases hvaried : (profiles i).Varied
    · rw [numbers_alone fun j _ => (h i).2 hvaried j]
      exact fair_range' hturn _ _
    · exact (profiles i).fair_of_not_varied hturn hvaried

end

/-! ## What the worker hands over -/

/-- `allowed` with `weights`: the interfaces of the profile that are there, and if some weight is
positive only those with a positive one. -/
def allowedOf (cfg : AppConfig) (p : ProfileConfig) : List (ℤ × ℤ) :=
  let anyWeight := p.wanIndices.any fun e => 0 < e.2
  (p.wanIndices.filter fun e =>
    decide (0 ≤ e.1 ∧ e.1 < (cfg.wans.length : ℤ)) && !(anyWeight && decide (e.2 ≤ 0))).take maxInterfaces

/-- `wp`. -/
def weightsOf (cfg : AppConfig) (p : ProfileConfig) : Option (List ℤ) :=
  if p.wanIndices.any fun e => 0 < e.2 then some ((allowedOf cfg p).map Prod.snd) else none

/-- The interface, the flow table and `g_pkt_wrr_seq` afterwards. -/
def selectWanIdxForPacket (cfg : AppConfig) (ft : FlowTable) (seq : UInt64) (now : ℕ)
    (allocated : Bool) (localIdx : ℤ) (t : FlowTuple) (pktLen : UInt32) :
    ℤ × FlowTable × UInt64 :=
  let byFlow :=
    let r := flowTableGetWan ft now allocated t.srcIp t.dstIp pktLen
    (r.1, r.2, seq)
  match (configSelectProfileForLocal cfg localIdx).bind fun pi => cfg.profiles[pi]? with
  | none => byFlow
  | some p =>
    if 1 < p.wanIndices.length then
      match allowedOf cfg p with
      | [] => byFlow
      | [e] => (e.1, ft, seq)
      | _ :: _ :: _ =>
        let r := flowTablePickWanPerPacket seq ((allowedOf cfg p).map Prod.fst) (weightsOf cfg p)
        (r.1, ft, r.2)
    else
      match p.wanIndices with
      | [e] => if 0 ≤ e.1 ∧ e.1 < (cfg.wans.length : ℤ) then (e.1, ft, seq) else byFlow
      | _ => byFlow

/-- **The shares of a profile.** What the worker hands over has no weight that is not positive, so
that every interface has a share. -/
theorem weightsOf_pos {cfg : AppConfig} {p : ProfileConfig} :
    ∀ weights ∈ weightsOf cfg p, weights.length = (allowedOf cfg p).length ∧
      ∀ w ∈ weights, 0 < w := by
  intro weights hweights
  unfold weightsOf at hweights
  split_ifs at hweights with hany
  · cases hweights
    refine ⟨List.length_map _, fun w hw => ?_⟩
    obtain ⟨e, he, rfl⟩ := List.mem_map.mp hw
    unfold allowedOf at he
    have := (List.mem_filter.mp (List.mem_of_mem_take he)).2
    rw [hany] at this
    simp only [Bool.true_and, Bool.and_eq_true, Bool.not_eq_true', decide_eq_false_iff_not,
      not_le] at this
    exact this.2
  · cases hweights

/-- The shares of a profile with several interfaces. -/
def sharesOf (cfg : AppConfig) (p : ProfileConfig) (htwo : 2 ≤ (allowedOf cfg p).length)
    (hsum : weightsSumPositive (weightsOf cfg p) < 2 ^ 31) : WanShares where
  allowedWans := (allowedOf cfg p).map Prod.fst
  allowedWeights := weightsOf cfg p
  two := by rwa [List.length_map]
  length_lt := by
    have : (allowedOf cfg p).length ≤ maxInterfaces := List.length_take_le _ _
    rw [List.length_map]
    exact lt_of_le_of_lt this (by decide)
  length_weights weights h := by rw [(weightsOf_pos weights h).1, List.length_map]
  sum_lt := hsum

theorem sharesOf_varied {cfg : AppConfig} {p : ProfileConfig}
    (htwo : 2 ≤ (allowedOf cfg p).length) (hsum : weightsSumPositive (weightsOf cfg p) < 2 ^ 31)
    (hnodup : ((allowedOf cfg p).map Prod.fst).Nodup) : (sharesOf cfg p htwo hsum).Varied :=
  WanShares.varied_of_nodup hnodup fun weights h => (weightsOf_pos weights h).2

/-- **The worker** takes the next pick of its profile. -/
theorem selectWanIdxForPacket_eq {cfg : AppConfig} {p : ProfileConfig} {localIdx : ℤ} {pi : ℕ}
    (hpi : configSelectProfileForLocal cfg localIdx = some pi) (hp : cfg.profiles[pi]? = some p)
    (hwans : 1 < p.wanIndices.length) (htwo : 2 ≤ (allowedOf cfg p).length)
    (hsum : weightsSumPositive (weightsOf cfg p) < 2 ^ 31) (ft : FlowTable) (seq : UInt64) (now : ℕ)
    (allocated : Bool) (t : FlowTuple) (pktLen : UInt32) :
    selectWanIdxForPacket cfg ft seq now allocated localIdx t pktLen =
      (pick (sharesOf cfg p htwo hsum).turn (sharesOf cfg p htwo hsum).turn_pos seq.toNat, ft,
        seq + 1) := by
  have hpick := (sharesOf cfg p htwo hsum).flowTablePickWanPerPacket_eq seq
  simp only [sharesOf] at hpick
  unfold selectWanIdxForPacket
  simp only [hpi, Option.bind_some, hp, if_pos hwans]
  split
  · rename_i hnil
    rw [hnil] at htwo
    simp at htwo
  · rename_i hone
    rw [hone] at htwo
    simp at htwo
  · rw [hpick]
    rfl

/-! ## Two profiles in turn -/

/-- A profile with the first two interfaces and no weights. -/
def twoWans : WanShares where
  allowedWans := [0, 1]
  allowedWeights := none
  two := by decide
  length_lt := by decide
  length_weights _ h := by cases h
  sum_lt := by decide

/-- Its packets when it is the only one. -/
theorem picks_fair_alone :
    FairPicks twoWans
      (picksOf () (pickRun (fun _ : Unit => twoWans) 0 [(), (), (), ()])) ∧
      FullSlots (fun _ : Unit => twoWans) () 0 [(), (), (), ()] := by
  have hwhole : twoWans.Whole := fun h => absurd h (by decide)
  have hfair := picks_fair_iff.2.mpr (fun _ : Unit => ⟨hwhole, fun _ _ => rfl⟩) 0
    [(), (), (), ()] (by decide) ()
  exact ⟨hfair, (picks_fair_iff.1 0 [(), (), (), ()] (by decide) ()).mp hfair⟩

/-- Two such profiles whose packets come in turn: the first one sends everything to interface
`0`. -/
theorem not_fairPicks_inTurn :
    picksOf true (pickRun (fun _ : Bool => twoWans) 0 [true, false, true, false]) = [0, 0] ∧
      ¬ FairPicks twoWans
        (picksOf true (pickRun (fun _ : Bool => twoWans) 0 [true, false, true, false])) := by
  have hpicks : picksOf true (pickRun (fun _ : Bool => twoWans) 0 [true, false, true, false]) =
      [0, 0] := by
    decide
  refine ⟨hpicks, fun h => ?_⟩
  rw [hpicks] at h
  exact absurd (h 0 1 (by decide) 0) (by decide)

end NetEncryptor

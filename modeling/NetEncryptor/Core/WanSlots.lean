import NetEncryptor.Base.RoundRobin
import NetEncryptor.Core.FlowTable

/-!
# The slots of weighted interfaces

`wrr_slot_to_wan` cuts the numbers below the sum of the positive weights into one piece for each
interface, as long as its weight, and looks a slot up modulo the sum.  It adds the sum once more to
make the remainder of a negative slot positive; from a sum of `2 ^ 30 + 1` on that sum is too large
for an `int` in the highest slots, which all go to the first piece.  `SlotWeights.partition_iff`
says when every interface has its slots.
-/

namespace NetEncryptor

open RoundRobin

/-- The interfaces, each as often as its weight. -/
def slotWheel (es : List (ℤ × ℤ)) : List ℤ := es.flatMap fun e => List.replicate e.2.toNat e.1

/-- The place on the wheel that a slot is given. -/
def slotPlace (sumw slot : ℤ) : ℕ := (((slot.tmod sumw + sumw).bmod (2 ^ 32)).tmod sumw).toNat

section

variable {es : List (ℤ × ℤ)}

theorem mem_slotWheel {x : ℤ} : x ∈ slotWheel es ↔ ∃ e ∈ es, 0 < e.2 ∧ e.1 = x := by
  unfold slotWheel
  rw [List.mem_flatMap]
  refine exists_congr fun e => and_congr_right fun _ => ?_
  rw [List.mem_replicate]
  constructor
  · rintro ⟨hne, rfl⟩
    exact ⟨by omega, rfl⟩
  · rintro ⟨hpos, rfl⟩
    exact ⟨by omega, rfl⟩

theorem slotWheel_pairwise (h : (es.map Prod.fst).Pairwise (· ≤ ·)) :
    (slotWheel es).Pairwise (· ≤ ·) := by
  unfold slotWheel
  rw [List.pairwise_flatMap]
  refine ⟨fun e _ => List.pairwise_replicate.mpr (.inr le_rfl), ?_⟩
  refine (List.pairwise_map.mp h).imp fun hle x hx y hy => ?_
  rw [List.eq_of_mem_replicate hx, List.eq_of_mem_replicate hy]
  exact hle

theorem count_slotWheel (h : (es.map Prod.fst).Nodup) {e : ℤ × ℤ} (he : e ∈ es) :
    (slotWheel es).count e.1 = e.2.toNat := by
  induction es with
  | nil => cases he
  | cons e' es ih =>
    rw [List.map_cons, List.nodup_cons] at h
    rw [slotWheel, List.flatMap_cons, List.count_append, List.count_replicate]
    rcases List.mem_cons.mp he with rfl | he
    · have hrest : (slotWheel es).count e.1 = 0 := by
        rw [List.count_eq_zero, mem_slotWheel]
        rintro ⟨e', he', -, hsame⟩
        exact h.1 (List.mem_map.mpr ⟨e', he', hsame⟩)
      rw [if_pos (beq_self_eq_true _)]
      exact congrArg (e.2.toNat + ·) hrest
    · have hne : ¬ e'.1 == e.1 := by
        rw [beq_iff_eq]
        intro hsame
        exact h.1 (hsame ▸ List.mem_map_of_mem he)
      rw [if_neg hne, Nat.zero_add]
      exact ih h.2 he

end

/-! ## Places -/

/-- The loop finds the place of a slot on the wheel; everything negative is on its first place. -/
theorem wrrSlotLoop_eq (es : List (ℤ × ℤ)) (s acc : ℤ) :
    wrrSlotLoop s acc es = (slotWheel es)[(s - acc).toNat]? := by
  induction es generalizing acc with
  | nil => rfl
  | cons e es ih =>
    rw [wrrSlotLoop, slotWheel, List.flatMap_cons]
    split_ifs with hw hs
    · rw [ih acc, Int.toNat_of_nonpos hw, List.replicate_zero, List.nil_append]
      rfl
    · have hlt : (s - acc).toNat < e.2.toNat := by omega
      rw [List.getElem?_append_left (by rwa [List.length_replicate]),
        List.getElem?_replicate_of_lt hlt]
    · have hge : (List.replicate e.2.toNat e.1).length ≤ (s - acc).toNat := by
        rw [List.length_replicate]
        omega
      rw [ih (acc + e.2), List.getElem?_append_right hge, List.length_replicate, slotWheel]
      congr 1
      omega

/-- A slot is on its place modulo the sum, unless the sum is too large for an `int`. -/
theorem slotPlace_eq {sumw : ℤ} (hpos : 0 < sumw) (hlt : sumw < 2 ^ 31) (slot : ℤ) :
    slotPlace sumw slot =
      if slot.tmod sumw + sumw < 2 ^ 31 then (slot % sumw).toNat else 0 := by
  have hlo := Int.lt_tmod_of_pos slot hpos
  have hhi := Int.tmod_lt_of_pos slot hpos
  unfold slotPlace
  split_ifs with hsum
  · have hmod : (slot.tmod sumw + sumw) % sumw = slot % sumw := by
      conv_rhs => rw [← Int.tmod_add_mul_tdiv slot sumw, Int.add_mul_emod_self_left]
      exact Int.add_emod_right _ _
    rw [Int.bmod_eq_of_le (by omega) (by omega), Int.tmod_eq_emod_of_nonneg (by omega), hmod]
  · have hneg : (slot.tmod sumw + sumw).bmod (2 ^ 32) < 0 := by
      rw [Int.bmod_def]
      omega
    have hrem : 0 ≤ (-(slot.tmod sumw + sumw).bmod (2 ^ 32)).tmod sumw :=
      Int.tmod_nonneg _ (by omega)
    rw [Int.neg_tmod] at hrem
    omega

theorem slotPlace_natCast {sumw r : ℕ} (hlt : sumw < 2 ^ 31) (hr : r < sumw) :
    slotPlace sumw r = if r < 2 ^ 31 - sumw then r else 0 := by
  rw [slotPlace_eq (by omega) (by omega), Int.tmod_eq_of_lt (by omega) (by omega),
    Int.emod_eq_of_lt (by omega) (by omega), Int.toNat_natCast]
  split_ifs
  · rfl
  · omega
  · omega
  · rfl

theorem sum_toNat (ws : List ℤ) :
    ((ws.map Int.toNat).sum : ℤ) = (ws.map fun w => max w 0).sum := by
  induction ws with
  | nil => rfl
  | cons w ws ih =>
    rw [List.map_cons, List.map_cons, List.sum_cons, List.sum_cons, Nat.cast_add, ih,
      Int.toNat_eq_max]

/-! ## Weighted interfaces -/

/-- Interfaces with weights whose positive ones have a sum that is an `int`. -/
structure SlotWeights where
  allowedWans : List ℤ
  allowedWeights : List ℤ
  length_weights : allowedWeights.length = allowedWans.length
  sum_pos : 0 < weightsSumPositive (some allowedWeights)
  sum_lt : weightsSumPositive (some allowedWeights) < 2 ^ 31

namespace SlotWeights

variable (p : SlotWeights)

def sumw : ℤ := weightsSumPositive (some p.allowedWeights)

def wan (slot : ℤ) : ℤ := wrrSlotToWan slot p.allowedWans (some p.allowedWeights) p.sumw

/-- The same weights, with the positions in place of the interfaces. -/
def positions : SlotWeights where
  allowedWans := (List.range p.allowedWeights.length).map Nat.cast
  allowedWeights := p.allowedWeights
  length_weights := by rw [List.length_map, List.length_range]
  sum_pos := p.sum_pos
  sum_lt := p.sum_lt

def pos (slot : ℤ) : ℤ := p.positions.wan slot

def wheel : List ℤ := slotWheel (p.allowedWans.zip p.allowedWeights)

/-- Every position has as many of the slots from `0` on as its weight says. -/
def Counts : Prop :=
  ∀ i (hi : i < p.allowedWeights.length),
    (((List.range p.sumw.toNat).countP fun r : ℕ => p.pos r == i : ℕ) : ℤ) =
      max p.allowedWeights[i] 0

/-- Every slot has the interface of its remainder. -/
def Residues : Prop := ∀ slot : ℤ, p.wan slot = p.wan (slot % p.sumw)

/-- No slot falls back on the last interface. -/
def NoFallback : Prop :=
  p.allowedWeights.getLastD 0 ≤ 0 → ∀ slot, p.pos slot ≠ p.allowedWeights.length - 1

/-- The slots are cut up as the weights say. -/
structure Partition : Prop where
  counts : p.Counts
  residues : p.Residues
  noFallback : p.NoFallback

/-- A single weight is positive. -/
def Single : Prop :=
  ∀ i j (hi : i < p.allowedWeights.length) (hj : j < p.allowedWeights.length),
    0 < p.allowedWeights[i] → 0 < p.allowedWeights[j] → i = j

variable {p}

theorem length_wheel : (p.wheel.length : ℤ) = p.sumw := by
  have hmap : (p.allowedWans.zip p.allowedWeights).map (fun e => e.2.toNat) =
      p.allowedWeights.map Int.toNat := by
    have hsnd : (p.allowedWans.zip p.allowedWeights).map Prod.snd = p.allowedWeights :=
      List.map_snd_zip p.length_weights.le
    rw [← congrArg (List.map Int.toNat) hsnd, List.map_map]
    rfl
  unfold wheel slotWheel sumw weightsSumPositive
  rw [List.length_flatMap]
  simp only [List.length_replicate]
  rw [hmap, sum_toNat, Option.getD_some]

theorem slotPlace_lt (slot : ℤ) : slotPlace p.sumw slot < p.wheel.length := by
  have hpos : 0 < p.sumw := p.sum_pos
  have := length_wheel (p := p)
  have := Int.emod_nonneg slot hpos.ne'
  have := Int.emod_lt_of_pos slot hpos
  rw [slotPlace_eq hpos p.sum_lt]
  split_ifs <;> omega

theorem some_wan (slot : ℤ) : some (p.wan slot) = p.wheel[slotPlace p.sumw slot]? := by
  have hpos : 0 < p.sumw := p.sum_pos
  have hplace := slotPlace_lt (p := p) slot
  unfold wan
  simp only [wrrSlotToWan]
  rw [if_neg (by omega), wrrSlotLoop_eq, Int.sub_zero]
  unfold slotPlace wheel at hplace ⊢
  rw [List.getElem?_eq_getElem hplace]
  rfl

theorem map_wan_range :
    ((List.range p.wheel.length).map fun r : ℕ => p.wan r) = cut (2 ^ 31 - p.wheel.length) p.wheel := by
  have hlen := length_wheel (p := p)
  have hlt : p.sumw < 2 ^ 31 := p.sum_lt
  refine List.ext_getElem? fun r => ?_
  by_cases hr : r < p.wheel.length
  · rw [getElem?_cut hr, ← slotPlace_natCast (by omega) hr, hlen, ← some_wan,
      List.getElem?_map, List.getElem?_range hr]
    rfl
  · rw [List.getElem?_eq_none (by simpa using hr), List.getElem?_eq_none (by simpa using hr)]

theorem wheel_positions :
    p.wheel = p.positions.wheel.map fun i => p.allowedWans.getD i.toNat 0 := by
  have hwans : p.allowedWans =
      p.positions.allowedWans.map fun i => p.allowedWans.getD i.toNat 0 := by
    refine List.ext_getElem? fun i => ?_
    by_cases hi : i < p.allowedWans.length <;> simp [positions, p.length_weights, hi]
  unfold wheel slotWheel
  conv_lhs => rw [hwans, List.zip_map_left, List.flatMap_map]
  rw [List.map_flatMap]
  simp [positions]

/-- **The interface of a slot** is the one at its position. -/
theorem wan_eq_getD (slot : ℤ) : p.wan slot = p.allowedWans.getD (p.pos slot).toNat 0 := by
  have hplace := some_wan (p := p) slot
  have hpos : some (p.pos slot) = p.positions.wheel[slotPlace p.sumw slot]? := some_wan slot
  rw [wheel_positions, List.getElem?_map, ← hpos, Option.map_some] at hplace
  exact Option.some.inj hplace

/-! ## Positions -/

theorem mem_zip_positions {e : ℤ × ℤ} :
    e ∈ p.positions.allowedWans.zip p.allowedWeights ↔
      ∃ i, ∃ hi : i < p.allowedWeights.length, e = ((i : ℤ), p.allowedWeights[i]) := by
  have hlen : (p.positions.allowedWans.zip p.allowedWeights).length = p.allowedWeights.length := by
    simp [positions]
  rw [List.mem_iff_getElem]
  constructor
  · rintro ⟨i, hi, rfl⟩
    exact ⟨i, hlen ▸ hi, by simp [positions]⟩
  · rintro ⟨i, hi, rfl⟩
    exact ⟨i, hlen ▸ hi, by simp [positions]⟩

theorem map_fst_positions :
    (p.positions.allowedWans.zip p.allowedWeights).map Prod.fst =
      (List.range p.allowedWeights.length).map Nat.cast :=
  List.map_fst_zip p.positions.length_weights.ge

theorem mem_wheel_positions {x : ℤ} : x ∈ p.positions.wheel ↔
    ∃ i, ∃ hi : i < p.allowedWeights.length, 0 < p.allowedWeights[i] ∧ x = i := by
  have hmem : x ∈ p.positions.wheel ↔
      ∃ e ∈ p.positions.allowedWans.zip p.allowedWeights, 0 < e.2 ∧ e.1 = x := mem_slotWheel
  refine hmem.trans ⟨?_, ?_⟩
  · rintro ⟨e, he, hpos, rfl⟩
    obtain ⟨i, hi, rfl⟩ := mem_zip_positions.mp he
    exact ⟨i, hi, hpos, rfl⟩
  · rintro ⟨i, hi, hpos, rfl⟩
    exact ⟨_, mem_zip_positions.mpr ⟨i, hi, rfl⟩, hpos, rfl⟩

theorem count_wheel_positions {i : ℕ} (hi : i < p.allowedWeights.length) :
    p.positions.wheel.count (i : ℤ) = p.allowedWeights[i].toNat := by
  refine count_slotWheel ?_ (mem_zip_positions.mpr ⟨i, hi, rfl⟩)
  show (List.map Prod.fst (p.positions.allowedWans.zip p.allowedWeights)).Nodup
  rw [map_fst_positions]
  exact List.nodup_range.map Nat.cast_injective

theorem wheel_positions_pairwise : p.positions.wheel.Pairwise (· ≤ ·) := by
  refine slotWheel_pairwise ?_
  show (List.map Prod.fst (p.positions.allowedWans.zip p.allowedWeights)).Pairwise (· ≤ ·)
  rw [map_fst_positions, List.pairwise_map]
  exact List.pairwise_lt_range.imp fun h => by omega

theorem map_pos_range : ((List.range p.sumw.toNat).map fun r : ℕ => p.pos r) =
    cut (2 ^ 31 - p.positions.wheel.length) p.positions.wheel := by
  have hlen : (p.positions.wheel.length : ℤ) = p.sumw := length_wheel
  rw [← hlen, Int.toNat_natCast]
  exact map_wan_range

theorem wheel_positions_eq_iff_single :
    (∀ x ∈ p.positions.wheel, ∀ y ∈ p.positions.wheel, x = y) ↔ p.Single := by
  constructor
  · intro h i j hi hj hpi hpj
    have := h _ (mem_wheel_positions.mpr ⟨i, hi, hpi, rfl⟩) _
      (mem_wheel_positions.mpr ⟨j, hj, hpj, rfl⟩)
    exact_mod_cast this
  · intro h x hx y hy
    obtain ⟨i, hi, hpi, rfl⟩ := mem_wheel_positions.mp hx
    obtain ⟨j, hj, hpj, rfl⟩ := mem_wheel_positions.mp hy
    rw [h i j hi hj hpi hpj]

theorem cut_perm_iff_sumw : (cut (2 ^ 31 - p.positions.wheel.length) p.positions.wheel).Perm
    p.positions.wheel ↔ p.sumw ≤ 2 ^ 30 ∨ p.Single := by
  have hlen : (p.positions.wheel.length : ℤ) = p.sumw := length_wheel
  by_cases hle : p.sumw ≤ 2 ^ 30
  · rw [cut_of_le (by omega)]
    exact ⟨fun _ => .inl hle, fun _ => List.Perm.refl _⟩
  · rw [cut_perm_iff_of_pairwise wheel_positions_pairwise (by omega),
      wheel_positions_eq_iff_single]
    exact ⟨.inr, fun h => h.resolve_left hle⟩

theorem counts_iff : p.Counts ↔ p.sumw ≤ 2 ^ 30 ∨ p.Single := by
  have hcount (i : ℕ) : ((List.range p.sumw.toNat).countP fun r : ℕ => p.pos r == i) =
      (cut (2 ^ 31 - p.positions.wheel.length) p.positions.wheel).count (i : ℤ) := by
    rw [← map_pos_range, List.count, List.countP_map]
    rfl
  rw [← cut_perm_iff_sumw, List.perm_iff_count]
  unfold Counts
  simp only [hcount]
  constructor
  · intro h x
    by_cases hx : x ∈ p.positions.wheel
    · obtain ⟨i, hi, -, rfl⟩ := mem_wheel_positions.mp hx
      have := h i hi
      rw [count_wheel_positions hi]
      omega
    · rw [List.count_eq_zero.mpr hx, List.count_eq_zero.mpr fun hcut => hx (mem_of_mem_cut hcut)]
  · intro h i hi
    rw [h, count_wheel_positions hi, Int.toNat_eq_max]

theorem pos_mem (slot : ℤ) : p.pos slot ∈ p.positions.wheel :=
  List.mem_of_getElem? (some_wan slot).symm

theorem residues_of_le (h : p.sumw ≤ 2 ^ 30) : p.Residues := by
  intro slot
  have hpos : 0 < p.sumw := p.sum_pos
  have hplace (slot : ℤ) : slotPlace p.sumw slot = (slot % p.sumw).toNat := by
    have := Int.tmod_lt_of_pos slot hpos
    rw [slotPlace_eq hpos p.sum_lt, if_pos (by omega)]
  refine Option.some.inj ?_
  rw [some_wan, some_wan, hplace, hplace, Int.emod_emod]

theorem residues_of_single (h : p.Single) : p.Residues := by
  intro slot
  rw [wan_eq_getD, wan_eq_getD,
    wheel_positions_eq_iff_single.mpr h _ (pos_mem slot) _ (pos_mem (slot % p.sumw))]

theorem noFallback : p.NoFallback := by
  intro hlast slot hpos
  obtain ⟨i, hi, hweight, hpos'⟩ := mem_wheel_positions.mp (pos_mem (p := p) slot)
  have hi' : i = p.allowedWeights.length - 1 := by omega
  subst hi'
  rw [List.getLastD_eq_getLast?, List.getLast?_eq_getElem?, List.getElem?_eq_getElem hi,
    Option.getD_some] at hlast
  omega

variable (p)

/-- **The slots** are cut up as the weights say exactly if their sum is at most `2 ^ 30`, or
a single interface has them all. -/
theorem partition_iff : p.Partition ↔ p.sumw ≤ 2 ^ 30 ∨ p.Single := by
  constructor
  · intro h
    exact counts_iff.mp h.counts
  · intro h
    exact ⟨counts_iff.mpr h, h.elim residues_of_le residues_of_single, noFallback⟩

end SlotWeights

/-- Two interfaces whose weights have the sum `2 ^ 30 + 1`. -/
def heavyWeights : SlotWeights where
  allowedWans := [0, 1]
  allowedWeights := [2 ^ 30, 1]
  length_weights := rfl
  sum_pos := by decide
  sum_lt := by decide

/-- The highest slot belongs to interface `1` by its weight, and so does slot `-1`; it goes to
interface `0`. -/
theorem not_partition_heavyWeights :
    heavyWeights.wan (2 ^ 30) = 0 ∧ heavyWeights.wan (-1) = 1 ∧ -1 % heavyWeights.sumw = 2 ^ 30 ∧
      ¬ heavyWeights.Partition := by
  have hhigh : heavyWeights.wan (2 ^ 30) = 0 := by decide
  have hneg : heavyWeights.wan (-1) = 1 := by decide
  have hmod : -1 % heavyWeights.sumw = 2 ^ 30 := by decide
  refine ⟨hhigh, hneg, hmod, fun h => ?_⟩
  have := h.residues (-1)
  rw [hmod, hhigh, hneg] at this
  exact absurd this (by decide)

end NetEncryptor

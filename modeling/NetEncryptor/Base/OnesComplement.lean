import Mathlib.Algebra.Order.BigOperators.Group.Finset
import Mathlib.Data.Nat.ModEq
import Mathlib.Tactic.Linarith

/-!
# One's complement sums of 16-bit words

`foldCarry` is the loop that adds the carries of an accumulator back into its low 16 bits until
no carry is left.  Its result is the representative of the sum modulo `65535` in `1 … 65535`,
or `0` for the empty sum (`fold16_eq`), so a checksum over the words of a message is the unique
value below `65535` that completes their sum to the all-ones word (`fold16_add_eq_iff`).
-/

namespace OnesComplement

/-- `while (sum >> 16) sum = (sum & 0xFFFF) + (sum >> 16)`, for at most `fuel` rounds. -/
def foldCarry : ℕ → ℕ → ℕ
  | 0, s => s
  | fuel + 1, s => if s / 65536 = 0 then s else foldCarry fuel (s % 65536 + s / 65536)

/-- Fold the carries of `s`.  Each round decreases `s`, so `s` rounds are enough. -/
def fold16 (s : ℕ) : ℕ := foldCarry s s

theorem foldCarry_eq : ∀ {fuel s : ℕ}, s ≤ fuel →
    foldCarry fuel s = if s = 0 then 0 else (s - 1) % 65535 + 1 := by
  intro fuel
  induction fuel with
  | zero =>
    intro s h
    obtain rfl : s = 0 := by omega
    rfl
  | succ fuel ih =>
    intro s h
    unfold foldCarry
    by_cases hs : s / 65536 = 0
    · rw [if_pos hs]
      split_ifs <;> omega
    · rw [if_neg hs, ih (by omega), if_neg (by omega), if_neg (by omega)]
      omega

/-- **The fold.** The representative of `s` modulo `65535` in `1 … 65535`. -/
theorem fold16_eq (s : ℕ) : fold16 s = if s = 0 then 0 else (s - 1) % 65535 + 1 :=
  foldCarry_eq le_rfl

theorem fold16_pos {s : ℕ} (hs : 0 < s) : 0 < fold16 s := by
  rw [fold16_eq, if_neg (by omega)]; omega

/-- A word completes a nonempty sum to all ones exactly when it is the complement of the folded
sum or, the folded sum being all ones, the other zero. -/
theorem fold16_add_eq_iff {s w : ℕ} (hs : 0 < s) (hw : w ≤ 65535) :
    fold16 (s + w) = 65535 ↔ w = 65535 - fold16 s ∨ fold16 s = 65535 ∧ w = 65535 := by
  rw [fold16_eq, fold16_eq, if_neg (by omega), if_neg (by omega)]
  omega

theorem fold16_add_compl (s : ℕ) : fold16 (s + (65535 - fold16 s)) = 65535 := by
  rcases Nat.eq_zero_or_pos s with rfl | hs
  · rw [fold16_eq, fold16_eq]
    rfl
  · exact (fold16_add_eq_iff hs (Nat.sub_le _ _)).mpr (.inl rfl)

/-- The sum of the words at the even offsets below `len`, the last one possibly half. -/
def sumWords (word : ℕ → ℕ) (len : ℕ) : ℕ := ∑ k ∈ Finset.range ((len + 1) / 2), word (2 * k)

theorem sumWords_congr {w w' : ℕ → ℕ} {len : ℕ} (h : ∀ k, 2 * k < len → w (2 * k) = w' (2 * k)) :
    sumWords w len = sumWords w' len :=
  Finset.sum_congr rfl fun k hk => h k (by rw [Finset.mem_range] at hk; omega)

theorem sumWords_le {w : ℕ → ℕ} {len : ℕ} (h : ∀ i, w i ≤ 65535) :
    sumWords w len ≤ 65535 * ((len + 1) / 2) := by
  have := Finset.sum_le_card_nsmul (Finset.range ((len + 1) / 2)) (fun k => w (2 * k)) 65535
    fun k _ => h _
  simpa [sumWords, mul_comm] using this

/-- A 32-bit accumulator that starts at `start` takes every word of the range in without
overflowing, whatever part of the range it has seen. -/
def AccFits (start : ℕ) (w : ℕ → ℕ) (len : ℕ) : Prop :=
  ∀ m ≤ len, start + sumWords w m < 2 ^ 32

theorem accFits_of_le {start len : ℕ} {w : ℕ → ℕ} (h : ∀ i, w i ≤ 65535)
    (hlen : start + 65535 * ((len + 1) / 2) < 2 ^ 32) : AccFits start w len := by
  intro m hm
  have hsum : sumWords w m ≤ 65535 * ((m + 1) / 2) := sumWords_le h
  have hround : (m + 1) / 2 ≤ (len + 1) / 2 := by omega
  omega

theorem le_sumWords {w : ℕ → ℕ} {len k : ℕ} (hk : 2 * k < len) :
    w (2 * k) ≤ sumWords w len := by
  have hm : k ∈ Finset.range ((len + 1) / 2) := Finset.mem_range.mpr (by omega)
  unfold sumWords
  rw [← Finset.add_sum_erase _ _ hm]
  exact Nat.le_add_right _ _

theorem sumWords_update {w w' : ℕ → ℕ} {len k : ℕ} (hk : 2 * k < len)
    (h : ∀ j, j ≠ k → w (2 * j) = w' (2 * j)) :
    sumWords w len + w' (2 * k) = sumWords w' len + w (2 * k) := by
  have hm : k ∈ Finset.range ((len + 1) / 2) := Finset.mem_range.mpr (by omega)
  unfold sumWords
  rw [← Finset.add_sum_erase _ _ hm, ← Finset.add_sum_erase _ (fun k => w' (2 * k)) hm]
  have : ∑ j ∈ (Finset.range ((len + 1) / 2)).erase k, w (2 * j) =
      ∑ j ∈ (Finset.range ((len + 1) / 2)).erase k, w' (2 * j) :=
    Finset.sum_congr rfl fun j hj => h j (Finset.ne_of_mem_erase hj)
  omega

end OnesComplement

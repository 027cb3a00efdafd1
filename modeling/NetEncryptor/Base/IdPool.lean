import Mathlib.Data.List.Basic
import Mathlib.Tactic.Linarith

/-!
# Small ids

Ids from `1` to `n`, some of them used.  A claim gets the id that it wants, if that is one of them
and unused, and else the lowest one that is unused.
-/

namespace IdPool

/-- The lowest unused id. -/
def lowest (n : ℕ) (used : ℕ → Bool) : Option ℕ := (List.range' 1 n).find? fun j => !used j

/-- The wanted id can be had. -/
def Free (n : ℕ) (used : ℕ → Bool) (wanted : ℤ) : Prop :=
  1 ≤ wanted ∧ wanted ≤ n ∧ used wanted.toNat = false

instance (n : ℕ) (used : ℕ → Bool) (wanted : ℤ) : Decidable (Free n used wanted) :=
  inferInstanceAs (Decidable (_ ∧ _))

def claim (n : ℕ) (used : ℕ → Bool) (wanted : ℤ) : Option ℕ :=
  if Free n used wanted then some wanted.toNat else lowest n used

variable {n i j : ℕ} {used : ℕ → Bool} {wanted : ℤ}

theorem lowest_eq_some : lowest n used = some j ↔
    1 ≤ j ∧ j ≤ n ∧ used j = false ∧ ∀ i, 1 ≤ i → i < j → used i = true := by
  unfold lowest
  rw [List.find?_range'_eq_some]
  simp only [Bool.not_eq_true', List.mem_range'_1, Bool.not_not]
  refine ⟨fun ⟨hfree, ⟨h₁, h₂⟩, hlow⟩ => ⟨h₁, by omega, hfree, fun i hi hij => ?_⟩,
    fun ⟨h₁, h₂, hfree, hlow⟩ => ⟨hfree, ⟨h₁, by omega⟩, fun i hi hij => ?_⟩⟩
  · exact hlow i hi hij
  · exact hlow i hi hij

theorem claim_of_free (h : Free n used wanted) : claim n used wanted = some wanted.toNat :=
  if_pos h

theorem claim_of_not_free (h : ¬ Free n used wanted) : claim n used wanted = lowest n used :=
  if_neg h

/-- **A claim gets an unused id.** -/
theorem claim_spec (h : claim n used wanted = some j) : 1 ≤ j ∧ j ≤ n ∧ used j = false := by
  by_cases hfree : Free n used wanted
  · rw [claim_of_free hfree] at h
    obtain rfl := Option.some.inj h
    obtain ⟨h₁, h₂, hused⟩ := hfree
    exact ⟨by omega, by omega, hused⟩
  · rw [claim_of_not_free hfree, lowest_eq_some] at h
    exact ⟨h.1, h.2.1, h.2.2.1⟩

theorem claim_eq_none_iff : claim n used wanted = none ↔ ∀ j, 1 ≤ j → j ≤ n → used j = true := by
  by_cases hfree : Free n used wanted
  · rw [claim_of_free hfree]
    refine ⟨fun h => (by cases h), fun hall => ?_⟩
    obtain ⟨h₁, h₂, hused⟩ := hfree
    rw [hall wanted.toNat (by omega) (by omega)] at hused
    cases hused
  · rw [claim_of_not_free hfree, lowest, List.find?_range'_eq_none]
    simp only [Bool.not_not]
    refine ⟨fun h j h₁ h₂ => h j h₁ (by omega), fun h j h₁ h₂ => h j h₁ (by omega)⟩

/-- **A refused claim gets the id it wanted all the same** exactly if the lowest unused id is that
one. -/
theorem lowest_eq_iff (hj : 1 ≤ j) (h : lowest n used = some i) (hused : used j = false) :
    i = j ↔ ∀ k, 1 ≤ k → k < j → used k = true := by
  obtain ⟨h₁, -, hfree, hlow⟩ := lowest_eq_some.mp h
  refine ⟨fun hij => hij ▸ hlow, fun hall => ?_⟩
  rcases lt_trichotomy i j with hlt | heq | hgt
  · rw [hall i h₁ hlt] at hfree
    cases hfree
  · exact heq
  · rw [hlow j hj hgt] at hused
    cases hused

theorem claim_eq_self_iff (h₁ : 1 ≤ j) (h₂ : j ≤ n) (h : claim n used j = some i) :
    i = j ↔ used j = false := by
  refine ⟨fun hij => hij ▸ (claim_spec h).2.2, fun hused => ?_⟩
  have hfree : Free n used j := ⟨by omega, by omega, by rwa [Int.toNat_natCast]⟩
  rw [claim_of_free hfree, Int.toNat_natCast] at h
  exact (Option.some.inj h).symm

theorem claim_used_eq_iff {k : ℕ} (hj : 1 ≤ j) (hk : used k = true) (h : claim n used k = some i) :
    i = j ↔ used j = false ∧ ∀ m, 1 ≤ m → m < j → used m = true := by
  have hlow : lowest n used = some i := by
    rw [← h]
    refine (claim_of_not_free fun hfree => ?_).symm
    have := hfree.2.2
    rw [Int.toNat_natCast, hk] at this
    cases this
  refine ⟨fun heq => ?_, fun ⟨hfree, hall⟩ => (lowest_eq_iff hj hlow hfree).mpr hall⟩
  have hfree : used j = false := heq ▸ (claim_spec h).2.2
  exact ⟨hfree, (lowest_eq_iff hj hlow hfree).mp heq⟩

end IdPool

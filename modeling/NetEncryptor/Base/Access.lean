import Mathlib.Tactic.Common

/-!
# Accesses to a buffer

What a function does with lengths and with the bytes of a buffer, as a list of accesses: unsigned
subtractions, and ranges of bytes that are read or written.  Such a list is in bounds of a buffer of
`n` bytes when no subtraction wraps and every byte of every range is one of the `n`.
-/

inductive Access
  /-- `a - b` of unsigned numbers. -/
  | sub (a b : ℕ)
  /-- `len` bytes from `off` on. -/
  | bytes (off len : ℕ)
  deriving DecidableEq

namespace Access

/-- The true difference is not negative; the bytes are there. -/
def InBounds (n : ℕ) : Access → Prop
  | sub a b => b ≤ a
  | bytes off len => ∀ j, off ≤ j → j < off + len → j < n

variable {n off len : ℕ} {a b : ℕ} {l l' : List Access}

@[simp] theorem inBounds_sub : (sub a b).InBounds n ↔ b ≤ a := Iff.rfl

@[simp] theorem inBounds_bytes : (bytes off len).InBounds n ↔ len = 0 ∨ off + len ≤ n := by
  constructor
  · intro h
    rcases Nat.eq_zero_or_pos len with hzero | hpos
    · exact .inl hzero
    · have := h (off + len - 1) (by omega) (by omega)
      exact .inr (by omega)
  · intro h j hj hj'
    omega

def AllInBounds (n : ℕ) (l : List Access) : Prop := ∀ a ∈ l, a.InBounds n

@[simp] theorem allInBounds_nil : AllInBounds n [] := by
  intro a ha
  cases ha

@[simp] theorem allInBounds_cons {a : Access} :
    AllInBounds n (a :: l) ↔ a.InBounds n ∧ AllInBounds n l := List.forall_mem_cons

@[simp] theorem allInBounds_append :
    AllInBounds n (l ++ l') ↔ AllInBounds n l ∧ AllInBounds n l' := List.forall_mem_append

theorem allInBounds_ite {c : Prop} [Decidable c] :
    AllInBounds n (if c then l else l') ↔ (c → AllInBounds n l) ∧ (¬ c → AllInBounds n l') := by
  split_ifs with h <;> simp [h]

end Access

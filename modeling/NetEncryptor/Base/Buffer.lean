import Mathlib.Data.List.Basic
import Mathlib.Logic.Function.Basic
import Mathlib.Tactic.Linarith

/-!
# Buffers

A buffer is the memory seen from a base address, one cell per offset.  It has no end: how many
cells are meaningful is a length kept beside it, as in C.  `set` stores one cell, `write` stores
a list, `copy` moves a range of one buffer into another (`memcpy`, and `memmove` when both are
the same buffer: the source is read before anything is stored), `slice` reads a range.

Every operation has a rule for the cells it touches and one for the others; two reads are
compared cell by cell (`slice_eq_slice_iff`).  A function that fills a buffer from the front, one copy
behind the other, writes exactly the cells before where it ends (`FillsFrom.mem_written_iff`).
-/

abbrev Buffer (α : Type*) := ℕ → α

namespace Buffer

variable {α : Type*}

def set (b : Buffer α) (i : ℕ) (x : α) : Buffer α := fun j => if j = i then x else b j

/-- Copy `n` cells of `src` from offset `s` to offset `d` of `dst`. -/
def copy (dst : Buffer α) (d : ℕ) (src : Buffer α) (s n : ℕ) : Buffer α :=
  fun j => if d ≤ j ∧ j < d + n then src (s + (j - d)) else dst j

def write (dst : Buffer α) (d : ℕ) (l : List α) : Buffer α :=
  fun j => if d ≤ j then (l[j - d]?).getD (dst j) else dst j

def slice (b : Buffer α) (off n : ℕ) : List α := (List.range n).map fun k => b (off + k)

/-! ## Single cells -/

@[simp] theorem set_self (b : Buffer α) (i : ℕ) (x : α) : b.set i x i = x := if_pos rfl

theorem set_of_ne {b : Buffer α} {i j : ℕ} {x : α} (h : j ≠ i) : b.set i x j = b j := if_neg h

theorem copy_of_mem {dst src : Buffer α} {d s n j : ℕ} (h₁ : d ≤ j) (h₂ : j < d + n) :
    dst.copy d src s n j = src (s + (j - d)) := if_pos ⟨h₁, h₂⟩

theorem copy_add {dst src : Buffer α} {d s n k : ℕ} (hk : k < n) :
    dst.copy d src s n (d + k) = src (s + k) := by
  rw [copy_of_mem (by omega) (by omega), Nat.add_sub_cancel_left]

theorem copy_of_lt {dst src : Buffer α} {d s n j : ℕ} (h : j < d) :
    dst.copy d src s n j = dst j := if_neg (by omega)

theorem copy_of_ge {dst src : Buffer α} {d s n j : ℕ} (h : d + n ≤ j) :
    dst.copy d src s n j = dst j := if_neg (by omega)

theorem write_of_lt {dst : Buffer α} {d j : ℕ} {l : List α} (h : j < d) :
    dst.write d l j = dst j := if_neg (by omega)

theorem write_of_ge {dst : Buffer α} {d j : ℕ} {l : List α} (h : d + l.length ≤ j) :
    dst.write d l j = dst j := by
  unfold write
  rw [if_pos (by omega), List.getElem?_eq_none (by omega), Option.getD_none]

theorem write_add {dst : Buffer α} {d k : ℕ} {l : List α} (hk : k < l.length) :
    dst.write d l (d + k) = l[k] := by
  unfold write
  rw [if_pos (by omega), Nat.add_sub_cancel_left, List.getElem?_eq_getElem hk, Option.getD_some]

theorem write_congr {b c : Buffer α} {d j : ℕ} {l : List α} (h : b j = c j) :
    b.write d l j = c.write d l j := by
  unfold write; rw [h]

theorem copy_copy_add (dst src : Buffer α) (d s m n : ℕ) :
    (dst.copy d src s m).copy (d + m) src (s + m) n = dst.copy d src s (m + n) := by
  funext j
  by_cases h₁ : j < d
  · rw [copy_of_lt (by omega), copy_of_lt h₁, copy_of_lt h₁]
  obtain ⟨k, rfl⟩ := Nat.exists_eq_add_of_le (not_lt.mp h₁)
  by_cases h₂ : k < m
  · rw [copy_of_lt (by omega), copy_add h₂, copy_add (by omega)]
  by_cases h₃ : k < m + n
  · rw [copy_of_mem (by omega) (by omega), copy_add h₃]
    congr 1
    omega
  · rw [copy_of_ge (by omega), copy_of_ge (by omega), copy_of_ge (by omega)]

/-! ## Reads -/

@[simp] theorem length_slice (b : Buffer α) (off n : ℕ) : (b.slice off n).length = n := by
  simp [slice]

theorem getElem_slice (b : Buffer α) {off n k : ℕ} (hk : k < (b.slice off n).length) :
    (b.slice off n)[k] = b (off + k) := by
  simp [slice]

theorem getElem?_slice (b : Buffer α) {off n k : ℕ} (hk : k < n) :
    (b.slice off n)[k]? = some (b (off + k)) := by
  simp [slice, hk]

theorem headD_slice (b : Buffer α) (off : ℕ) {n : ℕ} (hn : 0 < n) (x : α) :
    (b.slice off n).headD x = b off := by
  rw [List.headD_eq_head?_getD, List.head?_eq_getElem?, getElem?_slice _ hn, Option.getD_some,
    Nat.add_zero]

@[simp] theorem slice_zero (b : Buffer α) (off : ℕ) : b.slice off 0 = [] := rfl

theorem slice_eq_slice_iff {b c : Buffer α} {o p n : ℕ} :
    b.slice o n = c.slice p n ↔ ∀ k < n, b (o + k) = c (p + k) := by
  constructor
  · intro h k hk
    have := congrArg (fun l => l[k]?) h
    simpa only [getElem?_slice _ hk, Option.some.injEq] using this
  · intro h
    refine List.ext_getElem (by simp) fun k hk _ => ?_
    rw [getElem_slice, getElem_slice]
    exact h k (by simpa using hk)

theorem slice_eq_iff {b : Buffer α} {o n : ℕ} {l : List α} :
    b.slice o n = l ↔ l.length = n ∧ ∀ k (h : k < l.length), b (o + k) = l[k] := by
  constructor
  · rintro rfl
    exact ⟨by simp, fun k hk => (getElem_slice _ hk).symm⟩
  · rintro ⟨hl, h⟩
    refine List.ext_getElem (by simp [hl]) fun k hk hk' => ?_
    rw [getElem_slice, h k hk']

theorem slice_congr {b c : Buffer α} {o n : ℕ} (h : ∀ j, o ≤ j → j < o + n → b j = c j) :
    b.slice o n = c.slice o n :=
  slice_eq_slice_iff.mpr fun k hk => h _ (by omega) (by omega)

theorem slice_write_self (b : Buffer α) (o : ℕ) {l : List α} {n : ℕ} (h : l.length = n) :
    (b.write o l).slice o n = l :=
  slice_eq_iff.mpr ⟨h, fun _ hk => write_add hk⟩

theorem slice_write_of_disjoint (b : Buffer α) {o n d : ℕ} {l : List α}
    (h : o + n ≤ d ∨ d + l.length ≤ o) : (b.write d l).slice o n = b.slice o n := by
  refine slice_congr fun j hlow hhigh => ?_
  rcases h with hbefore | hbehind
  · exact write_of_lt (by omega)
  · exact write_of_ge (by omega)

theorem slice_copy_self (dst src : Buffer α) (d s n : ℕ) :
    (dst.copy d src s n).slice d n = src.slice s n :=
  slice_eq_slice_iff.mpr fun _ hk => copy_add hk

theorem slice_add (b : Buffer α) (o m n : ℕ) :
    b.slice o (m + n) = b.slice o m ++ b.slice (o + m) n := by
  unfold slice
  rw [List.range_add, List.map_append, List.map_map]
  congr 1
  refine List.map_congr_left fun k _ => ?_
  show b (o + (m + k)) = b (o + m + k)
  rw [Nat.add_assoc]

/-! ## Written cells -/

/-- The cells that a function of a buffer does not leave as they are. -/
def written (f : Buffer α → Buffer α) : Set ℕ := { j | ∃ b, f b j ≠ b j }

/-- From cell `m` on, the function stores into the cells before `n`, whatever they held, and into no
others. -/
structure FillsFrom (m n : ℕ) (f : Buffer α → Buffer α) : Prop where
  fills : ∀ j, m ≤ j → j < n → ∀ b b', f b j = f b' j
  keeps : ∀ j, m ≤ j → n ≤ j → ∀ b, f b j = b j

variable {m n : ℕ} {f g : Buffer α → Buffer α}

theorem fillsFrom_id (m : ℕ) : FillsFrom m 0 fun b : Buffer α => b where
  fills j _ hj := absurd hj (Nat.not_lt_zero j)
  keeps _ _ _ _ := rfl

theorem FillsFrom.copy (h : FillsFrom m n f) (src : Buffer α) (s k : ℕ) :
    FillsFrom m (n + k) fun b => (f b).copy n src s k where
  fills j hm hj b b' := by
    by_cases hn : j < n
    · rw [copy_of_lt hn, copy_of_lt hn]
      exact h.fills j hm hn b b'
    · rw [copy_of_mem (not_lt.mp hn) hj, copy_of_mem (not_lt.mp hn) hj]
  keeps j hm hj b := by
    rw [copy_of_ge hj]
    exact h.keeps j hm (by omega) b

theorem FillsFrom.congr (h : FillsFrom m n f) (hg : ∀ b, ∀ j ≥ m, g b j = f b j) :
    FillsFrom m n g where
  fills j hm hj b b' := by
    rw [hg b j hm, hg b' j hm]
    exact h.fills j hm hj b b'
  keeps j hm hj b := (hg b j hm).trans (h.keeps j hm hj b)

theorem FillsFrom.set (h : FillsFrom m n f) {i : ℕ} (hi : i < m) (x : α) :
    FillsFrom m n fun b => (f b).set i x :=
  h.congr fun _ _ hj => set_of_ne (by omega)

theorem FillsFrom.mem_written_iff [Nontrivial α] (h : FillsFrom m n f) {j : ℕ} (hm : m ≤ j) :
    j ∈ written f ↔ j < n := by
  constructor
  · rintro ⟨b, hb⟩
    exact not_le.mp fun hj => hb (h.keeps j hm hj b)
  · intro hj
    -- the value does not depend on the buffer, and some buffer holds another one
    obtain ⟨x, hx⟩ := exists_ne (f (fun _ => Classical.arbitrary α) j)
    exact ⟨fun _ => x, fun heq => hx (heq.symm.trans (h.fills j hm hj _ _))⟩

end Buffer

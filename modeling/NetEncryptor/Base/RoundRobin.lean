import Mathlib.Data.List.Pairwise
import Mathlib.Data.List.Perm.Basic
import Mathlib.Data.List.Rotate
import Mathlib.Order.Basic

/-!
# Round robin on a shared counter

A wheel is a list of targets, each as often as its weight.  A request takes the next number of a
counter, and the target at that place of a turn, which is repeated for ever.  The turn should be the
wheel; where it is another list of that length, the shares are still those of the wheel.  Several
users with wheels of their own can draw from one counter: then the numbers of one user have gaps.

`fair_iff` reduces the shares over any number of turns to those over one turn; `fair_range'` says
that numbers without gaps give every target its share if the turn has the wheel's targets in some
order, and `not_fair_skip` that a single gap need not.
-/

namespace RoundRobin

section

variable {α : Type*} (turn : List α) (hpos : 0 < turn.length)

def pick (n : ℕ) : α := turn.get ⟨n % turn.length, Nat.mod_lt n hpos⟩

/-- The targets of `m` numbers from the `i`-th on. -/
def window (ns : List ℕ) (i m : ℕ) : List α := ((ns.drop i).take m).map (pick turn hpos)

variable (wheel : List α)

/-- Over any number of turns every target gets its share of the wheel. -/
def Fair [DecidableEq α] (ns : List ℕ) : Prop :=
  ∀ i k, i + k * wheel.length ≤ ns.length → ∀ x,
    (window turn hpos ns i (k * wheel.length)).count x = k * wheel.count x

/-- The numbers of any one turn are spread over the places of the targets as the wheel is. -/
def FullTurns (ns : List ℕ) : Prop :=
  ∀ i, i + wheel.length ≤ ns.length → (window turn hpos ns i wheel.length).Perm wheel

variable {turn hpos wheel} {ns : List ℕ}

theorem window_add (i m m' : ℕ) :
    window turn hpos ns i (m + m') = window turn hpos ns i m ++ window turn hpos ns (i + m) m' := by
  unfold window
  rw [List.take_add, List.map_append, List.drop_drop]

/-- Numbers from anywhere on, as many as the turn is long, give the turn, rotated. -/
theorem map_pick_range' (n : ℕ) :
    (List.range' n turn.length).map (pick turn hpos) = turn.rotate n := by
  refine List.ext_getElem ?_ fun j h₁ h₂ => ?_
  · rw [List.length_map, List.length_range', List.length_rotate]
  · rw [List.getElem_map, List.getElem_range', List.getElem_rotate, pick, List.get_eq_getElem]
    simp only [Nat.one_mul, Nat.add_comm n]

theorem window_range' {n m i l : ℕ} (h : i + l ≤ m) :
    window turn hpos (List.range' n m) i l =
      (List.range' (n + i) l).map (pick turn hpos) := by
  unfold window
  rw [List.drop_range', List.take_range'_of_length_ge (by omega), Nat.mul_one]

variable [DecidableEq α]

/-- **One turn is enough.** The shares are right over any number of turns exactly if they are over
one. -/
theorem fair_iff : Fair turn hpos wheel ns ↔ FullTurns turn hpos wheel ns := by
  constructor
  · intro h i hi
    refine List.perm_iff_count.mpr fun x => ?_
    have := h i 1 (by rwa [Nat.one_mul]) x
    rwa [Nat.one_mul, Nat.one_mul] at this
  · intro h i k
    induction k generalizing i with
    | zero =>
      intro _ x
      rw [Nat.zero_mul, Nat.zero_mul]
      rfl
    | succ k ih =>
      intro hi x
      rw [Nat.succ_mul, Nat.add_comm] at hi
      rw [Nat.succ_mul, Nat.add_comm (k * wheel.length), window_add, List.count_append,
        (h i (by omega)).count_eq, ih (i + wheel.length) (by omega), Nat.succ_mul]
      exact Nat.add_comm _ _

/-- **Numbers without gaps** give every target its share. -/
theorem fair_range' (hturn : turn.Perm wheel) (n m : ℕ) :
    Fair turn hpos wheel (List.range' n m) := by
  refine fair_iff.mpr fun i hi => ?_
  rw [List.length_range'] at hi
  rw [window_range' hi, ← hturn.length_eq, map_pick_range']
  exact (List.rotate_perm turn (n + i)).trans hturn

theorem perm_of_fair_range' (hlen : turn.length = wheel.length)
    (h : Fair turn hpos wheel (List.range' 0 wheel.length)) : turn.Perm wheel := by
  have hturn := fair_iff.mp h 0 (by rw [List.length_range', Nat.zero_add])
  rwa [window_range' (by omega), Nat.zero_add, ← hlen, map_pick_range', List.rotate_zero] at hturn

theorem fair_of_single (hturn : turn.Perm wheel) {x : α} (h : ∀ y ∈ wheel, y = x) :
    Fair turn hpos wheel ns := by
  refine fair_iff.mpr fun i hi => ?_
  have hwheel : wheel = List.replicate wheel.length x := List.eq_replicate_of_mem h
  have hlen : (window turn hpos ns i wheel.length).length = wheel.length := by
    unfold window
    rw [List.length_map, List.length_take, List.length_drop]
    omega
  have hwindow : window turn hpos ns i wheel.length = List.replicate wheel.length x := by
    refine List.eq_replicate_iff.mpr ⟨hlen, fun y hy => ?_⟩
    obtain ⟨n, -, rfl⟩ := List.mem_map.mp hy
    exact h _ (hturn.mem_iff.mp (List.get_mem turn _))
  rw [hwindow, ← hwheel]

/-- **One gap** at the place of another target than the first one takes a share away. -/
theorem not_fair_skip (hturn : turn.Perm wheel) {m : ℕ} (hm : m < turn.length)
    (hne : pick turn hpos m ≠ pick turn hpos 0) :
    ¬ Fair turn hpos wheel (List.range' 0 m ++ List.range' (m + 1) (turn.length - m)) := by
  intro h
  have hlen := hturn.length_eq
  have hshare := fair_iff.mp h 0 (by simp only [List.length_append, List.length_range']; omega)
  have hwhole : (List.range' 0 (turn.length + 1)).map (pick turn hpos) =
      turn ++ [pick turn hpos 0] := by
    rw [List.range'_concat, List.map_append, map_pick_range', List.rotate_zero]
    simp [pick]
  have hsplit : List.range' 0 (turn.length + 1) =
      List.range' 0 m ++ m :: List.range' (m + 1) (turn.length - m) := by
    have hsum : turn.length + 1 = m + (turn.length - m + 1) := by omega
    rw [← List.range'_succ, hsum, ← List.range'_append_1, Nat.zero_add]
  have hwindow : window turn hpos (List.range' 0 m ++ List.range' (m + 1) (turn.length - m)) 0
      wheel.length = (List.range' 0 m).map (pick turn hpos) ++
        (List.range' (m + 1) (turn.length - m)).map (pick turn hpos) := by
    unfold window
    rw [List.drop_zero, List.take_of_length_le, List.map_append]
    simp only [List.length_append, List.length_range']
    omega
  rw [hwindow] at hshare
  rw [hsplit, List.map_append, List.map_cons] at hwhole
  -- the targets of the first turn and one more number, counted in both ways
  have hcount := congrArg (List.count (pick turn hpos m)) hwhole
  rw [List.count_append, List.count_cons_self, List.count_append, hturn.count_eq,
    ← hshare.count_eq, List.count_append, List.count_singleton, if_neg] at hcount
  · omega
  · simpa using hne.symm

end

/-! ## Turns that are cut -/

section

variable {α : Type*}

/-- The wheel with the places from `c` on given to the first target. -/
def cut (c : ℕ) : List α → List α
  | [] => []
  | x :: xs => (x :: xs).take c ++ List.replicate ((x :: xs).length - c) x

variable {c : ℕ} {wheel : List α}

@[simp] theorem length_cut : (cut c wheel).length = wheel.length := by
  cases wheel with
  | nil => rfl
  | cons x xs =>
    rw [cut, List.length_append, List.length_take, List.length_replicate]
    omega

theorem getElem?_cut {r : ℕ} (hr : r < wheel.length) :
    (cut c wheel)[r]? = wheel[if r < c then r else 0]? := by
  cases wheel with
  | nil => exact absurd hr (Nat.not_lt_zero r)
  | cons x xs =>
    rw [cut]
    split_ifs with hc
    · rw [List.getElem?_append_left (by rw [List.length_take]; omega), List.getElem?_take_of_lt hc]
    · rw [List.getElem?_append_right (by rw [List.length_take]; omega),
        List.getElem?_replicate_of_lt (by rw [List.length_take]; omega)]
      rfl

theorem cut_of_le (h : wheel.length ≤ c) : cut c wheel = wheel := by
  cases wheel with
  | nil => rfl
  | cons x xs =>
    rw [cut, List.take_of_length_le h, Nat.sub_eq_zero_of_le h, List.replicate_zero,
      List.append_nil]

theorem mem_of_mem_cut {x : α} (h : x ∈ cut c wheel) : x ∈ wheel := by
  cases wheel with
  | nil => exact h
  | cons y ys =>
    rcases List.mem_append.mp h with htake | hfirst
    · exact List.mem_of_mem_take htake
    · rw [(List.mem_replicate.mp hfirst).2]
      exact List.mem_cons_self

/-- Nothing is lost exactly if the places from `c` on are the first target's anyway. -/
theorem cut_perm_iff : (cut c wheel).Perm wheel ↔ ∀ x ∈ wheel.head?, ∀ y ∈ wheel.drop c, y = x := by
  cases wheel with
  | nil => simp [cut]
  | cons x xs =>
    have hsplit : ((x :: xs).take c ++ List.replicate ((x :: xs).length - c) x).Perm
        ((x :: xs).take c ++ (x :: xs).drop c) ↔
          (List.replicate ((x :: xs).length - c) x).Perm ((x :: xs).drop c) :=
      List.perm_append_left_iff _
    rw [List.take_append_drop] at hsplit
    rw [cut, hsplit, List.replicate_perm, eq_comm, List.eq_replicate_iff, List.length_drop]
    simp

theorem cut_perm_iff_of_pairwise [PartialOrder α] (hsorted : wheel.Pairwise (· ≤ ·))
    (hc : c < wheel.length) :
    (cut c wheel).Perm wheel ↔ ∀ x ∈ wheel, ∀ y ∈ wheel, x = y := by
  rw [cut_perm_iff]
  constructor
  · intro htail
    cases wheel with
    | nil => exact absurd hc (Nat.not_lt_zero c)
    | cons x xs =>
      have hne : (x :: xs).drop c ≠ [] := by
        rw [Ne, List.drop_eq_nil_iff]
        omega
      have hlast : (x :: xs).getLast (List.cons_ne_nil x xs) = x := by
        rw [← List.getLast_drop hne]
        exact htail x rfl _ (List.getLast_mem hne)
      -- every target is between the first and the last one
      have hall : ∀ y ∈ x :: xs, y = x := by
        intro y hy
        have hle := hsorted.rel_getLast hy
        rw [hlast] at hle
        exact le_antisymm hle (hsorted.rel_head hy)
      intro y hy z hz
      rw [hall y hy, hall z hz]
  · intro hsingle x hx y hy
    exact hsingle y (List.mem_of_mem_drop hy) x (List.mem_of_mem_head? hx)

end

/-! ## Users of one counter -/

section

variable {ι : Type*} [DecidableEq ι]

/-- The numbers of user `i`, if the requests take theirs from `n` on. -/
def numbers (i : ι) : ℕ → List ι → List ℕ
  | _, [] => []
  | n, j :: js => if j = i then n :: numbers i (n + 1) js else numbers i (n + 1) js

theorem numbers_append (i : ι) (js js' : List ι) (n : ℕ) :
    numbers i n (js ++ js') = numbers i n js ++ numbers i (n + js.length) js' := by
  induction js generalizing n with
  | nil => simp [numbers]
  | cons j js ih =>
    rw [List.cons_append, numbers, numbers, List.length_cons, ih, Nat.add_assoc n 1,
      Nat.add_comm 1]
    split_ifs
    · rfl
    · rfl

theorem numbers_alone {i : ι} {js : List ι} (h : ∀ j ∈ js, j = i) (n : ℕ) :
    numbers i n js = List.range' n js.length := by
  induction js generalizing n with
  | nil => rfl
  | cons j js ih =>
    rw [numbers, if_pos (h j List.mem_cons_self), List.length_cons, List.range'_succ,
      ih fun k hk => h k (List.mem_cons_of_mem _ hk)]

theorem numbers_skip {i j : ι} (hne : j ≠ i) (m l : ℕ) :
    numbers i 0 (List.replicate m i ++ j :: List.replicate l i) =
      List.range' 0 m ++ List.range' (m + 1) l := by
  rw [numbers_append, numbers, if_neg hne, numbers_alone fun k hk => List.eq_of_mem_replicate hk,
    numbers_alone fun k hk => List.eq_of_mem_replicate hk, List.length_replicate,
    List.length_replicate, Nat.zero_add]

end

end RoundRobin

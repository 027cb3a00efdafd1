import Mathlib.Data.List.Basic
import Mathlib.Logic.Function.Basic
import Mathlib.Tactic.Common

/-!
# Ring buffers

A ring of `n` places between a head and a tail.  One place is always left free, so that a full ring
differs from an empty one.  `toList` is the queue that the ring stands for: `push` appends to it,
`pop` takes its first element, and neither writes to the place of a queued element.
-/

namespace RingBuffer

variable {α : Type*} {n head tail : ℕ}

/-! ## Places -/

theorem mod_of_lt_two_mul {a : ℕ} (h : a < 2 * n) : a % n = if a < n then a else a - n := by
  split_ifs with hlt
  · exact Nat.mod_eq_of_lt hlt
  · rw [Nat.mod_eq_sub_mod (by omega), Nat.mod_eq_of_lt (by omega)]

/-- The number of steps from the head to the tail. -/
def distance (n head tail : ℕ) : ℕ := (tail + n - head) % n

theorem distance_eq (hhead : head < n) (htail : tail < n) :
    distance n head tail = if head ≤ tail then tail - head else tail + n - head := by
  rw [distance, mod_of_lt_two_mul (by omega)]
  split_ifs <;> omega

theorem distance_lt (hhead : head < n) : distance n head tail < n := Nat.mod_lt _ (by omega)

theorem place_ne (hhead : head < n) {i j : ℕ} (hij : i < j) (hj : j < n) :
    (head + i) % n ≠ (head + j) % n := by
  rw [mod_of_lt_two_mul (by omega), mod_of_lt_two_mul (by omega)]
  split_ifs <;> omega

theorem place_distance (hhead : head < n) (htail : tail < n) :
    (head + distance n head tail) % n = tail := by
  rw [distance_eq hhead htail, mod_of_lt_two_mul (by split_ifs <;> omega)]
  split_ifs <;> omega

theorem distance_eq_zero_iff (hhead : head < n) (htail : tail < n) :
    distance n head tail = 0 ↔ head = tail := by
  rw [distance_eq hhead htail]
  split_ifs <;> omega

theorem next_eq_head_iff (hhead : head < n) (htail : tail < n) :
    (tail + 1) % n = head ↔ distance n head tail + 1 = n := by
  rw [distance_eq hhead htail, mod_of_lt_two_mul (by omega)]
  split_ifs <;> omega

theorem distance_next_tail (hhead : head < n) (htail : tail < n) (h : (tail + 1) % n ≠ head) :
    distance n head ((tail + 1) % n) = distance n head tail + 1 := by
  rw [mod_of_lt_two_mul (by omega)] at h ⊢
  rw [distance_eq hhead htail, distance_eq hhead (by split_ifs <;> omega)]
  split_ifs at h ⊢ <;> omega

theorem distance_next_head (hhead : head < n) (htail : tail < n) (h : head ≠ tail) :
    distance n ((head + 1) % n) tail + 1 = distance n head tail := by
  rw [mod_of_lt_two_mul (by omega), distance_eq hhead htail,
    distance_eq (by split_ifs <;> omega) htail]
  split_ifs <;> omega

theorem place_next_head (i : ℕ) :
    ((head + 1) % n + i) % n = (head + (i + 1)) % n := by
  rw [Nat.mod_add_mod, Nat.add_assoc, Nat.add_comm 1 i]

/-! ## Rings -/

/-- `none` is a place that has not been written.  The places from the head up to the tail have. -/
structure Ring (α : Type*) (n : ℕ) where
  slots : ℕ → Option α
  head : ℕ
  tail : ℕ
  head_lt : head < n
  tail_lt : tail < n
  filled : ∀ i < distance n head tail, (slots ((head + i) % n)).isSome

namespace Ring

def start (h : 0 < n) (slots : ℕ → Option α) : Ring α n where
  slots := slots
  head := 0
  tail := 0
  head_lt := h
  tail_lt := h
  filled i hi := by simp [(distance_eq_zero_iff h h).mpr rfl] at hi

variable (r : Ring α n)

def size : ℕ := distance n r.head r.tail

def place (i : ℕ) : ℕ := (r.head + i) % n

def toList : List α := (List.range r.size).filterMap fun i => r.slots (r.place i)

def put (x : α) (h : (r.tail + 1) % n ≠ r.head) : Ring α n where
  slots := Function.update r.slots r.tail (some x)
  head := r.head
  tail := (r.tail + 1) % n
  head_lt := r.head_lt
  tail_lt := Nat.mod_lt _ (Nat.zero_lt_of_lt r.head_lt)
  filled i hi := by
    rw [distance_next_tail r.head_lt r.tail_lt h] at hi
    rcases eq_or_ne ((r.head + i) % n) r.tail with htail | htail
    · rw [htail, Function.update_self]
      rfl
    · rw [Function.update_of_ne htail]
      rcases Nat.lt_succ_iff_lt_or_eq.mp hi with hlt | rfl
      · exact r.filled i hlt
      · exact absurd (place_distance r.head_lt r.tail_lt) htail

def advance (h : r.head ≠ r.tail) : Ring α n where
  slots := r.slots
  head := (r.head + 1) % n
  tail := r.tail
  head_lt := Nat.mod_lt _ (Nat.zero_lt_of_lt r.head_lt)
  tail_lt := r.tail_lt
  filled i hi := by
    rw [place_next_head]
    have := distance_next_head r.head_lt r.tail_lt h
    exact r.filled (i + 1) (by omega)

/-- `none` if the ring is full. -/
def push (x : α) : Option (Ring α n) :=
  if h : (r.tail + 1) % n = r.head then none else some (r.put x h)

/-- `none` if the ring is empty. -/
def pop : Option (α × Ring α n) :=
  if h : r.head = r.tail then none else (r.slots r.head).map fun x => (x, r.advance h)

/-! ## The queue of a ring -/

variable {r} {r' : Ring α n} {x : α}

theorem map_some_toList :
    r.toList.map some = (List.range r.size).map fun i => r.slots (r.place i) := by
  have hfilled : ∀ i ∈ List.range r.size, (r.slots (r.place i)).isSome := fun i hi =>
    r.filled i (List.mem_range.mp hi)
  unfold toList
  generalize List.range r.size = is at hfilled ⊢
  induction is with
  | nil => rfl
  | cons i is ih =>
    obtain ⟨x, hx⟩ := Option.isSome_iff_exists.mp (hfilled i (List.mem_cons_self ..))
    rw [List.filterMap_cons, hx, List.map_cons, List.map_cons, hx,
      ih fun j hj => hfilled j (List.mem_cons_of_mem _ hj)]

theorem length_toList : r.toList.length = r.size := by
  simpa using congrArg List.length (@map_some_toList _ _ r)

theorem slots_place {i : ℕ} (hi : r.toList[i]? = some x) : r.slots (r.place i) = some x := by
  have hlt : i < r.size := @length_toList _ _ r ▸ (List.getElem?_eq_some_iff.mp hi).1
  have h := congrArg (fun l => l[i]?) (@map_some_toList _ _ r)
  simpa [hi, hlt, eq_comm] using h

theorem length_toList_lt : r.toList.length < n := by
  rw [length_toList]
  exact distance_lt r.head_lt

@[simp] theorem toList_start (h : 0 < n) (slots : ℕ → Option α) : (start h slots).toList = [] := by
  rw [← List.length_eq_zero_iff, length_toList]
  exact (distance_eq_zero_iff h h).mpr rfl

theorem place_ne_tail {i : ℕ} (hi : i < r.size) : r.place i ≠ r.tail := by
  rw [← place_distance r.head_lt r.tail_lt]
  exact place_ne r.head_lt hi (distance_lt r.head_lt)

theorem toList_put (h : (r.tail + 1) % n ≠ r.head) : (r.put x h).toList = r.toList ++ [x] := by
  have hsize : (r.put x h).size = r.size + 1 := distance_next_tail r.head_lt r.tail_lt h
  have hlast : (r.put x h).slots ((r.put x h).place r.size) = some x := by
    rw [show (r.put x h).place r.size = r.tail from place_distance r.head_lt r.tail_lt]
    exact Function.update_self ..
  have hbefore : ∀ i ∈ List.range r.size, (r.put x h).slots (r.place i) = r.slots (r.place i) :=
    fun i hi => Function.update_of_ne (place_ne_tail (List.mem_range.mp hi)) _ _
  rw [toList, hsize, List.range_succ, List.filterMap_append]
  exact congrArg₂ _ (List.filterMap_congr hbefore) (List.filterMap_cons_some hlast)

theorem toList_advance (h : r.head ≠ r.tail) (hx : r.slots r.head = some x) :
    r.toList = x :: (r.advance h).toList := by
  have hsize : r.size = (r.advance h).size + 1 := (distance_next_head r.head_lt r.tail_lt h).symm
  have hfirst : r.slots (r.place 0) = some x := by
    rw [place, Nat.add_zero, Nat.mod_eq_of_lt r.head_lt, hx]
  rw [toList, hsize, List.range_succ_eq_map, List.filterMap_cons, hfirst, List.filterMap_map]
  refine congrArg _ (List.filterMap_congr fun i _ => congrArg r.slots ?_)
  exact (place_next_head i).symm

/-! ## What the operations do -/

/-- **A ring refuses** exactly when it is full. -/
theorem push_eq_none_iff : r.push x = none ↔ r.toList.length + 1 = n := by
  rw [length_toList, size, ← next_eq_head_iff r.head_lt r.tail_lt]
  unfold push
  split_ifs with h
  · exact iff_of_true rfl h
  · exact iff_of_false nofun h

/-- **A pushed element** comes last. -/
theorem toList_push (h : r.push x = some r') : r'.toList = r.toList ++ [x] := by
  unfold push at h
  split_ifs at h with hfull
  cases h
  exact toList_put hfull

theorem slots_push (h : r.push x = some r') {i : ℕ} (hi : i < r.toList.length) :
    r'.slots (r.place i) = r.slots (r.place i) := by
  unfold push at h
  split_ifs at h
  cases h
  exact Function.update_of_ne (place_ne_tail (@length_toList _ _ r ▸ hi)) _ _

theorem pop_eq_none_iff : r.pop = none ↔ r.toList = [] := by
  rw [← List.length_eq_zero_iff, length_toList, size, distance_eq_zero_iff r.head_lt r.tail_lt]
  unfold pop
  split_ifs with h
  · exact iff_of_true rfl h
  · have hpos : 0 < distance n r.head r.tail :=
      Nat.pos_of_ne_zero fun h₀ => h ((distance_eq_zero_iff r.head_lt r.tail_lt).mp h₀)
    have hfilled := r.filled 0 hpos
    rw [Nat.add_zero, Nat.mod_eq_of_lt r.head_lt] at hfilled
    obtain ⟨x, hx⟩ := Option.isSome_iff_exists.mp hfilled
    exact iff_of_false (by simp [hx]) h

/-- **The element taken** was the first. -/
theorem toList_pop (h : r.pop = some (x, r')) : r.toList = x :: r'.toList := by
  unfold pop at h
  split_ifs at h with hne
  obtain ⟨y, hy, heq⟩ := Option.map_eq_some_iff.mp h
  cases heq
  exact toList_advance hne hy

theorem slots_pop (h : r.pop = some (x, r')) : r'.slots = r.slots := by
  unfold pop at h
  split_ifs at h with hne
  obtain ⟨y, hy, heq⟩ := Option.map_eq_some_iff.mp h
  cases heq
  rfl

end Ring

end RingBuffer

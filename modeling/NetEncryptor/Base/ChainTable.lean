import NetEncryptor.Base.Buffer
import Mathlib.Data.List.Nodup

/-!
# Chained hash tables

An array of chains, each a list of entries.  An entry of a key is looked for in the chain that the
hash of the key names, and the first one counts.  `put` stores into that entry or adds one at the
head of the chain, `erase` takes it out, and `sweep` keeps the entries that pass a test.  The rules
about a key that was erased need that no chain has two entries of one key (`Unique`), which every
operation keeps, as it keeps every entry in its chain (`Placed`).
-/

/-- An array of chains of entries. -/
abbrev ChainTable (κ ν : Type*) := Buffer (List (κ × ν))

namespace ChainTable

variable {κ ν : Type*}

def empty : ChainTable κ ν := fun _ => []

/-! ## One chain -/

section

variable [DecidableEq κ]

/-- The value of the first entry of a key. -/
def findFirst (k : κ) : List (κ × ν) → Option ν
  | [] => none
  | e :: es => if e.1 = k then some e.2 else findFirst k es

/-- Give the first entry of a key a new value. -/
def replaceFirst (k : κ) (v : ν) : List (κ × ν) → List (κ × ν)
  | [] => []
  | e :: es => if e.1 = k then (k, v) :: es else e :: replaceFirst k v es

/-- Take out the first entry of a key. -/
def eraseFirst (k : κ) : List (κ × ν) → List (κ × ν)
  | [] => []
  | e :: es => if e.1 = k then es else e :: eraseFirst k es

theorem findFirst_eq_none {k : κ} {es : List (κ × ν)} :
    findFirst k es = none ↔ k ∉ es.map Prod.fst := by
  induction es with
  | nil => simp [findFirst]
  | cons e es ih =>
    rw [findFirst, List.map_cons, List.mem_cons, not_or, ← ih]
    by_cases h : e.1 = k
    · simp [h]
    · simp [h, Ne.symm h]

theorem mem_of_findFirst {k : κ} {v : ν} {es : List (κ × ν)} (h : findFirst k es = some v) :
    (k, v) ∈ es := by
  induction es with
  | nil => cases h
  | cons e es ih =>
    rw [findFirst] at h
    split_ifs at h with hk
    · obtain rfl := Option.some.inj h
      rw [← hk]
      exact List.mem_cons_self
    · exact List.mem_cons_of_mem _ (ih h)

theorem findFirst_of_mem {e : κ × ν} {es : List (κ × ν)} (h : (es.map Prod.fst).Nodup)
    (he : e ∈ es) : findFirst e.1 es = some e.2 := by
  induction es with
  | nil => cases he
  | cons e' es ih =>
    rw [List.map_cons, List.nodup_cons] at h
    rcases List.mem_cons.mp he with rfl | hmem
    · rw [findFirst, if_pos rfl]
    · have hne : e'.1 ≠ e.1 := fun heq => h.1 (heq ▸ List.mem_map_of_mem hmem)
      rw [findFirst, if_neg hne]
      exact ih h.2 hmem

theorem findFirst_replaceFirst_self {k : κ} {v : ν} {es : List (κ × ν)}
    (h : findFirst k es ≠ none) : findFirst k (replaceFirst k v es) = some v := by
  induction es with
  | nil => exact absurd rfl h
  | cons e es ih =>
    by_cases he : e.1 = k
    · simp [replaceFirst, findFirst, he]
    · simp only [findFirst, he, if_false] at h
      simp [replaceFirst, findFirst, he, ih h]

theorem findFirst_replaceFirst_of_ne {k k' : κ} {v : ν} {es : List (κ × ν)} (hk : k' ≠ k) :
    findFirst k' (replaceFirst k v es) = findFirst k' es := by
  induction es with
  | nil => rfl
  | cons e es ih =>
    by_cases he : e.1 = k
    · simp [replaceFirst, findFirst, he, hk.symm]
    · simp only [replaceFirst, he, if_false, findFirst, ih]

theorem findFirst_eraseFirst_of_ne {k k' : κ} {es : List (κ × ν)} (hk : k' ≠ k) :
    findFirst k' (eraseFirst k es) = findFirst k' es := by
  induction es with
  | nil => rfl
  | cons e es ih =>
    by_cases he : e.1 = k
    · simp [eraseFirst, findFirst, he, hk.symm]
    · simp only [eraseFirst, he, if_false, findFirst, ih]

theorem findFirst_of_filter {k : κ} {v : ν} {keep : κ × ν → Bool} {es : List (κ × ν)}
    (h : (es.map Prod.fst).Nodup) (hfind : findFirst k (es.filter keep) = some v) :
    findFirst k es = some v := by
  induction es with
  | nil => cases hfind
  | cons e es ih =>
    rw [List.map_cons, List.nodup_cons] at h
    by_cases he : e.1 = k
    · rw [findFirst, if_pos he]
      by_cases hkeep : keep e = true
      · rwa [List.filter_cons_of_pos hkeep, findFirst, if_pos he] at hfind
      · rw [List.filter_cons_of_neg hkeep] at hfind
        have hnone := ih h.2 hfind
        rw [findFirst_eq_none.mpr (he ▸ h.1)] at hnone
        cases hnone
    · rw [findFirst, if_neg he]
      refine ih h.2 ?_
      by_cases hkeep : keep e = true
      · rwa [List.filter_cons_of_pos hkeep, findFirst, if_neg he] at hfind
      · rwa [List.filter_cons_of_neg hkeep] at hfind

theorem findFirst_eraseFirst_self {k : κ} {es : List (κ × ν)} (h : (es.map Prod.fst).Nodup) :
    findFirst k (eraseFirst k es) = none := by
  induction es with
  | nil => rfl
  | cons e es ih =>
    rw [List.map_cons, List.nodup_cons] at h
    by_cases he : e.1 = k
    · rw [eraseFirst, if_pos he, findFirst_eq_none]
      exact he ▸ h.1
    · rw [eraseFirst, if_neg he, findFirst, if_neg he]
      exact ih h.2

/-- What a replacement leaves: the new value, and the entries of other keys. -/
theorem mem_replaceFirst {k : κ} {v : ν} {es : List (κ × ν)} {e : κ × ν}
    (h : (es.map Prod.fst).Nodup) (he : e ∈ replaceFirst k v es) :
    e = (k, v) ∨ (e.1 ≠ k ∧ e ∈ es) := by
  induction es with
  | nil => cases he
  | cons e' es ih =>
    rw [List.map_cons, List.nodup_cons] at h
    by_cases hk : e'.1 = k
    · rw [replaceFirst, if_pos hk, List.mem_cons] at he
      refine he.imp_right fun hmem => ⟨?_, List.mem_cons_of_mem _ hmem⟩
      rintro rfl
      exact h.1 (hk ▸ List.mem_map_of_mem hmem)
    · rw [replaceFirst, if_neg hk, List.mem_cons] at he
      rcases he with rfl | hmem
      · exact .inr ⟨hk, List.mem_cons_self⟩
      · exact (ih h.2 hmem).imp_right fun hold => ⟨hold.1, List.mem_cons_of_mem _ hold.2⟩

theorem keys_replaceFirst {k : κ} {v : ν} {es : List (κ × ν)} :
    (replaceFirst k v es).map Prod.fst = es.map Prod.fst := by
  induction es with
  | nil => rfl
  | cons e es ih =>
    by_cases he : e.1 = k
    · simp [replaceFirst, he]
    · simp [replaceFirst, he, ih]

theorem eraseFirst_sublist {k : κ} {es : List (κ × ν)} : (eraseFirst k es).Sublist es := by
  induction es with
  | nil => exact List.Sublist.refl _
  | cons e es ih =>
    by_cases he : e.1 = k
    · rw [eraseFirst, if_pos he]
      exact List.sublist_cons_self e es
    · rw [eraseFirst, if_neg he]
      exact ih.cons_cons e

end

/-! ## The table -/

def sweep (keep : κ × ν → Bool) (t : ChainTable κ ν) : ChainTable κ ν := fun i => (t i).filter keep

def Unique (t : ChainTable κ ν) : Prop := ∀ i, ((t i).map Prod.fst).Nodup

theorem unique_empty : Unique (empty : ChainTable κ ν) := fun _ => List.nodup_nil

/-- Every entry is in the chain that its hash names. -/
def Placed (hash : κ → ℕ) (t : ChainTable κ ν) : Prop := ∀ i, ∀ e ∈ t i, hash e.1 = i

theorem placed_empty {hash : κ → ℕ} : Placed hash (empty : ChainTable κ ν) :=
  fun _ _ he => by cases he

theorem Unique.of_keys {t t' : ChainTable κ ν} (h : Unique t)
    (hkeys : ∀ i, (t' i).map Prod.fst = (t i).map Prod.fst) : Unique t' :=
  fun i => hkeys i ▸ h i

theorem Placed.of_keys {hash : κ → ℕ} {t t' : ChainTable κ ν} (h : Placed hash t)
    (hkeys : ∀ i, (t' i).map Prod.fst = (t i).map Prod.fst) : Placed hash t' := by
  intro i e he
  have hmem : e.1 ∈ (t' i).map Prod.fst := List.mem_map_of_mem he
  rw [hkeys i] at hmem
  obtain ⟨e', he', heq⟩ := List.mem_map.mp hmem
  exact heq ▸ h i e' he'

theorem Unique.sweep {keep : κ × ν → Bool} {t : ChainTable κ ν} (h : Unique t) :
    Unique (t.sweep keep) :=
  fun i => (h i).sublist (List.filter_sublist.map Prod.fst)

theorem Unique.set {t : ChainTable κ ν} (h : Unique t) {i : ℕ} {es : List (κ × ν)}
    (hes : (es.map Prod.fst).Nodup) : Unique (t.set i es) := by
  intro j
  by_cases hj : j = i
  · rw [hj, Buffer.set_self]
    exact hes
  · rw [Buffer.set_of_ne hj]
    exact h j

section

variable [DecidableEq κ] (hash : κ → ℕ)

def find (t : ChainTable κ ν) (k : κ) : Option ν := findFirst k (t (hash k))

def put (t : ChainTable κ ν) (k : κ) (v : ν) : ChainTable κ ν :=
  t.set (hash k)
    (if find hash t k = none then (k, v) :: t (hash k) else replaceFirst k v (t (hash k)))

def erase (t : ChainTable κ ν) (k : κ) : ChainTable κ ν :=
  t.set (hash k) (eraseFirst k (t (hash k)))

variable {hash}

@[simp] theorem find_put_self {t : ChainTable κ ν} {k : κ} {v : ν} :
    find hash (put hash t k v) k = some v := by
  rw [find, put, Buffer.set_self]
  split_ifs with h
  · rw [findFirst, if_pos rfl]
  · exact findFirst_replaceFirst_self h

theorem find_set_of_ne {t : ChainTable κ ν} {k k' : κ} {es : List (κ × ν)}
    (h : findFirst k' es = findFirst k' (t (hash k))) :
    find hash (t.set (hash k) es) k' = find hash t k' := by
  unfold find
  by_cases hh : hash k' = hash k
  · rw [hh, Buffer.set_self, h]
  · rw [Buffer.set_of_ne hh]

theorem find_put_of_ne {t : ChainTable κ ν} {k k' : κ} {v : ν} (hk : k' ≠ k) :
    find hash (put hash t k v) k' = find hash t k' := by
  refine find_set_of_ne ?_
  split_ifs
  · rw [findFirst, if_neg hk.symm]
  · exact findFirst_replaceFirst_of_ne hk

theorem find_erase_of_ne {t : ChainTable κ ν} {k k' : κ} (hk : k' ≠ k) :
    find hash (erase hash t k) k' = find hash t k' :=
  find_set_of_ne (findFirst_eraseFirst_of_ne hk)

theorem find_erase_self {t : ChainTable κ ν} (h : Unique t) {k : κ} :
    find hash (erase hash t k) k = none := by
  rw [find, erase, Buffer.set_self]
  exact findFirst_eraseFirst_self (h _)

theorem mem_of_find {t : ChainTable κ ν} {k : κ} {v : ν} (h : find hash t k = some v) :
    (k, v) ∈ t (hash k) := mem_of_findFirst h

theorem find_of_mem {t : ChainTable κ ν} (hu : Unique t) (hp : Placed hash t) {i : ℕ} {e : κ × ν}
    (he : e ∈ t i) : find hash t e.1 = some e.2 := by
  rw [find, hp i e he]
  exact findFirst_of_mem (hu i) he

theorem find_of_sweep {t : ChainTable κ ν} (h : Unique t) {keep : κ × ν → Bool} {k : κ} {v : ν}
    (hfind : find hash (t.sweep keep) k = some v) : find hash t k = some v :=
  findFirst_of_filter (h _) hfind

theorem Unique.put {t : ChainTable κ ν} (h : Unique t) {k : κ} {v : ν} :
    Unique (put hash t k v) := by
  refine h.set ?_
  split_ifs with hf
  · exact List.nodup_cons.mpr ⟨findFirst_eq_none.mp hf, h _⟩
  · rw [keys_replaceFirst]
    exact h _

theorem keys_put {t : ChainTable κ ν} {k : κ} {v : ν} (h : find hash t k ≠ none) (i : ℕ) :
    (put hash t k v i).map Prod.fst = (t i).map Prod.fst := by
  unfold put
  by_cases hi : i = hash k
  · rw [hi, Buffer.set_self, if_neg h, keys_replaceFirst]
  · rw [Buffer.set_of_ne hi]

theorem Unique.erase {t : ChainTable κ ν} (h : Unique t) {k : κ} : Unique (erase hash t k) :=
  h.set ((h _).sublist (eraseFirst_sublist.map Prod.fst))

theorem mem_put {t : ChainTable κ ν} (hu : Unique t) (hp : Placed hash t) {k : κ} {v : ν} {i : ℕ}
    {e : κ × ν} (he : e ∈ put hash t k v i) : e = (k, v) ∨ (e.1 ≠ k ∧ e ∈ t i) := by
  unfold put at he
  by_cases hi : i = hash k
  · subst hi
    rw [Buffer.set_self] at he
    split_ifs at he with hnone
    · rw [List.mem_cons] at he
      refine he.imp_right fun hmem => ⟨?_, hmem⟩
      rintro rfl
      exact findFirst_eq_none.mp hnone (List.mem_map_of_mem hmem)
    · exact mem_replaceFirst (hu _) he
  · rw [Buffer.set_of_ne hi] at he
    refine .inr ⟨?_, he⟩
    rintro rfl
    exact hi (hp i e he).symm

theorem mem_erase {t : ChainTable κ ν} {k : κ} {i : ℕ} {e : κ × ν} (he : e ∈ erase hash t k i) :
    e ∈ t i := by
  unfold erase at he
  by_cases hi : i = hash k
  · subst hi
    rw [Buffer.set_self] at he
    exact eraseFirst_sublist.subset he
  · rwa [Buffer.set_of_ne hi] at he

theorem Placed.put {t : ChainTable κ ν} (hp : Placed hash t) {k : κ} {v : ν} :
    Placed hash (put hash t k v) := by
  intro i e he
  unfold ChainTable.put at he
  by_cases hi : i = hash k
  · subst hi
    rw [Buffer.set_self] at he
    split_ifs at he
    · rcases List.mem_cons.mp he with rfl | hmem
      · rfl
      · exact hp _ e hmem
    · have hkey : e.1 ∈ (replaceFirst k v (t (hash k))).map Prod.fst := List.mem_map_of_mem he
      rw [keys_replaceFirst] at hkey
      obtain ⟨e', he', heq⟩ := List.mem_map.mp hkey
      exact heq ▸ hp _ e' he'
  · rw [Buffer.set_of_ne hi] at he
    exact hp i e he

theorem Placed.erase {t : ChainTable κ ν} (hp : Placed hash t) {k : κ} :
    Placed hash (erase hash t k) :=
  fun i e he => hp i e (mem_erase he)

end

/-! ## Sweeping one chain -/

/-- Keep the entries of a chain that pass the test. -/
def sweepChain (keep : κ × ν → Bool) (t : ChainTable κ ν) (i : ℕ) : ChainTable κ ν :=
  t.set i ((t i).filter keep)

section

variable {hash : κ → ℕ} {keep : κ × ν → Bool} {t : ChainTable κ ν} {i j : ℕ}

theorem sweepChain_apply :
    sweepChain keep t i j = if j = i then (t i).filter keep else t j := rfl

theorem Unique.sweepChain (h : Unique t) : Unique (t.sweepChain keep i) :=
  h.set ((h i).sublist (List.filter_sublist.map Prod.fst))

theorem Placed.sweepChain (hp : Placed hash t) : Placed hash (t.sweepChain keep i) := by
  intro j e he
  rw [sweepChain_apply] at he
  split_ifs at he with hj
  · exact hj ▸ hp i e (List.mem_filter.mp he).1
  · exact hp j e he

/-- **Sweeping chain after chain** sweeps the table. -/
theorem foldl_sweepChain (keep : κ × ν → Bool) (t : ChainTable κ ν) (n : ℕ) :
    (List.range n).foldl (sweepChain keep) t = fun j => if j < n then sweep keep t j else t j := by
  induction n with
  | zero => rfl
  | succ n ih =>
    rw [List.range_succ, List.foldl_append, ih]
    funext j
    rw [List.foldl_cons, List.foldl_nil, sweepChain_apply]
    by_cases hj : j = n
    · subst hj
      simp [sweep]
    · rw [if_neg hj]
      exact if_congr (by omega) rfl rfl

end

end ChainTable

import NetEncryptor.Base.Buffer
import Mathlib.Data.Finset.Card
import Mathlib.Data.List.Induction
import Mathlib.Data.Nat.ModEq

/-!
# Open addressing

A table of slots, each empty or with an entry.  The search for a key tries one slot after the other,
from the one that the hash names and around the end of the table; it ends at the first slot that is
empty or has the key.  An entry is stored where the search for its key ends.

No entry is ever taken out, so that the slots before an entry stay occupied (`Chained`), and the
table is a map: `find_insertAll` says that the last entry stored for a key is found, as long as the
table has a slot for every key.
-/

abbrev ProbeTable (κ ν : Type*) := Buffer (Option (κ × ν))

namespace ProbeTable

variable {κ ν : Type*}

def empty : ProbeTable κ ν := fun _ => none

/-- The `i`-th slot that is tried for a key. -/
def place (size : ℕ) (hash : κ → ℕ) (k : κ) (i : ℕ) : ℕ := (hash k + i) % size

/-- The search for a key ends at this slot. -/
def Ends (k : κ) (slot : Option (κ × ν)) : Prop := ∀ e ∈ slot, e.1 = k

instance [DecidableEq κ] (k : κ) (slot : Option (κ × ν)) : Decidable (Ends k slot) :=
  inferInstanceAs (Decidable (∀ e ∈ slot, e.1 = k))

variable [DecidableEq κ] (size : ℕ) (hash : κ → ℕ)

/-- How many slots are tried in vain. -/
def probe (t : ProbeTable κ ν) (k : κ) : Option ℕ :=
  (List.range size).find? fun i => decide (Ends k (t (place size hash k i)))

def find (t : ProbeTable κ ν) (k : κ) : Option ν :=
  (probe size hash t k).bind fun i => (t (place size hash k i)).map Prod.snd

/-- A full table stays as it is. -/
def insert (t : ProbeTable κ ν) (k : κ) (v : ν) : ProbeTable κ ν :=
  match probe size hash t k with
  | none => t
  | some i => t.set (place size hash k i) (some (k, v))

def insertAll (t : ProbeTable κ ν) (es : List (κ × ν)) : ProbeTable κ ν :=
  es.foldl (fun t e => insert size hash t e.1 e.2) t

/-- Every entry is where the search for its key ends. -/
def Chained (t : ProbeTable κ ν) : Prop :=
  ∀ j < size, ∀ e ∈ t j, ∃ i, probe size hash t e.1 = some i ∧ place size hash e.1 i = j

variable {size hash} {t : ProbeTable κ ν} {k k' : κ} {v w : ν} {i j : ℕ}

/-! ## The search -/

omit [DecidableEq κ] in
theorem place_injOn {i' : ℕ} (hi : i < size) (hi' : i' < size)
    (h : place size hash k i = place size hash k i') : i = i' := by
  have hmod : i ≡ i' [MOD size] := Nat.ModEq.add_left_cancel' (hash k) h
  exact Nat.ModEq.eq_of_lt_of_lt hmod hi hi'

theorem probe_eq_some_iff : probe size hash t k = some i ↔
    i < size ∧ Ends k (t (place size hash k i)) ∧
      ∀ i' < i, ¬ Ends k (t (place size hash k i')) := by
  unfold probe
  rw [List.find?_range_eq_some, List.mem_range, decide_eq_true_eq]
  simp only [Bool.not_eq_true', decide_eq_false_iff_not]
  exact and_left_comm

theorem probe_eq_none_iff : probe size hash t k = none ↔
    ∀ i < size, ¬ Ends k (t (place size hash k i)) := by
  unfold probe
  simp only [List.find?_eq_none, List.mem_range, decide_eq_true_eq]

theorem place_lt (h : probe size hash t k = some i) : place size hash k i < size :=
  Nat.mod_lt _ (Nat.zero_lt_of_lt (probe_eq_some_iff.mp h).1)

/-- **What is found** is what some slot has. -/
theorem find_eq_some_iff (h : Chained size hash t) :
    find size hash t k = some v ↔ ∃ j < size, t j = some (k, v) := by
  unfold find
  constructor
  · intro hfind
    obtain ⟨i, hi, hslot⟩ := Option.bind_eq_some_iff.mp hfind
    obtain ⟨e, he, rfl⟩ := Option.map_eq_some_iff.mp hslot
    have hkey : e.1 = k := (probe_eq_some_iff.mp hi).2.1 e he
    exact ⟨_, place_lt hi, by rw [he, ← hkey]⟩
  · rintro ⟨j, hj, hslot⟩
    obtain ⟨i, hi, rfl⟩ := h j hj (k, v) hslot
    rw [hi, Option.bind_some, hslot]
    rfl

theorem Chained.eq_of_key (h : Chained size hash t) {j' : ℕ} (hj : j < size) (hj' : j' < size)
    (ht : t j = some (k, v)) (ht' : t j' = some (k, w)) : j = j' := by
  obtain ⟨i, hi, rfl⟩ := h j hj (k, v) ht
  obtain ⟨i', hi', rfl⟩ := h j' hj' (k, w) ht'
  rw [Option.some.inj (hi.symm.trans hi')]

/-- **There is a slot** for every key of a set that is not larger than the table. -/
theorem probe_ne_none (h : Chained size hash t) {K : Finset κ} (hcard : K.card ≤ size)
    (hkeys : ∀ j < size, ∀ e ∈ t j, e.1 ∈ K) (hk : k ∈ K) : probe size hash t k ≠ none := by
  intro hnone
  have hoccupied : ∀ i < size, ∃ e, t (place size hash k i) = some e ∧ e.1 ≠ k := by
    intro i hi
    have := probe_eq_none_iff.mp hnone i hi
    unfold Ends at this
    push Not at this
    exact this
  have hlt : ∀ i < size, place size hash k i < size := fun i hi =>
    Nat.mod_lt _ (Nat.zero_lt_of_lt hi)
  -- all slots have keys other than `k`, and different ones
  have hle : (Finset.range size).card ≤ (K.erase k).card := by
    refine Finset.card_le_card_of_injOn
      (fun i => ((t (place size hash k i)).map Prod.fst).getD k) ?_ ?_
    · intro i hi
      obtain ⟨e, he, hne⟩ := hoccupied i (Finset.mem_range.mp hi)
      simp only [he, Option.map_some, Option.getD_some]
      exact Finset.mem_erase.mpr ⟨hne, hkeys _ (hlt i (Finset.mem_range.mp hi)) e he⟩
    · intro i hi i' hi' heq
      have hi := Finset.mem_range.mp hi
      have hi' := Finset.mem_range.mp hi'
      obtain ⟨e, he, -⟩ := hoccupied i hi
      obtain ⟨e', he', -⟩ := hoccupied i' hi'
      simp only [he, he', Option.map_some, Option.getD_some] at heq
      have hslot' : t (place size hash k i') = some (e.1, e'.2) := by rw [he', heq]
      exact place_injOn hi hi' (h.eq_of_key (hlt i hi) (hlt i' hi') he hslot')
  rw [Finset.card_range, Finset.card_erase_of_mem hk] at hle
  have := Finset.card_pos.mpr ⟨k, hk⟩
  omega

/-! ## Storing -/

theorem chained_empty : Chained size hash (empty : ProbeTable κ ν) :=
  fun _ _ _ he => by cases he

theorem insert_of_probe (h : probe size hash t k = some i) :
    insert size hash t k v = t.set (place size hash k i) (some (k, v)) := by
  unfold insert
  rw [h]

theorem insert_of_none (h : probe size hash t k = none) : insert size hash t k v = t := by
  unfold insert
  rw [h]

omit [DecidableEq κ] in
/-- A slot that is tried in vain for one key has the key of another, before and after. -/
theorem not_ends_set (hi : Ends k (t i)) (hne : k' ≠ k) (h : ¬ Ends k' (t j)) :
    ¬ Ends k' (t.set i (some (k, v)) j) := by
  by_cases hj : j = i
  · subst hj
    rw [Buffer.set_self]
    exact fun hends => hne (hends (k, v) rfl).symm
  · rwa [Buffer.set_of_ne hj]

theorem Chained.insert (h : Chained size hash t) :
    Chained size hash (ProbeTable.insert size hash t k v) := by
  cases hprobe : probe size hash t k with
  | none => rwa [insert_of_none hprobe]
  | some i =>
    rw [insert_of_probe hprobe]
    obtain ⟨hi, hends, hbefore⟩ := probe_eq_some_iff.mp hprobe
    intro j hj e he
    by_cases hjp : j = place size hash k i
    · subst hjp
      rw [Buffer.set_self] at he
      cases he
      refine ⟨i, probe_eq_some_iff.mpr ⟨hi, ?_, fun i' hi' => ?_⟩, rfl⟩
      · rw [Buffer.set_self]
        rintro e he
        cases he
        rfl
      · have hne : place size hash k i' ≠ place size hash k i := fun heq =>
          hbefore i' hi' (heq ▸ hends)
        rw [Buffer.set_of_ne hne]
        exact hbefore i' hi'
    · rw [Buffer.set_of_ne hjp] at he
      obtain ⟨d, hd, rfl⟩ := h j hj e he
      have hne : e.1 ≠ k := by
        rintro rfl
        exact hjp (by rw [Option.some.inj (hd.symm.trans hprobe)])
      obtain ⟨hdlt, hdends, hdbefore⟩ := probe_eq_some_iff.mp hd
      refine ⟨d, probe_eq_some_iff.mpr ⟨hdlt, ?_, fun i' hi' => ?_⟩, rfl⟩
      · rwa [Buffer.set_of_ne hjp]
      · exact not_ends_set hends hne (hdbefore i' hi')

theorem find_insert_self (h : Chained size hash t) (hprobe : probe size hash t k ≠ none) :
    find size hash (insert size hash t k v) k = some v := by
  obtain ⟨i, hi⟩ := Option.ne_none_iff_exists'.mp hprobe
  refine (find_eq_some_iff h.insert).mpr ⟨_, place_lt hi, ?_⟩
  rw [insert_of_probe hi, Buffer.set_self]

theorem find_insert_of_ne (h : Chained size hash t) (hne : k' ≠ k) :
    find size hash (insert size hash t k v) k' = find size hash t k' := by
  cases hprobe : probe size hash t k with
  | none => rw [insert_of_none hprobe]
  | some i =>
    ext w
    rw [find_eq_some_iff h.insert, find_eq_some_iff h, insert_of_probe hprobe]
    refine exists_congr fun j => and_congr_right fun _ => ?_
    by_cases hj : j = place size hash k i
    · subst hj
      rw [Buffer.set_self]
      refine iff_of_false (fun heq => ?_) fun heq => ?_
      · cases heq
        exact hne rfl
      · exact hne ((probe_eq_some_iff.mp hprobe).2.1 (k', w) heq)
    · rw [Buffer.set_of_ne hj]

theorem mem_insert {e : κ × ν} (he : e ∈ insert size hash t k v j) : e.1 = k ∨ e ∈ t j := by
  cases hprobe : probe size hash t k with
  | none =>
    rw [insert_of_none hprobe] at he
    exact .inr he
  | some i =>
    rw [insert_of_probe hprobe] at he
    by_cases hj : j = place size hash k i
    · subst hj
      rw [Buffer.set_self] at he
      cases he
      exact .inl rfl
    · rw [Buffer.set_of_ne hj] at he
      exact .inr he

/-! ## Sequences of stores -/

theorem insertAll_cons (e : κ × ν) (es : List (κ × ν)) :
    insertAll size hash t (e :: es) = insertAll size hash (insert size hash t e.1 e.2) es := rfl

/-- The value of the last entry of a key. -/
def latest (k : κ) (es : List (κ × ν)) : Option ν :=
  es.foldl (fun found e => if e.1 = k then some e.2 else found) none

theorem latest_concat (es : List (κ × ν)) (e : κ × ν) :
    latest k (es ++ [e]) = if e.1 = k then some e.2 else latest k es := by
  unfold latest
  rw [List.foldl_append]
  rfl

theorem mem_of_latest {es : List (κ × ν)} (h : latest k es = some v) : (k, v) ∈ es := by
  induction es using List.reverseRecOn with
  | nil => cases h
  | append_singleton es e ih =>
    rw [latest_concat] at h
    rw [List.mem_append, List.mem_singleton]
    split_ifs at h with he
    · cases h
      exact .inr (by rw [← he])
    · exact .inl (ih h)

theorem latest_ne_none {es : List (κ × ν)} (h : (k, v) ∈ es) : latest k es ≠ none := by
  induction es using List.reverseRecOn with
  | nil => cases h
  | append_singleton es e ih =>
    rw [latest_concat]
    rw [List.mem_append, List.mem_singleton] at h
    split_ifs with he
    · exact Option.some_ne_none _
    · rcases h with h | rfl
      · exact ih h
      · exact absurd rfl he

/-- **The table is a map.** -/
theorem find_insertAll {es : List (κ × ν)} {K : Finset κ} (hcard : K.card ≤ size)
    (hkeys : ∀ e ∈ es, e.1 ∈ K) :
    Chained size hash (insertAll size hash empty es) ∧
      (∀ j < size, ∀ e ∈ insertAll size hash empty es j, e.1 ∈ K) ∧
      ∀ k, find size hash (insertAll size hash empty es) k = latest k es := by
  induction es using List.reverseRecOn with
  | nil =>
    refine ⟨chained_empty, fun _ _ _ he => (by cases he), fun k => ?_⟩
    refine Option.eq_none_iff_forall_ne_some.mpr fun v hfind => ?_
    obtain ⟨j, -, hslot⟩ := (find_eq_some_iff chained_empty).mp hfind
    cases hslot
  | append_singleton es e ih =>
    obtain ⟨hchained, hmem, hfind⟩ := ih fun e' he' => hkeys e' (List.mem_append_left _ he')
    have heK : e.1 ∈ K := hkeys e (List.mem_append_right _ List.mem_cons_self)
    have hall : insertAll size hash empty (es ++ [e]) =
        insert size hash (insertAll size hash empty es) e.1 e.2 := by
      unfold insertAll
      rw [List.foldl_append]
      rfl
    rw [hall]
    refine ⟨hchained.insert, fun j hj e' he' => ?_, fun k => ?_⟩
    · rcases mem_insert he' with hkey | hold
      · rwa [hkey]
      · exact hmem j hj e' hold
    · rw [latest_concat]
      split_ifs with he
      · subst he
        exact find_insert_self hchained (probe_ne_none hchained hcard hmem heK)
      · rw [find_insert_of_ne hchained (Ne.symm he), hfind]

/-! ## Copies -/

def entries (size : ℕ) (t : ProbeTable κ ν) : List (κ × ν) := (List.range size).filterMap t

omit [DecidableEq κ] in
theorem mem_entries {e : κ × ν} : e ∈ entries size t ↔ ∃ j < size, t j = some e := by
  unfold entries
  simp only [List.mem_filterMap, List.mem_range]

/-- **A copy** of the entries into an empty table of the same size gives the same answers. -/
theorem find_copy (h : Chained size hash t) (k : κ) :
    find size hash (insertAll size hash empty (entries size t)) k = find size hash t k := by
  have hcard : ((entries size t).map Prod.fst).toFinset.card ≤ size := by
    calc _ ≤ ((entries size t).map Prod.fst).length := List.toFinset_card_le _
      _ = (entries size t).length := List.length_map _
      _ ≤ (List.range size).length := List.length_filterMap_le _ _
      _ = size := List.length_range
  have hkeys : ∀ e ∈ entries size t, e.1 ∈ ((entries size t).map Prod.fst).toFinset :=
    fun e he => List.mem_toFinset.mpr (List.mem_map_of_mem he)
  rw [(find_insertAll hcard hkeys).2.2 k]
  cases hlatest : latest k (entries size t) with
  | some v => exact ((find_eq_some_iff h).mpr (mem_entries.mp (mem_of_latest hlatest))).symm
  | none =>
    cases hfind : find size hash t k with
    | none => rfl
    | some v =>
      have hmem : (k, v) ∈ entries size t := mem_entries.mpr ((find_eq_some_iff h).mp hfind)
      exact absurd hlatest (latest_ne_none hmem)

end ProbeTable

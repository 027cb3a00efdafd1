import Mathlib.Data.List.Count
import Mathlib.Data.List.Sublists

/-!
# A table of bounded size in front of fresh ids

A key that is in the table gets the id that it has there.  Any other key gets an id that nobody has
had, and is put into the table as long as there is room.  `Trace` is a history of keys with their
ids; `same_iff` says when every key has kept its id.
-/

namespace MemoTable

variable {κ ι : Type*} [DecidableEq κ] {n : ℕ}

/-- The table's keys after one more. -/
def note (n : ℕ) (seen : List κ) (k : κ) : List κ :=
  if k ∈ seen ∨ n ≤ seen.length then seen else seen ++ [k]

/-- The first `n` different keys. -/
def firsts (n : ℕ) (ks : List κ) : List κ := ks.foldl (note n) []

/-- Keys with the ids that they got, the last one at the end. -/
inductive Trace (n : ℕ) : List (κ × ι) → Prop
  | nil : Trace n []
  | known {tr : List (κ × ι)} {k : κ} {i : ι} (h : Trace n tr)
      (hk : k ∈ firsts n (tr.map Prod.fst)) (hi : (k, i) ∈ tr) : Trace n (tr ++ [(k, i)])
  | fresh {tr : List (κ × ι)} {k : κ} {i : ι} (h : Trace n tr)
      (hk : k ∉ firsts n (tr.map Prod.fst)) (hi : ∀ e ∈ tr, e.2 ≠ i) : Trace n (tr ++ [(k, i)])

/-! ## The first keys -/

section

variable {seen ks : List κ} {k x : κ}

theorem note_of_mem (h : k ∈ seen) : note n seen k = seen := if_pos (.inl h)

theorem subset_note : seen ⊆ note n seen k := by
  unfold note
  split_ifs
  · exact List.Subset.refl _
  · exact List.subset_append_left _ _

theorem mem_of_mem_note (h : x ∈ note n seen k) : x ∈ seen ∨ (x = k ∧ seen.length < n) := by
  unfold note at h
  split_ifs at h with hkeep
  · exact .inl h
  · rcases List.mem_append.mp h with h | h
    · exact .inl h
    · exact .inr ⟨List.mem_singleton.mp h, by omega⟩

@[simp] theorem firsts_concat : firsts n (ks ++ [k]) = note n (firsts n ks) k := by
  unfold firsts
  rw [List.foldl_append]
  rfl

theorem mem_firsts_of_length_lt : ∀ {ks : List κ}, (firsts n ks).length < n → ∀ {k : κ}, k ∈ ks →
    k ∈ firsts n ks := by
  intro ks
  induction ks using List.reverseRecOn with
  | nil => exact fun _ _ hk => by cases hk
  | append_singleton ks k' ih =>
    intro hlt k hk
    rw [firsts_concat] at hlt ⊢
    have hroom : (firsts n ks).length < n :=
      lt_of_le_of_lt (List.Sublist.length_le (by unfold note; split_ifs <;> simp)) hlt
    rcases List.mem_append.mp hk with hk | hk
    · exact subset_note (ih hroom hk)
    · rw [List.mem_singleton.mp hk]
      unfold note
      split_ifs with hkeep
      · exact hkeep.resolve_right (by omega)
      · exact List.mem_append_right _ List.mem_cons_self

end

/-! ## Histories -/

theorem mem_of_mem_concat {α : Type*} {l : List α} {x y : α} (hy : y ∈ l) (h : x ∈ l ++ [y]) :
    x ∈ l := by
  rcases List.mem_append.mp h with h | h
  · exact h
  · rw [List.mem_singleton.mp h]
    exact hy

/-- Every key has one id. -/
def Same (tr : List (κ × ι)) : Prop := ∀ a ∈ tr, ∀ b ∈ tr, a.1 = b.1 → a.2 = b.2

namespace Trace

variable {tr : List (κ × ι)}

/-- **Different keys** never have one id. -/
theorem apart (h : Trace n tr) : ∀ a ∈ tr, ∀ b ∈ tr, a.1 ≠ b.1 → a.2 ≠ b.2 := by
  induction h with
  | nil => exact fun a ha => by cases ha
  | known h hk hi ih =>
    exact fun a ha b hb => ih a (mem_of_mem_concat hi ha) b (mem_of_mem_concat hi hb)
  | fresh h hk hi ih =>
    intro a ha b hb hne
    rcases List.mem_append.mp ha with ha | ha
    · rcases List.mem_append.mp hb with hb | hb
      · exact ih a ha b hb hne
      · rw [List.mem_singleton.mp hb]
        exact hi a ha
    · obtain rfl := List.mem_singleton.mp ha
      rcases List.mem_append.mp hb with hb | hb
      · exact (hi b hb).symm
      · exact absurd (congrArg Prod.fst (List.mem_singleton.mp hb)).symm hne

theorem not_mem_of_noted {ks : List κ} {k : κ} (hk : k ∉ firsts n ks)
    (hnoted : k ∈ note n (firsts n ks) k) : k ∉ ks := by
  intro hmem
  rcases mem_of_mem_note hnoted with h | ⟨-, hroom⟩
  · exact hk h
  · exact hk (mem_firsts_of_length_lt hroom hmem)

theorem same_of_mem_firsts (h : Trace n tr) : ∀ a ∈ tr, ∀ b ∈ tr, a.1 = b.1 →
    a.1 ∈ firsts n (tr.map Prod.fst) → a.2 = b.2 := by
  induction h with
  | nil => exact fun a ha => by cases ha
  | known h hk hi ih =>
    intro a ha b hb heq hmem
    rw [List.map_append, List.map_singleton, firsts_concat, note_of_mem hk] at hmem
    exact ih a (mem_of_mem_concat hi ha) b (mem_of_mem_concat hi hb) heq hmem
  | @fresh tr k i h hk hi ih =>
    intro a ha b hb heq hmem
    rw [List.map_append, List.map_singleton, firsts_concat] at hmem
    -- the key of an earlier entry is in the table already
    have hold : ∀ e ∈ tr, e.1 ∈ note n (firsts n (tr.map Prod.fst)) k →
        e.1 ∈ firsts n (tr.map Prod.fst) ∧ e.1 ≠ k := by
      intro e he hnote
      have hne : e.1 ≠ k := by
        rintro rfl
        exact not_mem_of_noted hk hnote (List.mem_map_of_mem he)
      exact ⟨(mem_of_mem_note hnote).resolve_right fun h => hne h.1, hne⟩
    rcases List.mem_append.mp ha with ha | ha <;> rcases List.mem_append.mp hb with hb | hb
    · exact ih a ha b hb heq (hold a ha hmem).1
    · rw [List.mem_singleton.mp hb] at heq
      exact absurd heq (hold a ha hmem).2
    · rw [heq] at hmem
      rw [List.mem_singleton.mp ha] at heq
      exact absurd heq.symm (hold b hb hmem).2
    · rw [List.mem_singleton.mp ha, List.mem_singleton.mp hb]

theorem pairwise_ne (h : Trace n tr) : tr.Pairwise fun a b =>
    a.1 = b.1 → a.1 ∉ firsts n (tr.map Prod.fst) → a.2 ≠ b.2 := by
  induction h with
  | nil => exact List.Pairwise.nil
  | @known tr k i h hk hi ih =>
    rw [List.map_append, List.map_singleton, firsts_concat, note_of_mem hk]
    refine List.pairwise_append.mpr ⟨ih, List.pairwise_singleton _ _, fun a ha b hb heq hout => ?_⟩
    rw [heq, List.mem_singleton.mp hb] at hout
    exact absurd hk hout
  | @fresh tr k i h hk hi ih =>
    rw [List.map_append, List.map_singleton, firsts_concat]
    refine List.pairwise_append.mpr ⟨?_, List.pairwise_singleton _ _, fun a ha b hb _ _ => ?_⟩
    · exact ih.imp fun hne heq hout => hne heq fun hmem => hout (subset_note hmem)
    · rw [List.mem_singleton.mp hb]
      exact hi a ha

theorem two_le_count : ∀ {tr : List (κ × ι)} {a b : κ × ι}, a ∈ tr → b ∈ tr → a ≠ b → a.1 = b.1 →
    2 ≤ (tr.map Prod.fst).count a.1 := by
  intro tr
  induction tr with
  | nil => exact fun ha => by cases ha
  | cons e tr ih =>
    intro a b ha hb hne heq
    rw [List.map_cons]
    rcases List.mem_cons.mp ha with rfl | ha' <;> rcases List.mem_cons.mp hb with rfl | hb'
    · exact absurd rfl hne
    · have := List.count_pos_iff.mpr (List.mem_map_of_mem hb' : b.1 ∈ tr.map Prod.fst)
      rw [List.count_cons_self, heq]
      omega
    · have := List.count_pos_iff.mpr (List.mem_map_of_mem ha' : a.1 ∈ tr.map Prod.fst)
      rw [← heq, List.count_cons_self]
      omega
    · exact (ih ha' hb' hne heq).trans List.count_le_count_cons

/-- **Every key keeps its id** exactly if the keys that come twice are among the first `n`. -/
theorem same_iff (h : Trace n tr) : Same tr ↔
    ∀ k, 2 ≤ (tr.map Prod.fst).count k → k ∈ firsts n (tr.map Prod.fst) := by
  constructor
  · intro hsame k hcount
    by_contra hout
    obtain ⟨l, hl, hkeys⟩ := List.sublist_map_iff.mp (List.replicate_sublist_iff.mpr hcount)
    obtain ⟨a, b, rfl⟩ : ∃ a b, l = [a, b] := by
      refine List.length_eq_two.mp ?_
      have hlen := congrArg List.length hkeys
      rwa [List.length_map, List.length_replicate, eq_comm] at hlen
    obtain ⟨ha, hb⟩ : a.1 = k ∧ b.1 = k := by simpa [eq_comm] using hkeys
    have heq : a.1 = b.1 := ha.trans hb.symm
    have hne := (List.pairwise_cons.mp (h.pairwise_ne.sublist hl)).1 b List.mem_cons_self heq
      (ha ▸ hout)
    exact hne (hsame a (hl.subset (by simp)) b (hl.subset (by simp)) heq)
  · intro hcount a ha b hb heq
    by_cases hmem : a.1 ∈ firsts n (tr.map Prod.fst)
    · exact h.same_of_mem_firsts a ha b hb heq hmem
    by_contra hne
    exact hmem (hcount a.1 (two_le_count ha hb (fun hab => hne (congrArg Prod.snd hab)) heq))

end Trace

end MemoTable

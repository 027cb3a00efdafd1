import NetEncryptor.Base.ChainTable
import NetEncryptor.Base.Runs

/-!
# Sweeps over tables of stamped entries

A table has buckets of entries, each with the stamp of its last use.  A sweep reads the clock once
and then visits the buckets one after the other; it removes an entry whose age, an unsigned
difference, is above the timeout.  Between the visits the clock goes on and the table is used.

An entry that is stamped after the sweep has read the clock has a negative age, which is a very
large one.  `stepsMeet_iff` says that this is the only way in which a sweep removes an entry before
its time.
-/

namespace Sweep

/-- The unsigned difference of `now` and a stamp. -/
def age (modulus now stamp : ℕ) : ℕ := if stamp ≤ now then now - stamp else now + modulus - stamp

/-- A table with its operations.  Stamps and the timeout count units of the clock. -/
structure TimedTable (τ α κ : Type*) where
  unit : ℕ
  timeout : ℕ
  modulus : ℕ
  size : ℕ
  Ok : τ → Prop
  entries : τ → ℕ → List (κ × ℕ)
  op : τ → ℕ → α → τ
  /-- The key whose entry is used or stored. -/
  uses : τ → ℕ → α → Option κ
  /-- Whether a sweep with this reading begins. -/
  begins : τ → ℕ → Bool
  visit : τ → ℕ → ℕ → τ
  unit_pos : 0 < unit
  ok_op : ∀ {t}, Ok t → ∀ now a, Ok (op t now a)
  ok_visit : ∀ {t}, Ok t → ∀ now i, Ok (visit t now i)
  /-- An entry afterwards is the one used, with a new stamp, or one that was there. -/
  mem_op : ∀ {t now a i e}, Ok t → e ∈ entries (op t now a) i →
    (uses t now a = some e.1 ∧ e.2 = now) ∨ (uses t now a ≠ some e.1 ∧ e ∈ entries t i)
  entries_visit : ∀ {t now i}, Ok t → i < size → ∀ j, entries (visit t now i) j =
    if j = i then (entries t i).filter fun e => decide (age modulus now e.2 ≤ timeout)
    else entries t j

/-- The table, the clock, when the entry of each key was last used, and the reading and the next
bucket of the sweep that is under way. -/
structure State (τ κ : Type*) where
  table : τ
  clock : ℕ
  used : κ → ℕ
  sweep : Option (ℕ × ℕ)

inductive Action (α : Type*)
  | tick (d : ℕ)
  | op (a : α)
  | begin
  | visit

section

variable {τ α κ : Type*} (T : TimedTable τ α κ)

/-- What the code reads from the clock. -/
def now (s : State τ κ) : ℕ := s.clock / T.unit

/-- The time of the entry is up. -/
def TimedOut (s : State τ κ) (e : κ × ℕ) : Prop := s.used e.1 + T.timeout * T.unit ≤ s.clock

/-- An entry in the bucket that is visited has a stamp later than the reading of the sweep only if
its time is up. -/
def LaterTimedOut (s : State τ κ) (a : Action α) : Prop :=
  a = .visit → ∀ r i, s.sweep = some (r, i) → ∀ e ∈ T.entries s.table i, r < e.2 →
    e.2 + T.timeout < r + T.modulus → TimedOut T s e

/-- Stamps are those of the last use, and not in the future; nor is the reading of the sweep. -/
structure Inv (s : State τ κ) : Prop where
  ok : T.Ok s.table
  stamp : ∀ i, ∀ e ∈ T.entries s.table i, e.2 = s.used e.1 / T.unit ∧ s.used e.1 ≤ s.clock
  sweep : ∀ r i, s.sweep = some (r, i) → r ≤ now T s ∧ i < T.size

def State.start (table : τ) (clock : ℕ) (used : κ → ℕ) : State τ κ := ⟨table, clock, used, none⟩

variable {T} {s : State τ κ}

theorem inv_start {table : τ} {clock : ℕ} {used : κ → ℕ} (hok : T.Ok table)
    (hempty : ∀ i, T.entries table i = []) : Inv T (State.start table clock used) where
  ok := hok
  stamp i e he := by
    rw [State.start, hempty] at he
    cases he
  sweep _ _ h := by cases h

theorem mem_of_mem_visit (hok : T.Ok s.table) {r i j : ℕ} (hi : i < T.size) {e : κ × ℕ}
    (he : e ∈ T.entries (T.visit s.table r i) j) : e ∈ T.entries s.table j := by
  rw [T.entries_visit hok hi] at he
  split_ifs at he with hj
  · exact hj ▸ (List.mem_filter.mp he).1
  · exact he

theorem timedOut_of_stamp (h : Inv T s) {i r : ℕ} {e : κ × ℕ} (he : e ∈ T.entries s.table i)
    (hr : r ≤ now T s) (hold : e.2 + T.timeout < r) : TimedOut T s e := by
  obtain ⟨hstamp, -⟩ := h.stamp i e he
  have hlt : s.used e.1 < (e.2 + 1) * T.unit := by
    rw [hstamp]
    exact Nat.lt_mul_of_div_lt (Nat.lt_succ_self _) T.unit_pos
  have hclock : (e.2 + 1 + T.timeout) * T.unit ≤ s.clock :=
    calc (e.2 + 1 + T.timeout) * T.unit ≤ now T s * T.unit := Nat.mul_le_mul_right _ (by omega)
      _ ≤ s.clock := Nat.div_mul_le_self _ _
  rw [Nat.add_mul] at hclock
  unfold TimedOut
  omega

end

/-! ## Steps -/

section

variable {τ α κ : Type*} [DecidableEq κ] (T : TimedTable τ α κ)

def step (s : State τ κ) : Action α → Option (State τ κ)
  | .tick d => if s.clock + d < T.modulus then some { s with clock := s.clock + d } else none
  | .op a =>
    some { s with
      table := T.op s.table (now T s) a
      used :=
        match T.uses s.table (now T s) a with
        | none => s.used
        | some k => Function.update s.used k s.clock }
  | .begin =>
    if s.sweep = none ∧ 0 < T.size ∧ T.begins s.table (now T s) = true then
      some { s with sweep := some (now T s, 0) }
    else none
  | .visit =>
    match s.sweep with
    | none => none
    | some (r, i) =>
      some { s with
        table := T.visit s.table r i
        sweep := if i + 1 < T.size then some (r, i + 1) else none }

/-- A visit removes an entry only if its time is up. -/
def RemovesTimedOut (s : State τ κ) (a : Action α) : Prop :=
  a = .visit → ∀ s' ∈ step T s a, ∀ j, ∀ e ∈ T.entries s.table j, e ∉ T.entries s'.table j →
    TimedOut T s e

variable {T} {s s' : State τ κ}

theorem step_tick {d : ℕ} (h : s.clock + d < T.modulus) :
    Sweep.step T s (.tick d) = some { s with clock := s.clock + d } := if_pos h

theorem Inv.op (h : Inv T s) {a : α} (hstep : step T s (.op a) = some s') : Inv T s' := by
  cases hstep
  refine ⟨T.ok_op h.ok _ _, fun i e he => ?_, h.sweep⟩
  rcases T.mem_op h.ok he with ⟨huses, hnow⟩ | ⟨huses, hmem⟩
  · simp only [huses, Function.update_self]
    exact ⟨hnow, Nat.le_refl _⟩
  · obtain ⟨hstamp, hle⟩ := h.stamp i e hmem
    cases hk : T.uses s.table (now T s) a with
    | none => exact ⟨hstamp, hle⟩
    | some k =>
      have hne : e.1 ≠ k := fun heq => huses (heq ▸ hk)
      simp only [Function.update_of_ne hne]
      exact ⟨hstamp, hle⟩

theorem Inv.visit (h : Inv T s) (hstep : step T s .visit = some s') : Inv T s' := by
  cases hsweep : s.sweep with
  | none => simp [step, hsweep] at hstep
  | some p =>
    obtain ⟨r, i⟩ := p
    obtain ⟨hr, hi⟩ := h.sweep r i hsweep
    simp only [step, hsweep, Option.some.injEq] at hstep
    subst hstep
    refine ⟨T.ok_visit h.ok _ _, fun j e he => h.stamp j e (mem_of_mem_visit h.ok hi he), ?_⟩
    intro r' i' hsome
    simp only at hsome
    split_ifs at hsome with hlt
    cases hsome
    exact ⟨hr, hlt⟩

theorem Inv.step (h : Inv T s) {a : Action α} (hstep : Sweep.step T s a = some s') : Inv T s' := by
  cases a with
  | tick d =>
    simp only [Sweep.step] at hstep
    split_ifs at hstep
    cases hstep
    refine ⟨h.ok, fun i e he => ?_, fun r i hsome => ?_⟩
    · obtain ⟨hstamp, hle⟩ := h.stamp i e he
      exact ⟨hstamp, Nat.le_trans hle (Nat.le_add_right _ _)⟩
    · obtain ⟨hr, hi⟩ := h.sweep r i hsome
      exact ⟨Nat.le_trans hr (Nat.div_le_div_right (Nat.le_add_right _ _)), hi⟩
  | op a => exact h.op hstep
  | begin =>
    simp only [Sweep.step] at hstep
    split_ifs at hstep with hbegin
    cases hstep
    refine ⟨h.ok, h.stamp, fun r i hsome => ?_⟩
    cases hsome
    exact ⟨Nat.le_refl _, hbegin.2.1⟩
  | visit => exact h.visit hstep

/-- **One visit** removes only what has timed out if and only if the later stamps have. -/
theorem removesTimedOut_iff (h : Inv T s) {a : Action α} :
    RemovesTimedOut T s a ↔ LaterTimedOut T s a := by
  unfold RemovesTimedOut LaterTimedOut
  apply forall_congr'
  rintro rfl
  constructor
  · intro hremoves r i hsweep e he hlater hage
    obtain ⟨-, hi⟩ := h.sweep r i hsweep
    refine hremoves _ (by simp only [Sweep.step, hsweep]; rfl) i e he ?_
    rw [T.entries_visit h.ok hi, if_pos rfl, List.mem_filter, decide_eq_true_eq]
    rintro ⟨-, hkept⟩
    rw [age, if_neg (by omega)] at hkept
    omega
  · intro hlater s' hs' j e he hgone
    cases hsweep : s.sweep with
    | none => simp [Sweep.step, hsweep] at hs'
    | some p =>
      obtain ⟨r, i⟩ := p
      obtain ⟨hr, hi⟩ := h.sweep r i hsweep
      simp only [Sweep.step, hsweep, Option.mem_def, Option.some.injEq] at hs'
      subst hs'
      rw [T.entries_visit h.ok hi] at hgone
      split_ifs at hgone with hj
      · subst hj
        rw [List.mem_filter, decide_eq_true_eq, not_and] at hgone
        have hold := hgone he
        unfold age at hold
        split_ifs at hold with hle
        · exact timedOut_of_stamp h he hr (by omega)
        · exact hlater r j hsweep e he (by omega) (by omega)
      · exact absurd he hgone

/-- **A run removes only what has timed out** if and only if, at every visit, the entries of the
bucket with a later stamp than the sweep's reading have. -/
theorem stepsMeet_iff (h : Inv T s) {as : List (Action α)} :
    Runs.StepsMeet (Sweep.step T) (RemovesTimedOut T) s as ↔
      Runs.StepsMeet (Sweep.step T) (LaterTimedOut T) s as := by
  constructor
  · exact Runs.StepsMeet.of_invariant (fun _ _ _ hinv _ hstep => hinv.step hstep)
      (fun _ _ hinv => (removesTimedOut_iff hinv).mp) h
  · exact Runs.StepsMeet.of_invariant (fun _ _ _ hinv _ hstep => hinv.step hstep)
      (fun _ _ hinv => (removesTimedOut_iff hinv).mpr) h

/-- While a sweep is under way, the table is used only in the unit in which the clock was read. -/
def UsedAtReading (T : TimedTable τ α κ) (s : State τ κ) (a : Action α) : Prop :=
  ∀ b, a = .op b → ∀ r i, s.sweep = some (r, i) → T.uses s.table (now T s) b ≠ none → now T s ≤ r

/-- No stamp is later than the reading of the sweep. -/
structure Quiet (T : TimedTable τ α κ) (s : State τ κ) : Prop extends Inv T s where
  stamp_le : ∀ r i, s.sweep = some (r, i) → ∀ j, ∀ e ∈ T.entries s.table j, e.2 ≤ r

theorem Quiet.step (h : Quiet T s) {a : Action α} (hused : UsedAtReading T s a)
    (hstep : Sweep.step T s a = some s') : Quiet T s' := by
  refine ⟨h.toInv.step hstep, fun r i hsweep j e he => ?_⟩
  cases a with
  | tick d =>
    simp only [Sweep.step] at hstep
    split_ifs at hstep
    cases hstep
    exact h.stamp_le r i hsweep j e he
  | op a =>
    cases hstep
    rcases T.mem_op h.ok he with ⟨huses, hnow⟩ | ⟨-, hmem⟩
    · have hle := hused a rfl r i hsweep (by rw [huses]; exact Option.some_ne_none _)
      rwa [hnow]
    · exact h.stamp_le r i hsweep j e hmem
  | begin =>
    simp only [Sweep.step] at hstep
    split_ifs at hstep
    cases hstep
    cases hsweep
    obtain ⟨hstamp, hle⟩ := h.stamp j e he
    rw [hstamp]
    exact Nat.div_le_div_right hle
  | visit =>
    cases hs : s.sweep with
    | none => simp [Sweep.step, hs] at hstep
    | some p =>
      obtain ⟨r', i'⟩ := p
      obtain ⟨-, hi⟩ := h.sweep r' i' hs
      simp only [Sweep.step, hs, Option.some.injEq] at hstep
      subst hstep
      simp only at hsweep
      split_ifs at hsweep
      cases hsweep
      exact h.stamp_le r i' hs j e (mem_of_mem_visit h.ok hi he)

/-- **Quiet sweeps** remove only what has timed out. -/
theorem removesTimedOut_of_quiet (h : Inv T s) (hnone : s.sweep = none) {as : List (Action α)}
    (hmeet : Runs.StepsMeet (Sweep.step T) (UsedAtReading T) s as) :
    Runs.StepsMeet (Sweep.step T) (RemovesTimedOut T) s as := by
  have hquiet : Quiet T s := ⟨h, fun r i hsweep => by rw [hnone] at hsweep; cases hsweep⟩
  refine hmeet.of_invariant (fun _ _ _ hq hused hstep => hq.step hused hstep) ?_ hquiet
  rintro s a hq -
  refine (removesTimedOut_iff hq.toInv).mpr fun _ r i hsweep e he hlater => ?_
  have := hq.stamp_le r i hsweep i e he
  omega

end

/-! ## Chained tables -/

section

variable {κ ν : Type*} [DecidableEq κ] {hash : κ → ℕ} {stamp : ν → ℕ}

/-- What a use at a time does to a chained table, and whose entry it uses. -/
inductive Touches (hash : κ → ℕ) (stamp : ν → ℕ) (now : ℕ) (t : ChainTable κ ν) :
    ChainTable κ ν → Option κ → Prop
  | kept : Touches hash stamp now t t none
  | erased (k : κ) : Touches hash stamp now t (ChainTable.erase hash t k) none
  | cleared : Touches hash stamp now t ChainTable.empty none
  | stored (k : κ) (v : ν) (h : stamp v = now) :
      Touches hash stamp now t (ChainTable.put hash t k v) (some k)

/-- The keys and stamps of a chain. -/
def stamps (stamp : ν → ℕ) (t : ChainTable κ ν) (i : ℕ) : List (κ × ℕ) :=
  (t i).map fun e => (e.1, stamp e.2)

theorem Touches.ok {now : ℕ} {t t' : ChainTable κ ν} {k : Option κ}
    (h : Touches hash stamp now t t' k) (hok : t.Unique ∧ t.Placed hash) :
    t'.Unique ∧ t'.Placed hash := by
  cases h with
  | kept => exact hok
  | erased k => exact ⟨hok.1.erase, hok.2.erase⟩
  | cleared => exact ⟨ChainTable.unique_empty, ChainTable.placed_empty⟩
  | stored k v h => exact ⟨hok.1.put, hok.2.put⟩

theorem Touches.mem_stamps {now i : ℕ} {t t' : ChainTable κ ν} {k : Option κ}
    (h : Touches hash stamp now t t' k) (hok : t.Unique ∧ t.Placed hash) {e : κ × ℕ}
    (he : e ∈ stamps stamp t' i) :
    (k = some e.1 ∧ e.2 = now) ∨ (k ≠ some e.1 ∧ e ∈ stamps stamp t i) := by
  obtain ⟨e', he', rfl⟩ := List.mem_map.mp he
  cases h with
  | kept => exact .inr ⟨nofun, he⟩
  | erased k => exact .inr ⟨nofun, List.mem_map.mpr ⟨e', ChainTable.mem_erase he', rfl⟩⟩
  | cleared => cases he'
  | stored k v h =>
    rcases ChainTable.mem_put hok.1 hok.2 he' with rfl | ⟨hne, hmem⟩
    · exact .inl ⟨rfl, h⟩
    · refine .inr ⟨fun heq => hne ?_, List.mem_map.mpr ⟨e', hmem, rfl⟩⟩
      exact (Option.some.inj heq).symm

omit [DecidableEq κ] in
theorem stamps_sweepChain (keep : ℕ → Bool) {t : ChainTable κ ν} {i j : ℕ} :
    stamps stamp (t.sweepChain (fun e => keep (stamp e.2)) i) j =
      if j = i then (stamps stamp t i).filter fun e => keep e.2 else stamps stamp t j := by
  unfold stamps
  rw [ChainTable.sweepChain_apply, List.filter_map]
  split_ifs
  · rfl
  · rfl

end

end Sweep

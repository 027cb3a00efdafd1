import Mathlib.Data.List.Induction

/-!
# Runs of a step function

A system is a step function: what an action makes of a state, if it can happen there.  A run is a
list of actions that happen one after the other; a condition on the steps says of every action
what the state is in which it happens.  `Since` relates a state to what has happened before it.
-/

namespace Runs

variable {σ α : Type*} {step : σ → α → Option σ} {cond : σ → α → Prop}

/-- The state after the actions, if all of them can happen. -/
def run (step : σ → α → Option σ) : σ → List α → Option σ
  | s, [] => some s
  | s, a :: as => (step s a).bind fun s' => run step s' as

/-- Every action of the run happens in a state that meets the condition. -/
def StepsMeet (step : σ → α → Option σ) (cond : σ → α → Prop) : σ → List α → Prop
  | _, [] => True
  | s, a :: as => cond s a ∧ ∀ s' ∈ step s a, StepsMeet step cond s' as

instance [∀ s a, Decidable (cond s a)] : ∀ (as : List α) (s : σ),
    Decidable (StepsMeet step cond s as)
  | [], _ => .isTrue trivial
  | a :: as, s =>
    have : ∀ s', Decidable (StepsMeet step cond s' as) := fun s' => instDecidableStepsMeet as s'
    inferInstanceAs (Decidable (cond s a ∧ ∀ s' ∈ step s a, StepsMeet step cond s' as))

theorem run_cons {s t : σ} {a : α} {as : List α} :
    run step s (a :: as) = some t ↔ ∃ s', step s a = some s' ∧ run step s' as = some t :=
  Option.bind_eq_some_iff

/-- **Invariant rule.** What every step that meets the condition preserves, every run whose steps
meet it preserves. -/
theorem invariant {I : σ → Prop}
    (hstep : ∀ s a s', I s → cond s a → step s a = some s' → I s') :
    ∀ {as : List α} {s t : σ}, I s → StepsMeet step cond s as → run step s as = some t → I t := by
  intro as
  induction as with
  | nil =>
    intro s t hs _ h
    cases h
    exact hs
  | cons a as ih =>
    intro s t hs hmeet h
    obtain ⟨s', hs', ht⟩ := run_cons.mp h
    exact ih (hstep s a s' hs hmeet.1 hs') (hmeet.2 s' hs') ht

theorem StepsMeet.of_forall (h : ∀ s a, cond s a) :
    ∀ {as : List α} {s : σ}, StepsMeet step cond s as := by
  intro as
  induction as with
  | nil => intro s; trivial
  | cons a as ih => exact fun {s} => ⟨h s a, fun _ _ => ih⟩

theorem invariant_run {I : σ → Prop} (hstep : ∀ s a s', I s → step s a = some s' → I s')
    {as : List α} {s t : σ} (hs : I s) (h : run step s as = some t) : I t := by
  have hmeet : StepsMeet step (fun _ _ => True) s as := .of_forall fun _ _ => trivial
  exact invariant (fun s a s' hs _ => hstep s a s' hs) hs hmeet h

/-- A condition that follows from another one and an invariant is met by every run that meets the
other one. -/
theorem StepsMeet.of_invariant {I : σ → Prop} {cond' : σ → α → Prop}
    (hstep : ∀ s a s', I s → cond s a → step s a = some s' → I s')
    (himp : ∀ s a, I s → cond s a → cond' s a) :
    ∀ {as : List α} {s : σ}, I s → StepsMeet step cond s as → StepsMeet step cond' s as := by
  intro as
  induction as with
  | nil => intro s _ _; trivial
  | cons a as ih =>
    intro s hs hmeet
    exact ⟨himp s a hs hmeet.1, fun s' hs' => ih (hstep s a s' hs hmeet.1 hs') (hmeet.2 s' hs')⟩

theorem stepsMeet_congr {I : σ → Prop} {cond' : σ → α → Prop}
    (hstep : ∀ s a s', I s → step s a = some s' → I s') (hiff : ∀ s a, I s → (cond s a ↔ cond' s a))
    {as : List α} {s : σ} (hs : I s) : StepsMeet step cond s as ↔ StepsMeet step cond' s as := by
  constructor
  · exact StepsMeet.of_invariant (fun s a s' hs _ => hstep s a s' hs)
      (fun s a hs => (hiff s a hs).mp) hs
  · exact StepsMeet.of_invariant (fun s a s' hs _ => hstep s a s' hs)
      (fun s a hs => (hiff s a hs).mpr) hs

theorem stepsMeet_forall {ι : Type*} {cond : ι → σ → α → Prop} {as : List α} {s : σ} :
    StepsMeet step (fun s a => ∀ i, cond i s a) s as ↔ ∀ i, StepsMeet step (cond i) s as := by
  induction as generalizing s with
  | nil => exact iff_of_true trivial fun _ => trivial
  | cons a as ih =>
    simp only [StepsMeet, ih]
    exact ⟨fun h i => ⟨h.1 i, fun s' hs' => h.2 s' hs' i⟩,
      fun h => ⟨fun i => (h i).1, fun s' hs' i => (h i).2 s' hs'⟩⟩

/-! ## Histories -/

theorem run_append {s t : σ} {as bs : List α} :
    run step s (as ++ bs) = some t ↔ ∃ s', run step s as = some s' ∧ run step s' bs = some t := by
  induction as generalizing s with
  | nil => simp [run]
  | cons a as ih =>
    rw [List.cons_append, run_cons]
    constructor
    · rintro ⟨s₁, hs₁, ht⟩
      obtain ⟨s', hs', ht⟩ := ih.mp ht
      exact ⟨s', run_cons.mpr ⟨s₁, hs₁, hs'⟩, ht⟩
    · rintro ⟨s', hs', ht⟩
      obtain ⟨s₁, hs₁, hs'⟩ := run_cons.mp hs'
      exact ⟨s₁, hs₁, ih.mpr ⟨s', hs', ht⟩⟩

theorem run_concat {s t : σ} {as : List α} {a : α} :
    run step s (as ++ [a]) = some t ↔ ∃ s', run step s as = some s' ∧ step s' a = some t := by
  rw [run_append]
  simp [run]

/-- **History rule.** What holds at the start and is preserved by every action that extends the
history holds of every history and the state after it. -/
theorem history {I : List α → σ → Prop} {s : σ} (hstart : I [] s)
    (hstep : ∀ as s₁ a s₂, run step s as = some s₁ → I as s₁ → step s₁ a = some s₂ →
      I (as ++ [a]) s₂) :
    ∀ {as : List α} {t : σ}, run step s as = some t → I as t := by
  intro as
  induction as using List.reverseRecOn with
  | nil =>
    intro t h
    cases h
    exact hstart
  | append_singleton as a ih =>
    intro t h
    obtain ⟨s₁, hs₁, ht⟩ := run_concat.mp h
    exact hstep as s₁ a t hs₁ (ih hs₁) ht

theorem StepsMeet.concat {s t : σ} {as : List α} {a : α} (h : StepsMeet step cond s as)
    (hrun : run step s as = some t) (ha : cond t a) : StepsMeet step cond s (as ++ [a]) := by
  induction as generalizing s with
  | nil =>
    cases hrun
    exact ⟨ha, fun _ _ => trivial⟩
  | cons b as ih =>
    obtain ⟨s', hs', ht⟩ := run_cons.mp hrun
    refine ⟨h.1, fun s'' hs'' => ?_⟩
    obtain rfl : s' = s'' := Option.some.inj (hs'.symm.trans hs'')
    exact ih (h.2 s' hs') ht

theorem StepsMeet.of_concat {s t : σ} {as : List α} {a : α}
    (h : StepsMeet step cond s (as ++ [a])) (hrun : run step s as = some t) :
    StepsMeet step cond s as ∧ cond t a := by
  induction as generalizing s with
  | nil =>
    cases hrun
    exact ⟨trivial, h.1⟩
  | cons b as ih =>
    obtain ⟨s', hs', ht⟩ := run_cons.mp hrun
    refine ⟨⟨h.1, fun s'' hs'' => ?_⟩, (ih (h.2 s' hs') ht).2⟩
    obtain rfl : s' = s'' := Option.some.inj (hs'.symm.trans hs'')
    exact (ih (h.2 s' hs') ht).1

/-! ## Every state of a run -/

/-- The property holds in every state that the actions lead through. -/
def Always (step : σ → α → Option σ) (P : σ → Prop) (s : σ) (as : List α) : Prop :=
  ∀ bs cs t, as = bs ++ cs → run step s bs = some t → P t

section

variable {P : σ → Prop} {s t : σ} {as : List α} {a : α}

theorem Always.start (h : Always step P s as) : P s := h [] as s rfl rfl

theorem always_nil : Always step P s [] ↔ P s := by
  refine ⟨Always.start, fun h bs cs t heq hrun => ?_⟩
  obtain ⟨rfl, rfl⟩ := List.append_eq_nil_iff.mp heq.symm
  cases hrun
  exact h

theorem always_cons :
    Always step P s (a :: as) ↔ P s ∧ ∀ s', step s a = some s' → Always step P s' as := by
  constructor
  · refine fun h => ⟨h.start, fun s' hs' bs cs t heq hrun => ?_⟩
    exact h (a :: bs) cs t (by rw [heq, List.cons_append]) (run_cons.mpr ⟨s', hs', hrun⟩)
  · rintro ⟨hs, hrest⟩ bs cs t heq hrun
    cases bs with
    | nil =>
      cases hrun
      exact hs
    | cons b bs =>
      obtain ⟨rfl, rfl⟩ := List.cons_eq_cons.mp heq
      obtain ⟨s', hs', ht⟩ := run_cons.mp hrun
      exact hrest s' hs' bs cs t rfl ht

theorem always_of_invariant {I : σ → Prop} (hstep : ∀ s a s', I s → step s a = some s' → I s')
    (himp : ∀ s, I s → P s) (hs : I s) : Always step P s as :=
  fun _ _ _ _ hrun => himp _ (invariant_run hstep hs hrun)

/-- **Exact condition.** If, from a state with the property, a step leads to a state with the
property exactly when it meets the condition, then a run keeps the property exactly if all its steps
meet the condition. -/
theorem always_iff_stepsMeet {I : σ → Prop}
    (hstep : ∀ s a s', I s → P s → step s a = some s' → I s' ∧ (P s' ↔ cond s a)) :
    ∀ {as : List α} {s t : σ}, I s → P s → run step s as = some t →
      (Always step P s as ↔ StepsMeet step cond s as) := by
  intro as
  induction as with
  | nil => exact fun _ hs _ => ⟨fun _ => trivial, fun _ => always_nil.mpr hs⟩
  | cons a as ih =>
    intro s t hI hs hrun
    obtain ⟨s', hs', ht⟩ := run_cons.mp hrun
    obtain ⟨hI', hiff⟩ := hstep s a s' hI hs hs'
    rw [always_cons]
    constructor
    · rintro ⟨-, hrest⟩
      have hP' := (hrest s' hs').start
      refine ⟨hiff.mp hP', fun s'' hs'' => ?_⟩
      obtain rfl := Option.some.inj (hs'.symm.trans hs'')
      exact (ih hI' hP' ht).mp (hrest s' hs')
    · rintro ⟨ha, hrest⟩
      refine ⟨hs, fun s'' hs'' => ?_⟩
      obtain rfl := Option.some.inj (hs'.symm.trans hs'')
      exact (ih hI' (hiff.mpr ha) ht).mpr (hrest s' hs')

end

/-- The history has an action that meets `P`, and since then every action has met `Q`. -/
def Since (step : σ → α → Option σ) (P Q : σ → α → Prop) (s : σ) (as : List α) : Prop :=
  ∃ as₁ a as₂ s₁ s₂, as = as₁ ++ a :: as₂ ∧ run step s as₁ = some s₁ ∧ P s₁ a ∧
    step s₁ a = some s₂ ∧ StepsMeet step Q s₂ as₂

section

variable {P Q : σ → α → Prop} {s t t' : σ} {as : List α} {a : α}

/-- The last action is the one in question, or comes behind it. -/
theorem concat_eq_append_cons {as as₁ as₂ : List α} {a b : α} (h : as ++ [a] = as₁ ++ b :: as₂) :
    (as = as₁ ∧ a = b ∧ as₂ = []) ∨ ∃ as₃, as₂ = as₃ ++ [a] ∧ as = as₁ ++ b :: as₃ := by
  rcases List.eq_nil_or_concat as₂ with rfl | ⟨as₃, c, rfl⟩
  · obtain ⟨hbefore, hlast⟩ := List.append_inj' h rfl
    exact .inl ⟨hbefore, List.singleton_inj.mp hlast, rfl⟩
  · rw [List.concat_eq_append, ← List.cons_append, ← List.append_assoc] at h
    obtain ⟨hbefore, hlast⟩ := List.append_inj' h rfl
    rw [List.concat_eq_append, List.singleton_inj.mp hlast]
    exact .inr ⟨as₃, rfl, hbefore⟩

/-- What a run does behind one of its actions. -/
theorem run_behind {as₁ as₂ : List α} {s₁ s₂ : σ} (hrun : run step s (as₁ ++ a :: as₂) = some t)
    (hs₁ : run step s as₁ = some s₁) (ha : step s₁ a = some s₂) : run step s₂ as₂ = some t := by
  obtain ⟨s₁', hs₁', hrest⟩ := run_append.mp hrun
  obtain rfl : s₁ = s₁' := Option.some.inj (hs₁.symm.trans hs₁')
  obtain ⟨s₂', hs₂', hbehind⟩ := run_cons.mp hrest
  obtain rfl : s₂ = s₂' := Option.some.inj (ha.symm.trans hs₂')
  exact hbehind

theorem Since.now (hrun : run step s as = some t) (hP : P t a) (ha : step t a = some t') :
    Since step P Q s (as ++ [a]) :=
  ⟨as, a, [], t, t', rfl, hrun, hP, ha, trivial⟩

theorem Since.later (h : Since step P Q s as) (hrun : run step s as = some t) (hQ : Q t a) :
    Since step P Q s (as ++ [a]) := by
  obtain ⟨as₁, b, as₂, s₁, s₂, rfl, hs₁, hP, hs₂, hmeet⟩ := h
  have ht : run step s₂ as₂ = some t := run_behind hrun hs₁ hs₂
  exact ⟨as₁, b, as₂ ++ [a], s₁, s₂, by simp, hs₁, hP, hs₂, hmeet.concat ht hQ⟩

theorem Since.not_nil : ¬ Since step P Q s [] := by
  rintro ⟨as₁, a, as₂, -, -, h, -⟩
  simp at h

/-- **One more action** is the one that meets `P`, or comes after it and meets `Q`. -/
theorem Since.concat_iff (hrun : run step s as = some t) (ha : step t a = some t') :
    Since step P Q s (as ++ [a]) ↔ P t a ∨ Since step P Q s as ∧ Q t a := by
  constructor
  · rintro ⟨as₁, b, as₂, s₁, s₂, heq, hs₁, hP, hs₂, hmeet⟩
    rcases concat_eq_append_cons heq with ⟨rfl, rfl, -⟩ | ⟨as₃, rfl, rfl⟩
    · obtain rfl : s₁ = t := Option.some.inj (hs₁.symm.trans hrun)
      exact .inl hP
    · obtain ⟨hbefore, hQ⟩ := hmeet.of_concat (run_behind hrun hs₁ hs₂)
      exact .inr ⟨⟨as₁, b, as₃, s₁, s₂, rfl, hs₁, hP, hs₂, hbefore⟩, hQ⟩
  · rintro (hP | ⟨hsince, hQ⟩)
    · exact .now hrun hP ha
    · exact hsince.later hrun hQ

/-- **Simulation.** A system that another one follows action by action, where an invariant holds,
has its histories there as well. -/
theorem Since.follows {τ β : Type*} {step' : τ → β → Option τ} {P' Q' : τ → β → Prop} {I : σ → Prop}
    {f : σ → τ} {g : σ → α → β} (hI : ∀ s a s', I s → step s a = some s' → I s')
    (hstep : ∀ s a s', I s → step s a = some s' → step' (f s) (g s a) = some (f s'))
    (hP : ∀ s a, I s → P s a → P' (f s) (g s a)) (hQ : ∀ s a, I s → Q s a → Q' (f s) (g s a))
    (hs : I s) (hrun : run step s as = some t) :
    ∃ bs, run step' (f s) bs = some (f t) ∧
      (Since step P Q s as → Since step' P' Q' (f s) bs) := by
  refine (history (I := fun as t => I t ∧ ∃ bs, run step' (f s) bs = some (f t) ∧
    (Since step P Q s as → Since step' P' Q' (f s) bs)) ?_ ?_ hrun).2
  · exact ⟨hs, [], rfl, fun h => absurd h Since.not_nil⟩
  · rintro as t a t' ht ⟨hIt, bs, hbs, ih⟩ ha
    have ha' := hstep t a t' hIt ha
    refine ⟨hI t a t' hIt ha, bs ++ [g t a], run_concat.mpr ⟨f t, hbs, ha'⟩, fun hsince => ?_⟩
    rcases (Since.concat_iff ht ha).mp hsince with hPt | ⟨hbefore, hQt⟩
    · exact .now hbs (hP t a hIt hPt) ha'
    · exact (ih hbefore).later hbs (hQ t a hIt hQt)

end

end Runs

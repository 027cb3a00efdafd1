import Mathlib.Logic.Function.Basic
import Mathlib.Tactic.SplitIfs
import NetEncryptor.Base.Runs

/-!
# Messages in two halves

A link carries messages whole or in two halves, and may lose, repeat and reorder what it carries.
The receiver delivers a whole message at once.  A first half it keeps in the slot of the message's
id, in place of what is there; a second half completes the message whose first half it finds there
under its id, unless that one has become late.

What is kept is the last first half of its slot (`held_run_iff`), and what is delivered are the
messages that come whole and those whose second half comes in time and finds the first one
(`mem_delivered_iff`).  So a link that keeps the halves together and in order delivers everything
(`delivered_bursts`).  An implementation that follows the receiver event by event follows it over
runs (`simulation`).
-/

namespace Pairing

/-- What reaches the receiver, with the time where it matters. -/
inductive Event (M : Type*)
  | whole (m : M)
  | first (m : M) (now : ℕ)
  | second (m : M) (now : ℕ)
  /-- What is late is removed. -/
  | collect (now : ℕ)
  /-- Something that concerns no message. -/
  | idle

/-- The first halves that are kept, each with the time at which it came, and what has been
delivered. -/
structure Receiver (M : Type*) where
  held : ℕ → Option (M × ℕ)
  delivered : List M

def Receiver.start (M : Type*) : Receiver M := ⟨fun _ => none, []⟩

variable {M : Type*} (id : M → ℕ) (slots : ℕ) (late : ℕ → ℕ → Bool)

/-- A second half that finds a first half under its id. -/
def complete (s : Receiver M) (slot now stamp : ℕ) (m : M) : Receiver M where
  held := Function.update s.held slot none
  delivered := if late now stamp then s.delivered else s.delivered ++ [m]

def step (s : Receiver M) : Event M → Receiver M
  | .whole m => { s with delivered := s.delivered ++ [m] }
  | .first m now => { s with held := Function.update s.held (id m % slots) (some (m, now)) }
  | .second m now =>
    match s.held (id m % slots) with
    | none => s
    | some (m', stamp) =>
      if id m' = id m then complete late s (id m % slots) now stamp m' else s
  | .collect now => { s with held := fun i => (s.held i).filter fun h => !late now h.2 }
  | .idle => s

def run (s : Receiver M) (es : List (Event M)) : Receiver M := es.foldl (step id slots late) s

variable {id slots late} {s : Receiver M} {es : List (Event M)} {m : M}

theorem run_append (es es' : List (Event M)) :
    run id slots late s (es ++ es') = run id slots late (run id slots late s es) es' :=
  List.foldl_append

/-! ## What is kept -/

def Spares (id : M → ℕ) (slots : ℕ) (late : ℕ → ℕ → Bool) (m : M) (stamp : ℕ) : Event M → Prop
  | .whole _ | .idle => True
  | .first m' _ => id m' % slots ≠ id m % slots
  | .second m' _ => id m' ≠ id m
  | .collect now => late now stamp = false

theorem held_step {stamp : ℕ} {e : Event M} (h : s.held (id m % slots) = some (m, stamp))
    (he : Spares id slots late m stamp e) :
    (step id slots late s e).held (id m % slots) = some (m, stamp) := by
  cases e with
  | whole m' => exact h
  | first m' now => exact (Function.update_of_ne (Ne.symm he) _ _).trans h
  | second m' now =>
    by_cases hslot : id m' % slots = id m % slots
    · simp only [step, hslot, h]
      rw [if_neg (Ne.symm he)]
      exact h
    · cases hx : s.held (id m' % slots) with
      | none =>
        simp only [step, hx]
        exact h
      | some x =>
        simp only [step, hx]
        split_ifs
        · exact (Function.update_of_ne (Ne.symm hslot) _ _).trans h
        · exact h
  | collect now =>
    simp only [step, h]
    exact Option.filter_eq_some_iff.mpr ⟨rfl, by rw [he]; rfl⟩
  | idle => exact h

theorem held_run {stamp : ℕ} (h : s.held (id m % slots) = some (m, stamp))
    (hes : ∀ e ∈ es, Spares id slots late m stamp e) :
    (run id slots late s es).held (id m % slots) = some (m, stamp) := by
  induction es generalizing s with
  | nil => exact h
  | cons e es ih =>
    exact ih (held_step h (hes e List.mem_cons_self)) fun e' he' => hes e' (List.mem_cons_of_mem _ he')

/-- The last event in the slot of the message was its first half. -/
def Kept (id : M → ℕ) (slots : ℕ) (late : ℕ → ℕ → Bool) (es : List (Event M)) (m : M) (stamp : ℕ) :
    Prop :=
  ∃ es₁ es₂, es = es₁ ++ .first m stamp :: es₂ ∧ ∀ e ∈ es₂, Spares id slots late m stamp e

theorem kept_concat_first (now : ℕ) : Kept id slots late (es ++ [.first m now]) m now :=
  ⟨es, [], rfl, nofun⟩

theorem Kept.concat {stamp : ℕ} {e : Event M} (h : Kept id slots late es m stamp)
    (he : Spares id slots late m stamp e) : Kept id slots late (es ++ [e]) m stamp := by
  obtain ⟨es₁, es₂, rfl, hes⟩ := h
  refine ⟨es₁, es₂ ++ [e], by rw [List.append_assoc, List.cons_append], fun e' he' => ?_⟩
  rcases List.mem_append.mp he' with he' | he'
  · exact hes e' he'
  · rw [List.mem_singleton.mp he']
    exact he

theorem held_of_held_step {i stamp : ℕ} {e : Event M}
    (h : (step id slots late s e).held i = some (m, stamp)) (hs : ∀ {m' stamp'},
      s.held i = some (m', stamp') → i = id m' % slots) :
    (s.held i = some (m, stamp) ∧ Spares id slots late m stamp e) ∨
      (e = .first m stamp ∧ i = id m % slots) := by
  cases e with
  | whole m' => exact .inl ⟨h, trivial⟩
  | first m' now =>
    replace h : Function.update s.held (id m' % slots) (some (m', now)) i = some (m, stamp) := h
    by_cases hi : i = id m' % slots
    · rw [hi, Function.update_self] at h
      cases h
      exact .inr ⟨rfl, hi⟩
    · rw [Function.update_of_ne hi] at h
      exact .inl ⟨h, fun heq => hi ((hs h).trans heq.symm)⟩
  | second m' now =>
    cases hx : s.held (id m' % slots) with
    | none =>
      simp only [step, hx] at h
      refine .inl ⟨h, fun heq => ?_⟩
      have hi := hs h
      rw [← heq] at hi
      rw [hi, hx] at h
      cases h
    | some x =>
      obtain ⟨m'', stamp'⟩ := x
      simp only [step, hx] at h
      split_ifs at h with heq
      · replace h : Function.update s.held (id m' % slots) none i = some (m, stamp) := h
        by_cases hi : i = id m' % slots
        · rw [hi, Function.update_self] at h
          cases h
        · rw [Function.update_of_ne hi] at h
          exact .inl ⟨h, fun heq' => hi ((hs h).trans (by rw [heq']))⟩
      · refine .inl ⟨h, fun heq' => ?_⟩
        have hi := hs h
        rw [hi, ← heq', hx] at h
        cases h
        exact heq heq'.symm
  | collect now =>
    obtain ⟨hi, htime⟩ := Option.filter_eq_some_iff.mp h
    exact .inl ⟨hi, (Bool.not_eq_true' _).mp htime⟩
  | idle => exact .inl ⟨h, trivial⟩

/-- **What is kept** is what the last event in its slot left there. -/
theorem held_run_iff {i stamp : ℕ} :
    (run id slots late (.start M) es).held i = some (m, stamp) ↔
      i = id m % slots ∧ Kept id slots late es m stamp := by
  constructor
  · intro h
    induction es using List.reverseRecOn generalizing m stamp with
    | nil => cases h
    | append_singleton es e ih =>
      rw [run_append] at h
      rcases held_of_held_step h fun h' => (ih h').1 with ⟨h', he⟩ | ⟨rfl, hi⟩
      · exact ⟨(ih h').1, (ih h').2.concat he⟩
      · exact ⟨hi, kept_concat_first stamp⟩
  · rintro ⟨rfl, es₁, es₂, rfl, hes⟩
    rw [run_append]
    show (run id slots late (step id slots late _ (.first m stamp)) es₂).held _ = _
    exact held_run (Function.update_self ..) hes

/-! ## What is delivered -/

/-- The message was received whole, or its second half came in time and found the first one. -/
def Received (id : M → ℕ) (slots : ℕ) (late : ℕ → ℕ → Bool) (es : List (Event M)) (m : M) : Prop :=
  .whole m ∈ es ∨ ∃ es₁ es₂ stamp now, es = es₁ ++ .second m now :: es₂ ∧
    late now stamp = false ∧ Kept id slots late es₁ m stamp

theorem received_concat {e : Event M} :
    Received id slots late (es ++ [e]) m ↔ Received id slots late es m ∨ e = .whole m ∨
      ∃ stamp now, e = .second m now ∧ late now stamp = false ∧ Kept id slots late es m stamp := by
  constructor
  · rintro (h | ⟨es₁, es₂, stamp, now, heq, htime, hkept⟩)
    · rcases List.mem_append.mp h with h | h
      · exact .inl (.inl h)
      · exact .inr (.inl (List.mem_singleton.mp h).symm)
    · rcases Runs.concat_eq_append_cons heq with ⟨rfl, rfl, -⟩ | ⟨es₃, -, rfl⟩
      · exact .inr (.inr ⟨stamp, now, rfl, htime, hkept⟩)
      · exact .inl (.inr ⟨es₁, es₃, stamp, now, rfl, htime, hkept⟩)
  · rintro ((h | ⟨es₁, es₂, stamp, now, rfl, htime, hkept⟩) | rfl | ⟨stamp, now, rfl, htime, hkept⟩)
    · exact .inl (List.mem_append_left _ h)
    · exact .inr ⟨es₁, es₂ ++ [e], stamp, now, by rw [List.append_assoc, List.cons_append], htime,
        hkept⟩
    · exact .inl (List.mem_append_right _ (List.mem_singleton_self _))
    · exact .inr ⟨es, [], stamp, now, rfl, htime, hkept⟩

/-- The first half that a second one finds is of the same message, unless that one is late. -/
def Agrees (id : M → ℕ) (slots : ℕ) (late : ℕ → ℕ → Bool) (s : Receiver M) : Event M → Prop
  | .second m now => ∀ m' stamp, s.held (id m % slots) = some (m', stamp) → id m' = id m →
      late now stamp = false → m' = m
  | _ => True

theorem mem_delivered_step {e : Event M} (hag : Agrees id slots late s e) :
    m ∈ (step id slots late s e).delivered ↔ m ∈ s.delivered ∨ e = .whole m ∨
      ∃ stamp now, e = .second m now ∧ late now stamp = false ∧
        s.held (id m % slots) = some (m, stamp) := by
  cases e with
  | whole m' =>
    simp only [step, List.mem_append, List.mem_singleton, Event.whole.injEq, reduceCtorEq, false_and,
      exists_false, or_false]
    exact or_congr_right eq_comm
  | first m' now => simp [step]
  | collect now => simp [step]
  | idle => simp [step]
  | second m' now =>
    simp only [reduceCtorEq, false_or, Event.second.injEq]
    cases hx : s.held (id m' % slots) with
    | none =>
      simp only [step, hx]
      refine ⟨.inl, ?_⟩
      rintro (h | ⟨stamp, now', ⟨rfl, -⟩, -, hheld⟩)
      · exact h
      · rw [hx] at hheld
        cases hheld
    | some x =>
      obtain ⟨m'', stamp⟩ := x
      simp only [step, hx]
      by_cases hgood : id m'' = id m' ∧ late now stamp = false
      · obtain ⟨heq, htime⟩ := hgood
        obtain rfl := hag m'' stamp hx heq htime
        rw [if_pos heq]
        unfold complete
        rw [htime, if_neg (by decide)]
        simp only [List.mem_append, List.mem_singleton]
        refine or_congr_right ⟨?_, ?_⟩
        · rintro rfl
          exact ⟨stamp, now, ⟨rfl, rfl⟩, htime, hx⟩
        · rintro ⟨_, _, ⟨rfl, -⟩, -⟩
          rfl
      · have hsame : (if id m'' = id m' then complete late s (id m' % slots) now stamp m''
            else s).delivered = s.delivered := by
          split_ifs with heq
          · unfold complete
            rw [if_pos (by simpa [heq] using hgood)]
          · rfl
        rw [hsame]
        refine ⟨.inl, ?_⟩
        rintro (h | ⟨stamp', now', ⟨rfl, rfl⟩, htime, hheld⟩)
        · exact h
        · rw [hx] at hheld
          cases hheld
          exact absurd ⟨rfl, htime⟩ hgood

/-- A first and a second half of the same id are of one message, unless the second one is late. -/
def Distinct (id : M → ℕ) (late : ℕ → ℕ → Bool) (es : List (Event M)) : Prop :=
  ∀ ⦃m stamp m' now⦄, .first m stamp ∈ es → .second m' now ∈ es → id m = id m' →
    late now stamp = false → m = m'

theorem Distinct.mono {es' : List (Event M)} (h : Distinct id late es') (hle : es ⊆ es') :
    Distinct id late es :=
  fun _ _ _ _ h₁ h₂ => h (hle h₁) (hle h₂)

theorem Distinct.agrees {e : Event M} (hid : Distinct id late (es ++ [e])) :
    Agrees id slots late (run id slots late (.start M) es) e := by
  cases e with
  | second m now =>
    intro m' stamp hheld heq htime
    obtain ⟨-, es₁, es₂, rfl, -⟩ := held_run_iff.mp hheld
    exact hid (by simp) (by simp) heq htime
  | whole m => trivial
  | first m now => trivial
  | collect now => trivial
  | idle => trivial

/-- **What is delivered** is what was received. -/
theorem mem_delivered_iff (hid : Distinct id late es) :
    m ∈ (run id slots late (.start M) es).delivered ↔ Received id slots late es m := by
  induction es using List.reverseRecOn with
  | nil =>
    refine iff_of_false nofun ?_
    rintro (h | ⟨es₁, es₂, _, _, heq, -⟩)
    · cases h
    · exact absurd heq (by simp)
  | append_singleton es e ih =>
    rw [run_append, received_concat, ← ih (hid.mono (List.subset_append_left _ _))]
    refine (mem_delivered_step hid.agrees).trans ?_
    simp only [held_run_iff, true_and]

/-- **A second half** that comes in time and finds the first one delivers the message. -/
theorem delivered_second {stamp now : ℕ} (htime : late now stamp = false)
    (hes : ∀ e ∈ es, Spares id slots late m stamp e) :
    (run id slots late s (.first m stamp :: (es ++ [.second m now]))).delivered =
      (run id slots late s (.first m stamp :: es)).delivered ++ [m] := by
  have hheld : (step id slots late s (.first m stamp)).held (id m % slots) = some (m, stamp) :=
    Function.update_self ..
  have hrun := held_run hheld hes
  rw [← List.cons_append, run_append]
  show (step id slots late (run id slots late (step id slots late s (.first m stamp)) es)
    (.second m now)).delivered = _
  simp only [step] at hrun ⊢
  simp only [hrun, if_true, complete, htime]
  rfl

/-- The events of one message on a link that keeps its halves together. -/
inductive Burst (late : ℕ → ℕ → Bool) (m : M) : List (Event M) → Prop
  | whole : Burst late m [.whole m]
  | halves {stamp now : ℕ} (h : late now stamp = false) :
    Burst late m [.first m stamp, .second m now]

/-- **Nothing is lost** by the receiver. -/
theorem delivered_bursts {ms : List M} {ess : List (List (Event M))}
    (h : List.Forall₂ (Burst late) ms ess) :
    (run id slots late s ess.flatten).delivered = s.delivered ++ ms := by
  induction h generalizing s with
  | nil => exact (List.append_nil _).symm
  | @cons m es ms ess hb _ ih =>
    have hone : (run id slots late s es).delivered = s.delivered ++ [m] := by
      cases hb with
      | whole => rfl
      | halves htime =>
        show (run id slots late s (.first m _ :: ([] ++ [.second m _]))).delivered = _
        exact delivered_second htime nofun
    rw [List.flatten_cons, run_append, ih, hone, List.append_assoc, List.singleton_append]

/-! ## Implementations -/

/-- **Event by event.** An implementation that follows the receiver wherever a second half finds the
right first one follows it over every run with distinct ids. -/
theorem simulation {S A : Type*} {stepS : S → A → S} {R : Receiver M → S → Prop}
    {Matches : A → Event M → Prop}
    (hstep : ∀ {s c a e}, R s c → Matches a e → Agrees id slots late s e →
      R (step id slots late s e) (stepS c a))
    {c : S} (hc : R (.start M) c) {as : List A} (has : List.Forall₂ Matches as es)
    (hid : Distinct id late es) : R (run id slots late (.start M) es) (as.foldl stepS c) := by
  -- `es₀` are the events that came before
  suffices h : ∀ es₀, R (run id slots late (.start M) es₀) c → Distinct id late (es₀ ++ es) →
      R (run id slots late (run id slots late (.start M) es₀) es) (as.foldl stepS c) from h [] hc hid
  clear hc hid
  induction has generalizing c with
  | nil => exact fun _ hc _ => hc
  | @cons a e as es hae _ ih =>
    intro es₀ hc hid
    rw [← List.singleton_append, ← List.append_assoc] at hid
    have hag : Agrees id slots late (run id slots late (.start M) es₀) e :=
      (hid.mono (List.subset_append_left _ _)).agrees
    have hnext := ih (es₀ ++ [e]) (by rw [run_append]; exact hstep hc hae hag) hid
    rw [run_append] at hnext
    exact hnext

end Pairing

import Mathlib.Logic.Function.Basic
import Mathlib.Tactic.SplitIfs
import NetEncryptor.Base.Runs

/-!
# Copies kept by notification

A store changes key by key.  Whoever has changed a key may announce it: a message that names the key
is queued.  A reader takes the messages one after the other and gives its copy of the key the value
that it finds.  Messages from the end of the queue may be lost.

A step touches the copy of a key only by finding a value for it (`copy_step`).  If nothing about the
key has changed since it was announced, its messages have all been taken, and the reader has found
what is there, then the copy is the store's value (`agrees_of_announced`), whatever has happened to
the other keys.
-/

namespace Notified

structure State (K V M : Type*) where
  store : K → V
  /-- The reader's copy. -/
  copy : K → V
  queue : List M

inductive Event (K V M : Type*)
  | change (k : K) (v : V)
  | announce (m : M)
  /-- Only the first messages are left. -/
  | lost (kept : ℕ)
  /-- The first message is taken, and the reader finds a value for its key. -/
  | take (found : V)
  | idle

variable {K V M : Type*} [DecidableEq K] (key : M → Option K)

/-- What the copy becomes when a value is found for the key of a message, if it names one. -/
def note (copy : K → V) (m : M) (found : V) : K → V :=
  match key m with
  | none => copy
  | some k => Function.update copy k found

def step (s : State K V M) : Event K V M → Option (State K V M)
  | .change k v => some { s with store := Function.update s.store k v }
  | .announce m => some { s with queue := s.queue ++ [m] }
  | .lost kept => some { s with queue := s.queue.take kept }
  | .take found =>
    match s.queue with
    | [] => none
    | m :: rest => some { s with copy := note key s.copy m found, queue := rest }
  | .idle => some s

/-- The message names the key. -/
def Names (k : K) (m : M) : Prop := key m = some k

/-- A message that names the key is queued. -/
def Pending (k : K) (s : State K V M) : Prop := ∃ m ∈ s.queue, Names key k m

/-- The event announces the key. -/
def Announces (k : K) (_ : State K V M) (e : Event K V M) : Prop :=
  ∃ m, e = .announce m ∧ Names key k m

/-- The event takes a message that names the key, and finds a value that meets `P`. -/
def Finds (P : V → Prop) (k : K) (s : State K V M) (e : Event K V M) : Prop :=
  ∃ found m, e = .take found ∧ s.queue.head? = some m ∧ Names key k m ∧ P found

/-- The event neither changes the key nor loses a message that names it, and what it finds for the
key is what is there. -/
def Keeps (k : K) (s : State K V M) : Event K V M → Prop
  | .change k' _ => k' ≠ k
  | .announce _ => True
  | .lost kept => ∀ m ∈ s.queue.drop kept, ¬ Names key k m
  | .take found => ∀ m, s.queue.head? = some m → Names key k m → found = s.store k
  | .idle => True

section

variable {key} {s t : State K V M} {e : Event K V M} {es : List (Event K V M)} {k : K}

theorem note_of_names {copy : K → V} {m : M} {found : V} (h : Names key k m) :
    note key copy m found k = found := by
  rw [note, show key m = some k from h]
  exact Function.update_self k found copy

theorem note_of_not_names {copy : K → V} {m : M} {found : V} (h : ¬ Names key k m) :
    note key copy m found k = copy k := by
  cases hkey : key m with
  | none => rw [note, hkey]
  | some k' =>
    rw [note, hkey]
    exact Function.update_of_ne (fun heq => h (by rw [Names, hkey, heq])) _ _

theorem step_take {found : V} (h : step key s (.take found) = some t) :
    ∃ m rest, s.queue = m :: rest ∧ t = { s with copy := note key s.copy m found, queue := rest } := by
  cases hq : s.queue with
  | nil =>
    simp only [step, hq] at h
    cases h
  | cons m rest =>
    simp only [step, hq] at h
    cases h
    exact ⟨m, rest, rfl, rfl⟩

/-- **One step and the copy of a key.** A property of the copy is that of the value found for the key,
or is kept. -/
theorem copy_step (P : V → Prop) (h : step key s e = some t) :
    P (t.copy k) ↔ Finds key P k s e ∨ P (s.copy k) ∧ ¬ Finds key (fun _ => True) k s e := by
  have hother : ∀ {Q : V → Prop}, (∀ found, e ≠ .take found) → ¬ Finds key Q k s e := by
    rintro Q hne ⟨found, -, rfl, -⟩
    exact hne found rfl
  cases e with
  | take found =>
    obtain ⟨m, rest, hq, rfl⟩ := step_take h
    have hfinds : ∀ {Q : V → Prop}, Finds key Q k s (.take found) ↔ Names key k m ∧ Q found := by
      intro Q
      constructor
      · rintro ⟨found', m', heq, hm', hnames, hQ⟩
        cases heq
        rw [hq] at hm'
        cases hm'
        exact ⟨hnames, hQ⟩
      · rintro ⟨hnames, hQ⟩
        exact ⟨found, m, rfl, by rw [hq]; rfl, hnames, hQ⟩
    rw [hfinds, hfinds]
    show P (note key s.copy m found k) ↔ _
    by_cases hnames : Names key k m
    · rw [note_of_names hnames]
      exact ⟨fun hP => .inl ⟨hnames, hP⟩,
        fun h => h.elim And.right fun h => absurd ⟨hnames, trivial⟩ h.2⟩
    · rw [note_of_not_names hnames]
      exact ⟨fun hP => .inr ⟨hP, fun h => hnames h.1⟩,
        fun h => h.elim (fun h => absurd h.1 hnames) And.left⟩
  | change k' v | announce m | lost kept | idle =>
    cases h
    have hno : ∀ {Q : V → Prop}, ¬ Finds key Q k s _ := hother nofun
    exact ⟨fun hP => .inr ⟨hP, hno⟩, fun h => h.elim (fun h => absurd h hno) And.left⟩

theorem agrees_step (h : step key s e = some t) (hk : Keeps key k s e)
    (hs : Pending key k s ∨ s.copy k = s.store k) : Pending key k t ∨ t.copy k = t.store k := by
  cases e with
  | change k' v =>
    cases h
    refine hs.imp_right fun heq => ?_
    show s.copy k = Function.update s.store k' v k
    rw [Function.update_of_ne (Ne.symm hk), heq]
  | announce m =>
    cases h
    refine hs.imp_left ?_
    rintro ⟨m', hm', hnames⟩
    exact ⟨m', List.mem_append_left _ hm', hnames⟩
  | lost kept =>
    cases h
    refine hs.imp_left ?_
    rintro ⟨m', hm', hnames⟩
    refine ⟨m', ?_, hnames⟩
    rw [← List.take_append_drop kept s.queue] at hm'
    exact (List.mem_append.mp hm').resolve_right fun hmem => hk m' hmem hnames
  | take found =>
    obtain ⟨m, rest, hq, rfl⟩ := step_take h
    by_cases hnames : Names key k m
    · right
      show note key s.copy m found k = s.store k
      rw [note_of_names hnames]
      exact hk m (by rw [hq]; rfl) hnames
    · refine hs.imp ?_ fun heq => ?_
      · rintro ⟨m', hm', hnames'⟩
        rw [hq] at hm'
        refine ⟨m', (List.mem_cons.mp hm').resolve_left ?_, hnames'⟩
        rintro rfl
        exact hnames hnames'
      · show note key s.copy m found k = s.store k
        rw [note_of_not_names hnames, heq]
  | idle =>
    cases h
    exact hs

/-- **Announced keys** are right, or will be looked at again. -/
theorem agrees_of_announced {s₀ : State K V M}
    (hsince : Runs.Since (step key) (Announces key k) (Keeps key k) s₀ es)
    (hrun : Runs.run (step key) s₀ es = some t) : Pending key k t ∨ t.copy k = t.store k := by
  revert hsince
  refine Runs.history (I := fun es t =>
    Runs.Since (step key) (Announces key k) (Keeps key k) s₀ es →
      Pending key k t ∨ t.copy k = t.store k) (fun h => absurd h Runs.Since.not_nil) ?_ hrun
  intro es s e t hs ih he hsince
  rcases (Runs.Since.concat_iff hs he).mp hsince with ⟨m, rfl, hnames⟩ | ⟨hsince, hkeeps⟩
  · cases he
    exact .inl ⟨m, List.mem_append_right _ (List.mem_singleton_self m), hnames⟩
  · exact agrees_step he hkeeps (ih hsince)

end

end Notified

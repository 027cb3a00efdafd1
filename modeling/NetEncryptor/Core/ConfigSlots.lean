import NetEncryptor.Core.Reload
import NetEncryptor.Core.ReloadPause

/-!
# The two configuration slots

`apply_active_configs` writes the slot that is not active, has `forwarder_reload_config` store its
address in `fwd->cfg`, and makes it the active one.  A packet thread takes that address inside its
critical section and uses it until it leaves.

A reload that pauses the threads leaves no address of the old slot behind; one that does not pause
leaves the addresses that are in use, and the next reload writes the slot that they are of.
`slots_unheld_iff` says in which runs this happens.
-/

namespace NetEncryptor

/-- Where `apply_active_configs` is. -/
inductive ApplyPhase
  | idle
  | written
  /-- In `forwarder_reload_config`, before the address is stored, with the flag set. -/
  | pausing
  /-- In `forwarder_reload_config`, behind the rebuild. -/
  | rebuilt
  /-- `forwarder_reload_config` has returned `0`. -/
  | reloaded
  deriving DecidableEq

/-- The slots, the packet threads with the slots whose address they have, and the reloader. -/
structure SlotState (ι : Type) extends PauseState ι where
  cfgSlots : Buffer AppConfig
  activeSlot : ℕ
  /-- The slot whose address is in `fwd->cfg`. -/
  fwdCfg : ℕ
  /-- The slots whose address a thread has taken in its critical section. -/
  held : ι → List ℕ
  applying : ApplyPhase
  /-- The thread was in its critical section with an address at the last swap without a pause, and
  has not left it since. -/
  stale : ι → Bool

def SlotState.start (ι : Type) (cfgSlots : Buffer AppConfig) : SlotState ι :=
  ⟨PauseState.start ι, cfgSlots, 0, 0, fun _ => [], .idle, fun _ => false⟩

inductive SlotAction (ι : Type)
  /-- The next access of the thread to the two atomics. -/
  | packet (i : ι)
  /-- The thread reads `fwd->cfg`. -/
  | take (i : ι)
  /-- `rt->cfg_slots[next_slot] = *merged_cfg`. -/
  | write (cfg : AppConfig)
  /-- The next step of the reload. -/
  | reload

section

variable {ι : Type} [DecidableEq ι]

def SlotState.nextSlot (s : SlotState ι) : ℕ := 1 - s.activeSlot

/-- A thread that leaves its critical section has no address any more. -/
def SlotState.packet (s : SlotState ι) (i : ι) : SlotState ι :=
  { s with
    toPauseState := packetStep s.toPauseState i
    held := if s.thread i = .inside then Function.update s.held i [] else s.held
    stale := if s.thread i = .inside then Function.update s.stale i false else s.stale }

/-- The steps of `forwarder_reload_config`, and `rt->active_slot = next_slot`. -/
def SlotState.reload (s : SlotState ι) : Option (SlotState ι) :=
  match s.applying with
  | .idle => none
  | .written =>
    match reloadKind (s.cfgSlots s.fwdCfg) (s.cfgSlots s.nextSlot) with
    | .rejected => some { s with applying := .idle }
    | .unpaused =>
      some { s with
        fwdCfg := s.nextSlot
        applying := .reloaded
        stale := fun i => s.held i != [] }
    | .paused => some { s with toPauseState := reloaderStep s.toPauseState, applying := .pausing }
  | .pausing =>
    if s.reloader = .rebuilding then
      some { s with
        fwdCfg := s.nextSlot
        cfgSlots := s.cfgSlots.set s.nextSlot (setQueueCounts (s.cfgSlots s.nextSlot))
        applying := .rebuilt }
    else some { s with toPauseState := reloaderStep s.toPauseState }
  | .rebuilt => some { s with toPauseState := reloaderStep s.toPauseState, applying := .reloaded }
  | .reloaded => some { s with activeSlot := s.nextSlot, applying := .idle }

def slotStep (s : SlotState ι) : SlotAction ι → Option (SlotState ι)
  | .packet i => some (s.packet i)
  | .take i =>
    if s.thread i = .inside then
      some { s with held := Function.update s.held i (s.fwdCfg :: s.held i) }
    else none
  | .write cfg =>
    if s.applying = .idle then
      some { s with cfgSlots := s.cfgSlots.set s.nextSlot cfg, applying := .written }
    else none
  | .reload => s.reload

omit [DecidableEq ι] in
def writtenSlot (s : SlotState ι) : SlotAction ι → Option ℕ
  | .write _ => if s.applying = .idle then some s.nextSlot else none
  | .reload => if s.applying = .pausing ∧ s.reloader = .rebuilding then some s.nextSlot else none
  | .packet _ => none
  | .take _ => none

/-- No thread that is in its critical section has the address of the slot that the step writes. -/
def SlotFree (s : SlotState ι) (a : SlotAction ι) : Prop :=
  ∀ slot ∈ writtenSlot s a, ∀ i, s.thread i = .inside → slot ∉ s.held i

/-- A slot is written for a new configuration only when every thread has left the critical section
that it was in, with an address, at the last swap without a pause. -/
def NoStaleReader (s : SlotState ι) : SlotAction ι → Prop
  | .write _ => s.applying = .idle → ∀ i, s.stale i = false
  | _ => True

/-- The address is stored without a pause only while no thread has one. -/
def QuietSwap (s : SlotState ι) : SlotAction ι → Prop
  | .reload => s.applying = .written →
      reloadKind (s.cfgSlots s.fwdCfg) (s.cfgSlots s.nextSlot) = .unpaused → ∀ i, s.held i = []
  | _ => True

instance [Fintype ι] (s : SlotState ι) (a : SlotAction ι) : Decidable (SlotFree s a) :=
  inferInstanceAs (Decidable (∀ slot ∈ writtenSlot s a, ∀ i, s.thread i = .inside → slot ∉ s.held i))

instance [Fintype ι] (s : SlotState ι) : ∀ a, Decidable (NoStaleReader s a)
  | .write _ => inferInstanceAs (Decidable (s.applying = .idle → ∀ i, s.stale i = false))
  | .packet _ => .isTrue trivial
  | .take _ => .isTrue trivial
  | .reload => .isTrue trivial

/-! ## The invariant -/

/-- Which slot `fwd->cfg` names, and where the reloader is, in each phase. -/
def ApplyPhase.Ok (s : SlotState ι) : ApplyPhase → Prop
  | .idle | .written => s.fwdCfg = s.activeSlot ∧ s.reloader = .idle
  | .pausing => s.fwdCfg = s.activeSlot ∧ s.reloader ≠ .idle
  | .rebuilt => s.fwdCfg = s.nextSlot ∧ s.reloader = .rebuilding
  | .reloaded => s.fwdCfg = s.nextSlot ∧ s.reloader = .idle

/-- An address is held inside only; it is that of the running configuration, or the thread is
stale and it is that of the other slot. -/
structure SlotsOk [Fintype ι] (s : SlotState ι) : Prop where
  pause : PauseOk s.toPauseState
  active : s.activeSlot ≤ 1
  phase : s.applying.Ok s
  inside : ∀ i, s.held i ≠ [] → s.thread i = .inside
  held : ∀ i, ∀ slot ∈ s.held i, slot = s.fwdCfg ∨ s.stale i = true ∧ slot = 1 - s.fwdCfg
  stale : ∀ i, s.stale i = true → 1 - s.fwdCfg ∈ s.held i
  quiet : s.applying = .written → ∀ i, s.stale i = false

section

variable [Fintype ι] {s s' : SlotState ι} {a : SlotAction ι}

omit [DecidableEq ι] in
theorem slotsOk_start (cfgSlots : Buffer AppConfig) : SlotsOk (SlotState.start ι cfgSlots) where
  pause := pauseOk_start
  active := Nat.zero_le 1
  phase := ⟨rfl, rfl⟩
  inside _ h := absurd rfl h
  held _ _ h := absurd h List.not_mem_nil
  stale _ h := by cases h
  quiet h := by cases h

omit [DecidableEq ι] in
theorem SlotsOk.held_eq_nil (hs : SlotsOk s) (h : s.reloader = .rebuilding) (i : ι) :
    s.held i = [] := by
  by_contra hne
  exact hs.pause.excluded h i (hs.inside i hne)

omit [DecidableEq ι] in
theorem SlotsOk.stale_eq_false (hs : SlotsOk s) (h : s.reloader = .rebuilding) (i : ι) :
    s.stale i = false := by
  by_contra hne
  have hmem := hs.stale i (by simpa using hne)
  rw [hs.held_eq_nil h i] at hmem
  exact List.not_mem_nil hmem

omit [DecidableEq ι] in
theorem SlotsOk.nextSlot_eq (hs : SlotsOk s) (h : s.fwdCfg = s.activeSlot) :
    s.nextSlot = 1 - s.fwdCfg ∧ 1 - s.nextSlot = s.fwdCfg ∧ s.nextSlot ≠ s.fwdCfg := by
  have := hs.active
  unfold SlotState.nextSlot
  omega

omit [DecidableEq ι] in
/-- **One write.** Under the invariant a step writes no slot in use exactly if it waits for the stale
threads. -/
theorem slotFree_iff (hs : SlotsOk s) : SlotFree s a ↔ NoStaleReader s a := by
  cases a with
  | packet i => exact iff_of_true (fun _ h => by cases h) trivial
  | take i => exact iff_of_true (fun _ h => by cases h) trivial
  | reload =>
    refine iff_of_true (fun slot hslot i _ => ?_) trivial
    simp only [writtenSlot] at hslot
    split_ifs at hslot with hphase
    · rw [hs.held_eq_nil hphase.2 i]
      exact List.not_mem_nil
    · cases hslot
  | write cfg =>
    unfold SlotFree NoStaleReader
    by_cases hidle : s.applying = .idle
    · have hphase := hs.phase
      rw [hidle] at hphase
      obtain ⟨hnext, -, hne⟩ := hs.nextSlot_eq hphase.1
      rw [writtenSlot, if_pos hidle, hnext]
      simp only [Option.mem_some_iff, forall_eq', hidle, true_implies]
      refine ⟨fun hfree i => ?_, fun hstale i _ hmem => ?_⟩
      · by_contra hst
        have hmem := hs.stale i (by simpa using hst)
        exact hfree i (hs.inside i (List.ne_nil_of_mem hmem)) hmem
      · rcases hs.held i _ hmem with h | ⟨hst, -⟩
        · exact hne (hnext.trans h)
        · rw [hstale i] at hst
          cases hst
    · simp [writtenSlot, hidle]

/-! ## The steps -/

theorem SlotsOk.packet_self (hs : SlotsOk s) (i : ι) :
    (s.packet i).held i = [] ∧ (s.packet i).stale i = false := by
  unfold SlotState.packet
  simp only
  split_ifs with hin
  · simp
  · have hheld : s.held i = [] := by
      by_contra hne
      exact hin (hs.inside i hne)
    refine ⟨hheld, ?_⟩
    by_contra hst
    have hmem := hs.stale i (by simpa using hst)
    rw [hheld] at hmem
    exact List.not_mem_nil hmem

omit [Fintype ι] in
theorem SlotState.packet_of_ne {i j : ι} (hj : j ≠ i) :
    (s.packet i).held j = s.held j ∧ (s.packet i).stale j = s.stale j := by
  unfold SlotState.packet
  simp only
  split_ifs
  · exact ⟨Function.update_of_ne hj _ _, Function.update_of_ne hj _ _⟩
  · exact ⟨rfl, rfl⟩

theorem slotsOk_packet (hs : SlotsOk s) (i : ι) : SlotsOk (s.packet i) := by
  obtain ⟨hheld, hstale⟩ := hs.packet_self i
  refine ⟨pauseOk_packetStep hs.pause i, hs.active, ?_, fun j hj => ?_, fun j slot hj => ?_,
    fun j hj => ?_, fun happ j => ?_⟩
  · have hphase := hs.phase
    show s.applying.Ok (s.packet i)
    cases happ : s.applying <;> rw [happ] at hphase <;>
      exact ⟨hphase.1, by simpa only [SlotState.packet, packetStep_reloader] using hphase.2⟩
  · by_cases hji : j = i
    · subst hji
      exact absurd hheld hj
    · rw [(SlotState.packet_of_ne hji).1] at hj
      exact (packetStep_of_ne hji).trans (hs.inside j hj)
  · by_cases hji : j = i
    · subst hji
      rw [hheld] at hj
      cases hj
    · obtain ⟨hh, hst⟩ := SlotState.packet_of_ne (s := s) hji
      rw [hh] at hj
      rw [hst]
      exact hs.held j slot hj
  · by_cases hji : j = i
    · subst hji
      rw [hstale] at hj
      cases hj
    · obtain ⟨hh, hst⟩ := SlotState.packet_of_ne (s := s) hji
      rw [hst] at hj
      rw [hh]
      exact hs.stale j hj
  · by_cases hji : j = i
    · subst hji
      exact hstale
    · rw [(SlotState.packet_of_ne hji).2]
      exact hs.quiet happ j

theorem slotsOk_take (hs : SlotsOk s) {i : ι} (hin : s.thread i = .inside) :
    SlotsOk { s with held := Function.update s.held i (s.fwdCfg :: s.held i) } where
  pause := hs.pause
  active := hs.active
  phase := by
    have hphase := hs.phase
    show s.applying.Ok _
    cases happ : s.applying <;> rw [happ] at hphase <;> exact hphase
  inside j hj := by
    by_cases hji : j = i
    · subst hji
      exact hin
    · simp only [Function.update_of_ne hji] at hj
      exact hs.inside j hj
  held j slot hj := by
    by_cases hji : j = i
    · subst hji
      simp only [Function.update_self] at hj
      rcases List.mem_cons.mp hj with h | h
      · exact .inl h
      · exact hs.held j slot h
    · simp only [Function.update_of_ne hji] at hj
      exact hs.held j slot hj
  stale j hj := by
    by_cases hji : j = i
    · subst hji
      simp only [Function.update_self]
      exact List.mem_cons_of_mem _ (hs.stale j hj)
    · simp only [Function.update_of_ne hji]
      exact hs.stale j hj
  quiet := hs.quiet

omit [DecidableEq ι] in
theorem slotsOk_reloaderStep (hs : SlotsOk s) {phase : ApplyPhase}
    (hphase : phase.Ok { s with toPauseState := reloaderStep s.toPauseState })
    (hne : phase ≠ .written) :
    SlotsOk { s with toPauseState := reloaderStep s.toPauseState, applying := phase } := by
  refine ⟨pauseOk_reloaderStep hs.pause, hs.active, ?_, fun i hi => ?_, hs.held, hs.stale,
    fun h => absurd h hne⟩
  · cases phase <;> exact hphase
  · rw [reloaderStep_thread]
    exact hs.inside i hi

omit [DecidableEq ι] in
/-- A swap without a pause makes every thread with an address stale: none was, so the addresses are
those of the old configuration. -/
theorem slotsOk_swap (hs : SlotsOk s) (hphase : s.fwdCfg = s.activeSlot ∧ s.reloader = .idle)
    (hquiet : ∀ i, s.stale i = false) :
    SlotsOk { s with
      fwdCfg := s.nextSlot
      applying := .reloaded
      stale := fun i => s.held i != [] } := by
  obtain ⟨-, hback, -⟩ := hs.nextSlot_eq hphase.1
  have hold : ∀ i, ∀ slot ∈ s.held i, slot = s.fwdCfg := by
    intro i slot hslot
    refine (hs.held i slot hslot).resolve_right fun ⟨hst, _⟩ => ?_
    rw [hquiet i] at hst
    cases hst
  refine ⟨hs.pause, hs.active, ⟨rfl, hphase.2⟩, hs.inside, fun i slot hslot => ?_, fun i hi => ?_,
    nofun⟩
  · exact .inr ⟨by simpa using List.ne_nil_of_mem hslot, by rw [hback, hold i slot hslot]⟩
  · have hne : s.held i ≠ [] := by simpa using hi
    obtain ⟨slot, hslot⟩ := List.exists_mem_of_ne_nil _ hne
    rw [hback, ← hold i slot hslot]
    exact hslot

omit [DecidableEq ι] [Fintype ι] in
theorem reloaderStep_ne_idle (hne : s.reloader ≠ .idle) (hr : s.reloader ≠ .rebuilding) :
    (reloaderStep s.toPauseState).reloader ≠ .idle := by
  cases hr' : s.reloader with
  | idle => exact absurd hr' hne
  | draining =>
    simp only [reloaderStep, hr']
    split_ifs
    · rw [hr']
      decide
    · show ReloaderPhase.rebuilding ≠ .idle
      decide
  | rebuilding => exact absurd hr' hr

omit [DecidableEq ι] in
/-- **A step of the reload.** A swap with a pause finds no address. -/
theorem slotsOk_reload (hs : SlotsOk s) (h : s.reload = some s') : SlotsOk s' := by
  have hphase := hs.phase
  unfold SlotState.reload at h
  cases happ : s.applying with
  | idle => rw [happ] at h; cases h
  | written =>
    rw [happ] at h hphase
    simp only at h
    split at h
    · cases h
      exact ⟨hs.pause, hs.active, hphase, hs.inside, hs.held, hs.stale, nofun⟩
    · cases h
      exact slotsOk_swap hs hphase (hs.quiet happ)
    · cases h
      exact slotsOk_reloaderStep hs ⟨hphase.1, by simp [reloaderStep, hphase.2]⟩ nofun
  | pausing =>
    rw [happ] at h hphase
    simp only at h
    split_ifs at h with hr
    · cases h
      have hnil := hs.held_eq_nil hr
      have hquiet := hs.stale_eq_false hr
      refine ⟨hs.pause, hs.active, ⟨rfl, hr⟩, hs.inside, fun i slot hslot => ?_, fun i hi => ?_,
        nofun⟩
      · simp [hnil i] at hslot
      · simp [hquiet i] at hi
    · cases h
      rw [← happ]
      refine slotsOk_reloaderStep hs ?_ (by rw [happ]; decide)
      rw [happ]
      exact ⟨hphase.1, reloaderStep_ne_idle hphase.2 hr⟩
  | rebuilt =>
    rw [happ] at h hphase
    cases h
    exact slotsOk_reloaderStep hs ⟨hphase.1, by simp [reloaderStep, hphase.2]⟩ nofun
  | reloaded =>
    rw [happ] at h hphase
    cases h
    have hactive : s.nextSlot ≤ 1 := Nat.sub_le 1 _
    exact ⟨hs.pause, hactive, hphase, hs.inside, hs.held, hs.stale, nofun⟩

/-- **One step** that waits for the stale threads keeps the invariant. -/
theorem slotsOk_step (hs : SlotsOk s) (hcond : NoStaleReader s a) (h : slotStep s a = some s') :
    SlotsOk s' := by
  cases a with
  | packet i =>
    cases h
    exact slotsOk_packet hs i
  | take i =>
    simp only [slotStep] at h
    split_ifs at h with hin
    cases h
    exact slotsOk_take hs hin
  | write cfg =>
    simp only [slotStep] at h
    split_ifs at h with hidle
    cases h
    have hphase := hs.phase
    rw [hidle] at hphase
    exact ⟨hs.pause, hs.active, hphase, hs.inside, hs.held, hs.stale, fun _ => hcond hidle⟩
  | reload => exact slotsOk_reload hs h

/-- **The slots.** A run, of reloads of all kinds and any number of packet threads, writes no slot
whose address a thread in its critical section has exactly if every write for a new configuration
waits for the threads that were in their critical section at the last swap without a pause. -/
theorem slots_unheld_iff {as : List (SlotAction ι)} (cfgSlots : Buffer AppConfig) :
    Runs.StepsMeet slotStep SlotFree (SlotState.start ι cfgSlots) as ↔
      Runs.StepsMeet slotStep NoStaleReader (SlotState.start ι cfgSlots) as := by
  constructor
  · exact Runs.StepsMeet.of_invariant
      (fun s a s' hs hfree => slotsOk_step hs ((slotFree_iff hs).mp hfree))
      (fun s a hs => (slotFree_iff hs).mp) (slotsOk_start cfgSlots)
  · exact Runs.StepsMeet.of_invariant (fun s a s' hs => slotsOk_step hs)
      (fun s a hs => (slotFree_iff hs).mpr) (slotsOk_start cfgSlots)

omit [Fintype ι] in
theorem fresh_step (hs : ∀ i, s.stale i = false) (hquiet : QuietSwap s a)
    (h : slotStep s a = some s') : ∀ i, s'.stale i = false := by
  cases a with
  | packet i =>
    cases h
    intro j
    by_cases hji : j = i
    · subst hji
      unfold SlotState.packet
      simp only
      split_ifs
      · exact Function.update_self _ _ _
      · exact hs j
    · rw [(SlotState.packet_of_ne hji).2]
      exact hs j
  | take i =>
    simp only [slotStep] at h
    split_ifs at h
    cases h
    exact hs
  | write cfg =>
    simp only [slotStep] at h
    split_ifs at h
    cases h
    exact hs
  | reload =>
    simp only [slotStep, SlotState.reload] at h
    cases happ : s.applying with
    | idle => rw [happ] at h; cases h
    | written =>
      rw [happ] at h
      simp only at h
      split at h
      · cases h
        exact hs
      · rename_i hkind
        cases h
        intro i
        simp [hquiet happ hkind i]
      · cases h
        exact hs
    | pausing =>
      rw [happ] at h
      simp only at h
      split_ifs at h <;> cases h <;> exact hs
    | rebuilt | reloaded =>
      rw [happ] at h
      cases h
      exact hs

/-- **Quiet swaps.** No slot in use is written in a run in which the address is stored without a
pause only while no thread has one. -/
theorem slots_unheld_of_quietSwaps {as : List (SlotAction ι)} {cfgSlots : Buffer AppConfig}
    (h : Runs.StepsMeet slotStep QuietSwap (SlotState.start ι cfgSlots) as) :
    Runs.StepsMeet slotStep SlotFree (SlotState.start ι cfgSlots) as := by
  refine (slots_unheld_iff cfgSlots).mpr ?_
  refine Runs.StepsMeet.of_invariant (I := fun s => ∀ i, s.stale i = false)
    (fun s a s' hs => fresh_step hs) (fun s a hs _ => ?_) (fun _ => rfl) h
  cases a with
  | write cfg => exact fun _ => hs
  | _ => trivial

end

end

/-! ## A long batch -/

/-- A thread takes the address of the first slot; a reload of the same configuration stores that of
the second one without a pause, and the next reload writes the first slot. -/
def longBatchRun : List (SlotAction (Fin 1)) :=
  [.packet 0, .packet 0, .packet 0, .take 0, .write AppConfig.empty, .reload, .reload,
    .write AppConfig.empty]

theorem not_slots_unheld_longBatch :
    ¬ Runs.StepsMeet slotStep SlotFree (SlotState.start (Fin 1) fun _ => AppConfig.empty)
      longBatchRun := by
  decide

end NetEncryptor

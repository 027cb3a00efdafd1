import Mathlib.Data.Int.Notation
import Mathlib.Tactic.Common
import NetEncryptor.Base.Runs

/-!
# The daemon

`main.c`: a notification loads a profile or, when the profile is no longer in the database, unloads
it.  The first profile starts the forwarder thread, the last one that is deleted stops it, and any
other change is a reload.

The thread runs beside the notifications.  It gives up wherever it finds `running` cleared, and it
sets the flag itself only once it has found it set; the initial value is the only other `1` that
is ever stored.  `daemon_canStart_iff` says in which runs this is enough.

Every database query, thread creation and interface initialisation succeeds, and no signal arrives.
`running` in `struct runtime_state`, which is only written, is left out.
-/

namespace NetEncryptor

def maxActiveProfileIds : ℕ := 32

/-! ## The forwarder thread -/

/-- Where `forwarder_thread_main` is. -/
inductive ThreadPhase
  /-- Before `forwarder_init`. -/
  | starting
  /-- Behind `forwarder_init`, before the test that follows it. -/
  | initialized
  /-- Before the test in `forwarder_run`. -/
  | entering
  /-- Behind that test, before `running = 1`. -/
  | entered
  /-- In the loops of `forwarder_run`. -/
  | looping
  /-- Returned, or not there. -/
  | finished
  deriving DecidableEq

/-- The daemon.  It is `joining` while it waits in `pthread_join`. -/
structure DaemonState where
  activeIds : List ℤ
  hasThread : Bool
  /-- `running` of `forwarder.c`. -/
  running : Bool
  thread : ThreadPhase
  joining : Bool

/-- The state in which `main` begins to listen. -/
def DaemonState.start : DaemonState := ⟨[], false, true, .finished, false⟩

def forwarderShouldStop (s : DaemonState) : Bool := !s.running

/-- The next step of the thread, if it has one. -/
def forwarderThreadStep (s : DaemonState) : Option DaemonState :=
  match s.thread with
  | .starting =>
    some { s with thread := if forwarderShouldStop s then .finished else .initialized }
  | .initialized =>
    some { s with thread := if forwarderShouldStop s then .finished else .entering }
  | .entering => some { s with thread := if forwarderShouldStop s then .finished else .entered }
  | .entered => some { s with running := true, thread := .looping }
  | .looping => if s.running then none else some { s with thread := .finished }
  | .finished => none

/-! ## Notifications -/

/-- The value and the set of active ids: `1` when the id was added, `0` when it was there, `-1` when
the set is full. -/
def activeIdsAdd (activeIds : List ℤ) (id : ℤ) : ℤ × List ℤ :=
  if id ∈ activeIds then (0, activeIds)
  else if maxActiveProfileIds ≤ activeIds.length then (-1, activeIds)
  else (1, activeIds ++ [id])

/-- Whether the id was there, and the set without it. -/
def activeIdsRemove (activeIds : List ℤ) (id : ℤ) : Bool × List ℤ :=
  (decide (id ∈ activeIds), activeIds.filter fun i => i ≠ id)

def runtimeStart (s : DaemonState) : DaemonState :=
  { s with hasThread := true, thread := .starting }

/-- Whether it returned `0`, and the state.  `reloadOk` says whether `forwarder_reload_config`
accepts the merged configuration. -/
def applyActiveConfigs (s : DaemonState) (reloadOk : Bool) : Bool × DaemonState :=
  if s.hasThread = false then (true, runtimeStart s) else (reloadOk, s)

/-- The part of `runtime_stop_forwarder` before `pthread_join` returns. -/
def runtimeStopForwarder (s : DaemonState) : DaemonState :=
  if s.hasThread = false then s else { s with running := false, joining := true }

def loadProfileAndRun (s : DaemonState) (profileId : ℤ) (reloadOk : Bool) : DaemonState :=
  let s := if s.hasThread = false then { s with activeIds := [] } else s
  let added := activeIdsAdd s.activeIds profileId
  if added.1 ≠ 1 then s
  else
    let r := applyActiveConfigs { s with activeIds := added.2 } reloadOk
    if r.1 then r.2 else { r.2 with activeIds := (activeIdsRemove r.2.activeIds profileId).2 }

/-- `inDb` is what `ne_profile_id_exists` finds. -/
def handleProfileNotify (s : DaemonState) (profileId : ℤ) (inDb reloadOk : Bool) : DaemonState :=
  if inDb then loadProfileAndRun s profileId reloadOk
  else
    let removed := activeIdsRemove s.activeIds profileId
    if removed.1 = false then s
    else
      let s := { s with activeIds := removed.2 }
      if removed.2 = [] then runtimeStopForwarder s else (applyActiveConfigs s reloadOk).2

/-- A step of the daemon: a notification is handled, the thread goes on, or it is joined. -/
inductive DaemonAction
  | notify (profileId : ℤ) (inDb reloadOk : Bool)
  | thread
  | join
  deriving DecidableEq

/-- Notifications wait while the daemon does, and a thread is joined once it has returned. -/
def daemonStep (s : DaemonState) : DaemonAction → Option DaemonState
  | .notify profileId inDb reloadOk =>
    if s.joining then none else some (handleProfileNotify s profileId inDb reloadOk)
  | .thread => forwarderThreadStep s
  | .join =>
    if s.joining ∧ s.thread = .finished then some { s with hasThread := false, joining := false }
    else none

/-! ## The flag -/

/-- As long as no forwarder has been stopped the flag is set between notifications, and a daemon that
waits for its thread has cleared it, unless the thread has set it again. -/
structure NeverStopped (s : DaemonState) : Prop where
  running : s.joining = false → s.running = true
  thread : s.joining = true → s.running = true → s.thread = .looping

/-- Once a forwarder has been stopped the flag stays cleared: no thread gets behind its tests. -/
structure OnceStopped (s : DaemonState) : Prop where
  running : s.running = false
  thread : s.thread ≠ .entered

/-- What a notification can do to thread and flag: nothing, start the thread, or stop it. -/
theorem handleProfileNotify_cases (s : DaemonState) (profileId : ℤ) (inDb reloadOk : Bool) :
    let s' := handleProfileNotify s profileId inDb reloadOk
    (s'.running = s.running ∧ s'.joining = s.joining ∧
      (s'.thread = s.thread ∨ s'.thread = .starting)) ∨
    (s'.running = false ∧ s'.joining = true ∧ s'.thread = s.thread) := by
  have happly : ∀ s : DaemonState, (applyActiveConfigs s reloadOk).2.running = s.running ∧
      (applyActiveConfigs s reloadOk).2.joining = s.joining ∧
      ((applyActiveConfigs s reloadOk).2.thread = s.thread ∨
        (applyActiveConfigs s reloadOk).2.thread = .starting) := fun s => by
    unfold applyActiveConfigs
    split
    · exact ⟨rfl, rfl, .inr rfl⟩
    · exact ⟨rfl, rfl, .inl rfl⟩
  unfold handleProfileNotify
  cases inDb with
  | true =>
    left
    unfold loadProfileAndRun
    simp only [if_true]
    split_ifs
    all_goals first
      | exact ⟨rfl, rfl, .inl rfl⟩
      | exact happly _
  | false =>
    simp only [Bool.false_eq_true, if_false]
    split_ifs
    · exact .inl ⟨rfl, rfl, .inl rfl⟩
    · unfold runtimeStopForwarder
      split
      · exact .inl ⟨rfl, rfl, .inl rfl⟩
      · exact .inr ⟨rfl, rfl, rfl⟩
    · exact .inl (happly _)

section

variable {s s' t : DaemonState} {a : DaemonAction} {as : List DaemonAction}

/-- What a step of the thread can do: set the flag, behind its tests, or leave it and get there only
if it is set. -/
theorem forwarderThreadStep_cases (h : forwarderThreadStep s = some s') :
    s'.joining = s.joining ∧
      ((s.thread = .entered ∧ s'.thread = .looping ∧ s'.running = true) ∨
        (s.thread ≠ .entered ∧ s'.running = s.running ∧ (s.thread = .looping → s.running = false) ∧
          (s'.thread = .entered → s.running = true))) := by
  unfold forwarderThreadStep forwarderShouldStop at h
  cases hphase : s.thread with
  | entered =>
    rw [hphase] at h
    cases h
    exact ⟨rfl, .inl ⟨rfl, rfl, rfl⟩⟩
  | finished => rw [hphase] at h; cases h
  | looping =>
    rw [hphase] at h
    simp only at h
    split at h
    · cases h
    rename_i hrun
    cases h
    exact ⟨rfl, .inr ⟨by decide, rfl, fun _ => by simpa using hrun, by simp⟩⟩
  | starting | initialized | entering =>
    rw [hphase] at h
    cases h
    refine ⟨rfl, .inr ⟨by decide, rfl, by simp, ?_⟩⟩
    cases s.running <;> simp

theorem neverStopped_step (hs : NeverStopped s) (ha : a ≠ .join) (h : daemonStep s a = some s') :
    NeverStopped s' := by
  cases a with
  | notify profileId inDb reloadOk =>
    simp only [daemonStep] at h
    split at h
    · cases h
    rename_i hj
    cases h
    have hj' : s.joining = false := by simpa using hj
    rcases handleProfileNotify_cases s profileId inDb reloadOk with
      ⟨hr, hjoin, -⟩ | ⟨hr, hjoin, -⟩
    · exact ⟨fun _ => hr.trans (hs.running hj'), fun hw => absurd (hjoin.symm.trans hw) hj⟩
    · refine ⟨fun hw => ?_, fun _ hr' => ?_⟩
      · exact absurd (hjoin.symm.trans hw) (by decide)
      · exact absurd (hr.symm.trans hr') (by decide)
  | thread =>
    obtain ⟨hjoin, ⟨-, hphase, hrun⟩ | ⟨hphase, hrun, hloop, -⟩⟩ := forwarderThreadStep_cases h
    · exact ⟨fun _ => hrun, fun _ _ => hphase⟩
    · refine ⟨fun hw => hrun.trans (hs.running (hjoin.symm.trans hw)), fun hw hr => ?_⟩
      -- a daemon that waits while the flag is set waits for a thread in its loops
      have hr' := hrun.symm.trans hr
      have := hloop (hs.thread (hjoin.symm.trans hw) hr')
      rw [hr'] at this
      cases this
  | join => exact absurd rfl ha

theorem onceStopped_join (hs : NeverStopped s) (h : daemonStep s .join = some s') :
    OnceStopped s' := by
  simp only [daemonStep] at h
  split at h
  · rename_i hj
    cases h
    refine ⟨?_, by simp [hj.2]⟩
    cases hr : s.running with
    | false => rfl
    | true =>
      have := (hs.thread hj.1 hr).symm.trans hj.2
      cases this
  · cases h

theorem onceStopped_step (hs : OnceStopped s) (h : daemonStep s a = some s') : OnceStopped s' := by
  cases a with
  | notify profileId inDb reloadOk =>
    simp only [daemonStep] at h
    split at h
    · cases h
    cases h
    rcases handleProfileNotify_cases s profileId inDb reloadOk with
      ⟨hr, -, hphase | hphase⟩ | ⟨hr, -, hphase⟩
    · exact ⟨hr.trans hs.running, fun h => hs.thread (hphase.symm.trans h)⟩
    · exact ⟨hr.trans hs.running, fun h => by rw [hphase] at h; cases h⟩
    · exact ⟨hr, fun h => hs.thread (hphase.symm.trans h)⟩
  | thread =>
    obtain ⟨-, ⟨hphase, -⟩ | ⟨-, hrun, -, hent⟩⟩ := forwarderThreadStep_cases h
    · exact absurd hphase hs.thread
    · refine ⟨hrun.trans hs.running, fun h => ?_⟩
      have := (hent h).symm.trans hs.running
      cases this
  | join =>
    simp only [daemonStep] at h
    split at h
    · cases h
      exact ⟨hs.running, hs.thread⟩
    · cases h

/-- **The flag over a run.** A run that has joined no thread has not cleared the flag for good, and
one that has joined a thread has. -/
theorem flag_run (hs : NeverStopped s) (h : Runs.run daemonStep s as = some t) :
    (.join ∉ as → NeverStopped t) ∧ (.join ∈ as → OnceStopped t) := by
  induction as generalizing s with
  | nil =>
    cases h
    exact ⟨fun _ => hs, fun h => absurd h List.not_mem_nil⟩
  | cons a as ih =>
    obtain ⟨s', hs', ht⟩ := Runs.run_cons.mp h
    by_cases ha : a = .join
    · subst ha
      refine ⟨fun h => absurd List.mem_cons_self h, fun _ => ?_⟩
      exact Runs.invariant_run (fun _ _ _ => onceStopped_step) (onceStopped_join hs hs') ht
    · obtain ⟨hnot, hmem⟩ := ih (neverStopped_step hs ha hs') ht
      refine ⟨fun h => hnot fun h' => h (List.mem_cons_of_mem _ h'), fun h => hmem ?_⟩
      exact (List.mem_cons.mp h).resolve_left (Ne.symm ha)

end

theorem neverStopped_start : NeverStopped DaemonState.start := ⟨fun _ => rfl, fun h => by cases h⟩

/-- **Starting again.** Between notifications the forwarder can run exactly when no forwarder has been
stopped and joined, which happens when the last active profile is deleted. -/
theorem daemon_canStart_iff {as : List DaemonAction} {t : DaemonState}
    (hrun : Runs.run daemonStep DaemonState.start as = some t) (hbetween : t.joining = false) :
    forwarderShouldStop t = false ↔ .join ∉ as := by
  obtain ⟨hnot, hmem⟩ := flag_run neverStopped_start hrun
  unfold forwarderShouldStop
  constructor
  · intro h hjoin
    rw [(hmem hjoin).running] at h
    cases h
  · intro h
    rw [(hnot h).running hbetween]
    rfl

/-- A first profile is loaded, and its thread gets to its loops. -/
def loadRun : List DaemonAction := [.notify 1 true true, .thread, .thread, .thread, .thread]

theorem canStart_loadRun :
    ∃ t, Runs.run daemonStep DaemonState.start loadRun = some t ∧ t.activeIds = [1] ∧
      forwarderShouldStop t = false := by
  have hrun : Runs.run daemonStep DaemonState.start loadRun =
      some ⟨[1], true, true, .looping, false⟩ := rfl
  exact ⟨_, hrun, rfl, (daemon_canStart_iff hrun rfl).mpr (by decide)⟩

/-- The profile is deleted, the thread returns and is joined, and another profile is loaded: its
thread gives up in `forwarder_init`. -/
theorem not_canStart_reloaded :
    ∃ t, Runs.run daemonStep DaemonState.start
        (loadRun ++ [.notify 1 false true, .thread, .join, .notify 2 true true]) = some t ∧
      t.joining = false ∧ t.activeIds = [2] ∧ t.thread = .starting ∧ forwarderShouldStop t = true ∧
      (daemonStep t .thread).map DaemonState.thread = some .finished :=
  ⟨_, rfl, rfl, rfl, rfl, rfl, rfl⟩

end NetEncryptor

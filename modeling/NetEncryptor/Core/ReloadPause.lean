import Mathlib.Algebra.BigOperators.Fin
import Mathlib.Algebra.BigOperators.Group.Finset.Piecewise
import Mathlib.Algebra.BigOperators.Ring.Finset
import NetEncryptor.Base.Runs

/-!
# Pausing the packet threads

A reload that rebuilds the crypto runtime sets `g_reload_pause` and waits until
`g_inflight_packets` is zero.  A packet thread counts itself in before it looks at the flag a second
time, and backs off if it finds the flag set.  Every access of one of the two atomics is a step, and
steps of any number of threads and of the reloader come in any order.
-/

namespace NetEncryptor

inductive PacketPhase
  /-- Outside, or in the loop of `packet_critical_enter` that waits for the flag to be cleared. -/
  | waiting
  /-- Behind that loop, before the increment. -/
  | entering
  /-- Behind the increment, before the second look at the flag. -/
  | counted
  /-- Has found the flag set, before the decrement. -/
  | backingOff
  /-- Between `packet_critical_enter` and the decrement of `packet_critical_leave`. -/
  | inside
  deriving DecidableEq

/-- The thread has incremented and not yet decremented. -/
def PacketPhase.Counts (p : PacketPhase) : Prop := p ≠ .waiting ∧ p ≠ .entering

instance (p : PacketPhase) : Decidable p.Counts := inferInstanceAs (Decidable (_ ∧ _))

inductive ReloaderPhase
  | idle
  /-- The flag is set, the threads have not been seen to be out. -/
  | draining
  /-- Has read zero packets in flight, the flag is still set. -/
  | rebuilding
  deriving DecidableEq

/-- The two atomics, the packet threads and the reloader. -/
structure PauseState (ι : Type) where
  reloadPause : Bool
  inflightPackets : ℤ
  thread : ι → PacketPhase
  reloader : ReloaderPhase

def PauseState.start (ι : Type) : PauseState ι := ⟨false, 0, fun _ => .waiting, .idle⟩

inductive PauseAction (ι : Type)
  | packet (i : ι)
  | reload
  deriving DecidableEq

section

variable {ι : Type} [DecidableEq ι]

def PauseState.goto (s : PauseState ι) (i : ι) (p : PacketPhase) : PauseState ι :=
  { s with thread := Function.update s.thread i p }

/-- The next access of a packet thread, in `packet_critical_enter` or `packet_critical_leave`. -/
def packetStep (s : PauseState ι) (i : ι) : PauseState ι :=
  match s.thread i with
  | .waiting => if s.reloadPause then s else s.goto i .entering
  | .entering => { s.goto i .counted with inflightPackets := s.inflightPackets + 1 }
  | .counted => s.goto i (if s.reloadPause then .backingOff else .inside)
  | .backingOff | .inside => { s.goto i .waiting with inflightPackets := s.inflightPackets - 1 }

/-- The next access of `forwarder_reload_config`. -/
def reloaderStep (s : PauseState ι) : PauseState ι :=
  match s.reloader with
  | .idle => { s with reloadPause := true, reloader := .draining }
  | .draining => if 0 < s.inflightPackets then s else { s with reloader := .rebuilding }
  | .rebuilding => { s with reloadPause := false, reloader := .idle }

/-- Every thread can always go on. -/
def pauseStep (s : PauseState ι) : PauseAction ι → Option (PauseState ι)
  | .packet i => some (packetStep s i)
  | .reload => some (reloaderStep s)

section

variable {s : PauseState ι} {i j : ι}

@[simp] theorem packetStep_reloader : (packetStep s i).reloader = s.reloader := by
  unfold packetStep PauseState.goto
  cases s.thread i with
  | waiting => simp only; split_ifs <;> rfl
  | _ => rfl

theorem packetStep_of_ne (hj : j ≠ i) : (packetStep s i).thread j = s.thread j := by
  have goto : ∀ p, (s.goto i p).thread j = s.thread j := by
    intro p
    show Function.update s.thread i p j = s.thread j
    rw [Function.update_of_ne hj]
  unfold packetStep
  cases s.thread i with
  | waiting =>
    simp only
    split_ifs
    · rfl
    · exact goto _
  | _ => exact goto _

omit [DecidableEq ι] in
@[simp] theorem reloaderStep_thread : (reloaderStep s).thread = s.thread := by
  unfold reloaderStep
  cases s.reloader with
  | draining => simp only; split_ifs <;> rfl
  | _ => rfl

end

/-! ## Counting the threads -/

variable [Fintype ι]

/-- The number of threads between their increment and their decrement. -/
def countedThreads (thread : ι → PacketPhase) : ℕ :=
  (Finset.univ.filter fun i => (thread i).Counts).card

omit [DecidableEq ι] in
theorem countedThreads_eq_zero {thread : ι → PacketPhase} (h : countedThreads thread = 0) (i : ι) :
    thread i ≠ .inside := by
  intro hi
  have hmem : i ∈ Finset.univ.filter fun i => (thread i).Counts := by
    rw [Finset.mem_filter, hi]
    exact ⟨Finset.mem_univ i, by decide⟩
  rw [Finset.card_eq_zero.mp h] at hmem
  exact Finset.notMem_empty i hmem

theorem countedThreads_update (thread : ι → PacketPhase) (i : ι) (p : PacketPhase) :
    countedThreads (Function.update thread i p) + (if (thread i).Counts then 1 else 0) =
      countedThreads thread + if p.Counts then 1 else 0 := by
  have hrest : (∑ j ∈ Finset.univ.erase i, if (Function.update thread i p j).Counts then 1 else 0) =
      ∑ j ∈ Finset.univ.erase i, if (thread j).Counts then 1 else 0 :=
    Finset.sum_congr rfl fun j hj => by rw [Function.update_of_ne (Finset.ne_of_mem_erase hj)]
  unfold countedThreads
  rw [Finset.card_filter, Finset.card_filter, ← Finset.add_sum_erase _ _ (Finset.mem_univ i),
    ← Finset.add_sum_erase _ _ (Finset.mem_univ i), hrest, Function.update_self]
  omega

/-! ## The invariant -/

/-- The counter counts, the flag is set while the reloader is busy, and no thread is inside while
it rebuilds. -/
structure PauseOk (s : PauseState ι) : Prop where
  inflight : s.inflightPackets = countedThreads s.thread
  pause : s.reloadPause = true ↔ s.reloader ≠ .idle
  excluded : s.reloader = .rebuilding → ∀ i, s.thread i ≠ .inside

omit [DecidableEq ι] in
theorem pauseOk_start : PauseOk (PauseState.start ι) where
  inflight := by
    have : countedThreads (fun _ : ι => PacketPhase.waiting) = 0 := by
      rw [countedThreads, Finset.card_eq_zero, Finset.filter_eq_empty_iff]
      exact fun _ _ => by decide
    rw [PauseState.start, this, Nat.cast_zero]
  pause := by simp [PauseState.start]
  excluded h := by cases h

section

variable {s : PauseState ι} {i : ι} {p : PacketPhase}

theorem PauseOk.goto (hs : PauseOk s) (hp : p = .inside → s.reloadPause = false) (n : ℤ)
    (hn : n = countedThreads (Function.update s.thread i p)) :
    PauseOk { s.goto i p with inflightPackets := n } where
  inflight := hn
  pause := hs.pause
  excluded h j := by
    show Function.update s.thread i p j ≠ .inside
    by_cases hj : j = i
    · subst hj
      rw [Function.update_self]
      intro hin
      have hpause := hs.pause.mpr (by rw [show s.reloader = .rebuilding from h]; decide)
      rw [hp hin] at hpause
      cases hpause
    · rw [Function.update_of_ne hj]
      exact hs.excluded h j

theorem pauseOk_packetStep (hs : PauseOk s) (i : ι) : PauseOk (packetStep s i) := by
  have hin := hs.inflight
  have hupd := countedThreads_update s.thread i
  unfold packetStep
  cases hi : s.thread i with
  | waiting =>
    simp only
    split_ifs
    · exact hs
    · have h := hupd .entering
      rw [hi, if_neg (by decide), if_neg (by decide)] at h
      exact hs.goto (by simp) s.inflightPackets (by omega)
  | entering =>
    have h := hupd .counted
    rw [hi, if_neg (by decide), if_pos (by decide)] at h
    exact hs.goto (by simp) _ (by omega)
  | counted =>
    simp only
    split_ifs with hpause
    · have h := hupd .backingOff
      rw [hi, if_pos (by decide), if_pos (by decide)] at h
      exact hs.goto (by simp) s.inflightPackets (by omega)
    · have h := hupd .inside
      rw [hi, if_pos (by decide), if_pos (by decide)] at h
      exact hs.goto (fun _ => by simpa using hpause) s.inflightPackets (by omega)
  | backingOff | inside =>
    have h := hupd .waiting
    rw [hi, if_pos (by decide), if_neg (by decide)] at h
    exact hs.goto (by simp) _ (by omega)

omit [DecidableEq ι] in
/-- **Draining.** With the flag set and nobody in flight no thread is inside, and none gets in. -/
theorem pauseOk_reloaderStep (hs : PauseOk s) : PauseOk (reloaderStep s) := by
  unfold reloaderStep
  cases hr : s.reloader with
  | idle => exact ⟨hs.inflight, by simp, nofun⟩
  | draining =>
    simp only
    split_ifs with hpos
    · exact hs
    · have hpause := hs.pause.mpr (by rw [hr]; decide)
      have hzero : countedThreads s.thread = 0 := by
        have := hs.inflight
        omega
      exact ⟨hs.inflight, by simp [hpause], fun _ => countedThreads_eq_zero hzero⟩
  | rebuilding => exact ⟨hs.inflight, by simp, nofun⟩

theorem pauseOk_step {s' : PauseState ι} {a : PauseAction ι} (hs : PauseOk s)
    (h : pauseStep s a = some s') : PauseOk s' := by
  cases a with
  | packet i =>
    cases h
    exact pauseOk_packetStep hs i
  | reload =>
    cases h
    exact pauseOk_reloaderStep hs

end

/-- **Exclusion.** In every run of any number of packet threads and a reloader, no thread is inside
its critical section while the reloader rebuilds, and the counter is the number of threads between
their increment and their decrement. -/
theorem pause_excludes {as : List (PauseAction ι)} {t : PauseState ι}
    (hrun : Runs.run pauseStep (PauseState.start ι) as = some t) :
    (t.reloader = .rebuilding → ∀ i, t.thread i ≠ .inside) ∧
      t.inflightPackets = (Finset.univ.filter fun i => (t.thread i).Counts).card := by
  have ht : PauseOk t := Runs.invariant_run (fun _ _ _ => pauseOk_step) pauseOk_start hrun
  exact ⟨ht.excluded, ht.inflight⟩

end

/-- One thread is inside and leaves, another one counts itself in while the flag is set and backs
off; the reloader waits for both. -/
def drainRun : List (PauseAction (Fin 2)) :=
  [.packet 0, .packet 0, .packet 0, .packet 1, .reload, .packet 1, .reload, .packet 0, .packet 1,
    .reload, .packet 1, .reload]

theorem pause_excludes_drainRun :
    ∃ t, Runs.run pauseStep (PauseState.start (Fin 2)) drainRun = some t ∧
      t.reloader = .rebuilding ∧ (∀ i, t.thread i ≠ .inside) ∧ t.inflightPackets = 0 := by
  obtain ⟨t, ht, hr, hin⟩ : ∃ t, Runs.run pauseStep (PauseState.start (Fin 2)) drainRun = some t ∧
      t.reloader = .rebuilding ∧ t.inflightPackets = 0 := ⟨_, rfl, rfl, rfl⟩
  exact ⟨t, ht, hr, (pause_excludes ht).1 hr, hin⟩

end NetEncryptor

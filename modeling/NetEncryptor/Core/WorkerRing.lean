import NetEncryptor.Base.RingBuffer
import NetEncryptor.Base.Runs
import NetEncryptor.Core.WorkerJob

/-!
# The worker ring

Any number of threads of LAN queues queue the frames they receive for the one worker.  Every access
to the ring holds its lock and is one step; the release of a frame is another one, and so is every
effect of the worker's job.  The state also keeps what has happened so far; it numbers the frames,
and nothing else depends on it.

`workerRing_accounted` says where the frames are in every state that can be reached.
-/

namespace NetEncryptor

open RingBuffer

variable {ι : Type*}

def workerRingSize : ℕ := 4096

/-! ## Threads -/

structure RxDesc where
  addr : ℕ
  pkt : Packet
  pktLen : ℕ

def LocalThreads.job (S : LocalThreads ι) (p : ι) (number : ℕ) (d : RxDesc) : RingJob ι where
  thread := p
  number := number
  localIdx := S.ifaceIdx p
  queueIdx := S.queueIdx p
  addr := d.addr
  txQueueBase := S.txQueueBase p
  pkt := d.pkt
  pktLen := d.pktLen

/-- The jobs of a batch, the first of them for the frame with this number. -/
def LocalThreads.jobs (S : LocalThreads ι) (p : ι) : ℕ → List RxDesc → List (RingJob ι)
  | _, [] => []
  | number, d :: ds => S.job p number d :: S.jobs p (number + 1) ds

/-- A thread of a LAN queue, between two steps. -/
structure LocalThread (ι : Type*) where
  /-- The jobs of the batch that the ring has not been offered yet. -/
  batch : List (RingJob ι)
  /-- The job that the ring has refused, until its frame is given back. -/
  refused : Option (RingJob ι)

/-- The worker, between two steps. -/
inductive Worker (ι : Type*) where
  | idle
  | took (job : RingJob ι)
  /-- The frame, unless it is given back, and what is left to do for the job. -/
  | working (held : Option (RxBuffer ι)) (todo : List (JobEvent ι))

structure WorkerRingState (ι : Type*) where
  ring : Ring (RingJob ι) workerRingSize
  threads : ι → LocalThread ι
  worker : Worker ι
  received : ι → List (RxBuffer ι)
  queued : List (RingJob ι)
  taken : List (RingJob ι)
  dropped : List (RingJob ι)
  released : List (RxBuffer ι)

namespace WorkerRingState

/-- Head and tail are `0`, whatever the places hold. -/
def start (slots : ℕ → Option (RingJob ι)) : WorkerRingState ι where
  ring := .start (by unfold workerRingSize; omega) slots
  threads _ := ⟨[], none⟩
  worker := .idle
  received _ := []
  queued := []
  taken := []
  dropped := []
  released := []

theorem start_toList (slots : ℕ → Option (RingJob ι)) : (start slots).ring.toList = [] :=
  Ring.toList_start _ slots

/-! ## Steps -/

section

variable [DecidableEq ι] (S : LocalThreads ι) (E : Encryptors) (s : WorkerRingState ι)

def receive (p : ι) (ds : List RxDesc) : WorkerRingState ι :=
  let jobs := S.jobs p (s.received p).length ds
  { s with
    threads := Function.update s.threads p ⟨jobs, none⟩
    received := Function.update s.received p (s.received p ++ jobs.map RingJob.toRxBuffer) }

def enqueue (p : ι) (job : RingJob ι) (rest : List (RingJob ι))
    (ring : Ring (RingJob ι) workerRingSize) : WorkerRingState ι :=
  { s with
    ring := ring
    threads := Function.update s.threads p ⟨rest, none⟩
    queued := s.queued ++ [job] }

def refuse (p : ι) (job : RingJob ι) (rest : List (RingJob ι)) : WorkerRingState ι :=
  { s with
    threads := Function.update s.threads p ⟨rest, some job⟩
    dropped := s.dropped ++ [job] }

def giveBack (p : ι) (job : RingJob ι) (rest : List (RingJob ι)) : WorkerRingState ι :=
  { s with
    threads := Function.update s.threads p ⟨rest, none⟩
    released := s.released ++ releasedBy (interfaceRecvReleaseSingleQueue S job.toRxBuffer) }

def take (job : RingJob ι) (ring : Ring (RingJob ι) workerRingSize) : WorkerRingState ι :=
  { s with ring := ring, worker := .took job, taken := s.taken ++ [job] }

/-- The worker meets this while it has the job in hand. -/
def begin (job : RingJob ι) (x : JobInput) : WorkerRingState ι :=
  { s with worker := .working (some job.toRxBuffer) (workerJob S E job x) }

/-- The worker does the next thing for its job. -/
def work (held : Option (RxBuffer ι)) (e : JobEvent ι) (todo : List (JobEvent ι)) :
    WorkerRingState ι :=
  { s with
    worker := .working (if e.released? = held then none else held) todo
    released := s.released ++ e.released?.toList }

def finish : WorkerRingState ι := { s with worker := .idle }

end

end WorkerRingState

/-- One step of a thread of a LAN queue, or of the worker. -/
inductive RingAction (ι : Type*) where
  /-- `interface_recv_single_queue`. -/
  | receive (p : ι) (ds : List RxDesc)
  /-- The ring, locked, and the next job of the batch. -/
  | offer (p : ι)
  /-- `interface_recv_release_single_queue` for a refused frame. -/
  | giveBack (p : ι)
  /-- The ring, locked, and the worker. -/
  | take
  | begin (x : JobInput)
  | work

def ringStep [DecidableEq ι] (S : LocalThreads ι) (E : Encryptors) (s : WorkerRingState ι) :
    RingAction ι → Option (WorkerRingState ι)
  | .receive p ds =>
    match s.threads p with
    | ⟨[], none⟩ => some (s.receive S p ds)
    | _ => none
  | .offer p =>
    match s.threads p with
    | ⟨job :: rest, none⟩ =>
      match s.ring.push job with
      | some ring => some (s.enqueue p job rest ring)
      | none => some (s.refuse p job rest)
    | _ => none
  | .giveBack p =>
    match s.threads p with
    | ⟨rest, some job⟩ => some (s.giveBack S p job rest)
    | _ => none
  | .take =>
    match s.worker with
    | .idle =>
      match s.ring.pop with
      | some (job, ring) => some (s.take job ring)
      | none => some s
    | _ => none
  | .begin x =>
    match s.worker with
    | .took job => some (s.begin S E job x)
    | _ => none
  | .work =>
    match s.worker with
    | .working held (e :: todo) => some (s.work held e todo)
    | .working _ [] => some s.finish
    | _ => none

/-! ## What a step can do -/

section

variable [DecidableEq ι] {S : LocalThreads ι} {E : Encryptors} {s s' : WorkerRingState ι}
  {a : RingAction ι}

/-- The steps, and when they can happen. -/
inductive RingStep (S : LocalThreads ι) (E : Encryptors) (s : WorkerRingState ι) :
    RingAction ι → WorkerRingState ι → Prop
  | receive {p ds} (h : s.threads p = ⟨[], none⟩) : RingStep S E s (.receive p ds) (s.receive S p ds)
  | enqueue {p job rest ring} (h : s.threads p = ⟨job :: rest, none⟩)
      (hring : s.ring.push job = some ring) :
      RingStep S E s (.offer p) (s.enqueue p job rest ring)
  | refuse {p job rest} (h : s.threads p = ⟨job :: rest, none⟩) (hring : s.ring.push job = none) :
      RingStep S E s (.offer p) (s.refuse p job rest)
  | giveBack {p job rest} (h : s.threads p = ⟨rest, some job⟩) :
      RingStep S E s (.giveBack p) (s.giveBack S p job rest)
  | take {job ring} (h : s.worker = .idle) (hring : s.ring.pop = some (job, ring)) :
      RingStep S E s .take (s.take job ring)
  | yield (h : s.worker = .idle) (hring : s.ring.pop = none) : RingStep S E s .take s
  | begin {job x} (h : s.worker = .took job) : RingStep S E s (.begin x) (s.begin S E job x)
  | work {held e todo} (h : s.worker = .working held (e :: todo)) :
      RingStep S E s .work (s.work held e todo)
  | finish {held} (h : s.worker = .working held []) : RingStep S E s .work s.finish

theorem ringStep_cases (h : ringStep S E s a = some s') : RingStep S E s a s' := by
  cases a with
  | receive p ds =>
    simp only [ringStep] at h
    split at h
    · rename_i hp
      cases h
      exact .receive hp
    · cases h
  | offer p =>
    simp only [ringStep] at h
    split at h
    · rename_i hp
      split at h
      · rename_i hring
        cases h
        exact .enqueue hp hring
      · rename_i hring
        cases h
        exact .refuse hp hring
    · cases h
  | giveBack p =>
    simp only [ringStep] at h
    split at h
    · rename_i hp
      cases h
      exact .giveBack hp
    · cases h
  | take =>
    simp only [ringStep] at h
    split at h
    · rename_i hw
      split at h
      · rename_i hring
        cases h
        exact .take hw hring
      · rename_i hring
        cases h
        exact .yield hw hring
    · cases h
  | begin x =>
    simp only [ringStep] at h
    split at h
    · rename_i hw
      cases h
      exact .begin hw
    · cases h
  | work =>
    simp only [ringStep] at h
    split at h
    · rename_i hw
      cases h
      exact .work hw
    · rename_i hw
      cases h
      exact .finish hw
    · cases h

end

/-! ## The jobs of a thread -/

/-- The frames that a thread has in hand. -/
def LocalThread.frames (t : LocalThread ι) : List (RxBuffer ι) :=
  (t.batch ++ t.refused.toList).map RingJob.toRxBuffer

/-- The frame that the worker has in hand. -/
def Worker.frames : Worker ι → List (RxBuffer ι)
  | idle => []
  | took job => [job.toRxBuffer]
  | working held _ => held.toList

/-- The jobs are for frames that this thread received. -/
def LocalThread.Owns (S : LocalThreads ι) (p : ι) (t : LocalThread ι) : Prop :=
  ∀ job ∈ t.batch ++ t.refused.toList, job.thread = p ∧ job.FromThread S

section

variable {S : LocalThreads ι} {p : ι} {job : RingJob ι} {rest : List (RingJob ι)} {number : ℕ}

theorem LocalThreads.jobs_from : ∀ {ds : List RxDesc} {number : ℕ},
    ∀ job ∈ S.jobs p number ds, job.thread = p ∧ job.FromThread S := by
  intro ds
  induction ds with
  | nil => exact fun _ h => absurd h List.not_mem_nil
  | cons d ds ih =>
    intro number job hjob
    rcases List.mem_cons.mp hjob with rfl | hjob
    · exact ⟨rfl, rfl, rfl⟩
    · exact ih job hjob

theorem LocalThreads.jobs_number : ∀ {ds : List RxDesc} {number i : ℕ} {job : RingJob ι},
    (S.jobs p number ds)[i]? = some job → job.number = number + i := by
  intro ds
  induction ds with
  | nil => exact fun h => absurd h (by simp [LocalThreads.jobs])
  | cons d ds ih =>
    intro number i job h
    cases i with
    | zero =>
      obtain rfl := Option.some.inj h
      rfl
    | succ i =>
      have := ih h
      omega

theorem LocalThread.Owns.offered (h : LocalThread.Owns S p ⟨job :: rest, none⟩) :
    job.thread = p ∧ job.FromThread S := h job (by simp)

theorem LocalThread.Owns.enqueued (h : LocalThread.Owns S p ⟨job :: rest, none⟩) :
    LocalThread.Owns S p ⟨rest, none⟩ := fun j hj => h j (List.mem_cons_of_mem job hj)

theorem LocalThread.Owns.refused (h : LocalThread.Owns S p ⟨job :: rest, none⟩) :
    LocalThread.Owns S p ⟨rest, some job⟩ := fun j hj => h j (by simpa [or_comm] using hj)

theorem LocalThread.Owns.dropped (h : LocalThread.Owns S p ⟨rest, some job⟩) :
    job.thread = p ∧ job.FromThread S := h job (by simp)

theorem LocalThread.Owns.returned (h : LocalThread.Owns S p ⟨rest, some job⟩) :
    LocalThread.Owns S p ⟨rest, none⟩ := fun j hj =>
  h j (List.mem_append_left _ (by simpa using hj))

end

/-! ## The invariant -/

section

variable [DecidableEq ι] {S : LocalThreads ι} {E : Encryptors} {s s' : WorkerRingState ι}
  {a : RingAction ι} {b : RxBuffer ι} {p : ι}

/-- How often a frame is among some jobs. -/
def countJobs (b : RxBuffer ι) (jobs : List (RingJob ι)) : ℕ :=
  (jobs.map RingJob.toRxBuffer).count b

@[simp] theorem countJobs_nil : countJobs b [] = 0 := rfl

@[simp] theorem countJobs_append (jobs₁ jobs₂ : List (RingJob ι)) :
    countJobs b (jobs₁ ++ jobs₂) = countJobs b jobs₁ + countJobs b jobs₂ := by
  rw [countJobs, List.map_append, List.count_append]
  rfl

theorem countJobs_cons (job : RingJob ι) (jobs : List (RingJob ι)) :
    countJobs b (job :: jobs) = countJobs b [job] + countJobs b jobs :=
  countJobs_append [job] jobs

theorem countJobs_eq_zero {jobs : List (RingJob ι)} (h : ∀ job ∈ jobs, job.thread = p)
    (hb : b.thread ≠ p) : countJobs b jobs = 0 := by
  refine List.count_eq_zero.mpr fun hmem => ?_
  obtain ⟨job, hjob, rfl⟩ := List.mem_map.mp hmem
  exact hb (h job hjob)

/-- The frames are accounted for: a received frame waits to be offered, or was queued, or was
refused; a frame that was taken or refused is in hand, or was given back. -/
structure RingInv (S : LocalThreads ι) (s : WorkerRingState ι) : Prop where
  received : ∀ (p : ι) (i : ℕ) (b : RxBuffer ι),
    (s.received p)[i]? = some b → b.thread = p ∧ b.number = i
  owns : ∀ p, (s.threads p).Owns S p
  queued : ∀ job ∈ s.queued, job.FromThread S
  order : s.queued = s.taken ++ s.ring.toList
  took : ∀ b ∈ s.worker.frames, b ∈ s.taken.map RingJob.toRxBuffer
  working : ∀ held todo, s.worker = .working held todo → releasedBy todo = held.toList
  offered : ∀ b, countJobs b (s.threads b.thread).batch + countJobs b s.queued +
    countJobs b s.dropped = (s.received b.thread).count b
  settled : ∀ b, countJobs b (s.threads b.thread).refused.toList + s.worker.frames.count b +
    s.released.count b = countJobs b s.taken + countJobs b s.dropped

theorem ringInv_start (slots : ℕ → Option (RingJob ι)) :
    RingInv S (WorkerRingState.start slots) := by
  refine ⟨?_, ?_, ?_, ?_, ?_, ?_, ?_, ?_⟩
  · intro p i b h
    cases h
  · exact fun _ _ h => absurd h List.not_mem_nil
  · exact fun _ h => absurd h List.not_mem_nil
  · rw [WorkerRingState.start_toList]
    rfl
  · exact fun _ h => absurd h List.not_mem_nil
  · intro held todo h
    cases h
  · exact fun _ => rfl
  · exact fun _ => rfl

/-! ## Its preservation -/

theorem owns_update (h : RingInv S s) {t : LocalThread ι} (ht : t.Owns S p) :
    ∀ q, (Function.update s.threads p t q).Owns S q :=
  (Function.forall_update_iff s.threads fun q t => t.Owns S q).mpr ⟨ht, fun q _ => h.owns q⟩

theorem countJobs_update {f : LocalThread ι → List (RingJob ι)} {t : LocalThread ι}
    {out into : List (RingJob ι)} (hout : ∀ job ∈ out, job.thread = p)
    (hinto : ∀ job ∈ into, job.thread = p)
    (hf : countJobs b (f t) + countJobs b out = countJobs b (f (s.threads p)) + countJobs b into) :
    countJobs b (f (Function.update s.threads p t b.thread)) + countJobs b out =
      countJobs b (f (s.threads b.thread)) + countJobs b into := by
  by_cases hb : b.thread = p
  · rw [hb, Function.update_self, hf]
  · rw [Function.update_of_ne hb, countJobs_eq_zero hout hb, countJobs_eq_zero hinto hb]

theorem countJobs_update_same {f : LocalThread ι → List (RingJob ι)} {t : LocalThread ι}
    (hf : f t = f (s.threads p)) :
    countJobs b (f (Function.update s.threads p t b.thread)) =
      countJobs b (f (s.threads b.thread)) := by
  by_cases hb : b.thread = p
  · rw [hb, Function.update_self, hf]
  · rw [Function.update_of_ne hb]

theorem RingInv.receive {ds : List RxDesc} (h : RingInv S s) (hp : s.threads p = ⟨[], none⟩) :
    RingInv S (s.receive S p ds) := by
  have hfrom := @LocalThreads.jobs_from _ S p ds (s.received p).length
  have hthread : ∀ job ∈ S.jobs p (s.received p).length ds, job.thread = p := fun job hjob =>
    (hfrom job hjob).1
  refine ⟨?_, owns_update h ?_, h.queued, h.order, h.took, h.working, ?_, ?_⟩
  · intro q i b hb
    by_cases hq : q = p
    · subst hq
      change (Function.update s.received q _ q)[i]? = _ at hb
      rw [Function.update_self, List.getElem?_append] at hb
      split_ifs at hb with hi
      · exact h.received q i b hb
      · rw [List.getElem?_map] at hb
        obtain ⟨job, hjob, rfl⟩ := Option.map_eq_some_iff.mp hb
        have hnumber := LocalThreads.jobs_number hjob
        exact ⟨hthread job (List.mem_of_getElem? hjob), by omega⟩
    · change (Function.update s.received p _ q)[i]? = _ at hb
      rw [Function.update_of_ne hq] at hb
      exact h.received q i b hb
  · intro job hjob
    rw [Option.toList_none, List.append_nil] at hjob
    exact hfrom job hjob
  · intro b
    have hcount := h.offered b
    have hbatch := @countJobs_update _ _ s b p LocalThread.batch
      ⟨S.jobs p (s.received p).length ds, none⟩ [] _ nofun hthread (by rw [hp, Nat.add_comm])
    have hreceived : (Function.update s.received p (s.received p ++
        (S.jobs p (s.received p).length ds).map RingJob.toRxBuffer) b.thread).count b =
        (s.received b.thread).count b + countJobs b (S.jobs p (s.received p).length ds) := by
      by_cases hb : b.thread = p
      · rw [hb, Function.update_self, List.count_append]
        rfl
      · rw [Function.update_of_ne hb, countJobs_eq_zero hthread hb, Nat.add_zero]
    change countJobs b (Function.update s.threads p _ b.thread).batch + countJobs b s.queued +
      countJobs b s.dropped = List.count b (Function.update s.received p _ b.thread)
    rw [hreceived]
    rw [countJobs_nil] at hbatch
    omega
  · intro b
    have hrefused := @countJobs_update_same _ _ s b p (fun t => t.refused.toList)
      ⟨S.jobs p (s.received p).length ds, none⟩ (by rw [hp])
    exact (congrArg (· + _ + _) hrefused).trans (h.settled b)

theorem RingInv.enqueue {job : RingJob ι} {rest : List (RingJob ι)}
    {ring : Ring (RingJob ι) workerRingSize} (h : RingInv S s)
    (hp : s.threads p = ⟨job :: rest, none⟩) (hring : s.ring.push job = some ring) :
    RingInv S (s.enqueue p job rest ring) := by
  have howns := h.owns p
  rw [hp] at howns
  have hjob : ∀ j ∈ [job], j.thread = p := by simpa using howns.offered.1
  refine ⟨h.received, owns_update h howns.enqueued, ?_, ?_, h.took, h.working, ?_, ?_⟩
  · intro j hj
    rcases List.mem_append.mp hj with hj | hj
    · exact h.queued j hj
    · exact List.mem_singleton.mp hj ▸ howns.offered.2
  · change s.queued ++ [job] = s.taken ++ ring.toList
    rw [h.order, Ring.toList_push hring, List.append_assoc]
  · intro b
    have hcount := h.offered b
    have hbatch := @countJobs_update _ _ s b p LocalThread.batch ⟨rest, none⟩ [job] [] hjob nofun
      (by rw [hp, countJobs_cons job rest, Nat.add_comm]; rfl)
    change countJobs b (Function.update s.threads p _ b.thread).batch +
      countJobs b (s.queued ++ [job]) + countJobs b s.dropped = (s.received b.thread).count b
    rw [countJobs_append]
    rw [countJobs_nil] at hbatch
    omega
  · intro b
    have hrefused := @countJobs_update_same _ _ s b p (fun t => t.refused.toList) ⟨rest, none⟩
      (by rw [hp])
    exact (congrArg (· + _ + _) hrefused).trans (h.settled b)

theorem RingInv.refuse {job : RingJob ι} {rest : List (RingJob ι)} (h : RingInv S s)
    (hp : s.threads p = ⟨job :: rest, none⟩) : RingInv S (s.refuse p job rest) := by
  have howns := h.owns p
  rw [hp] at howns
  have hjob : ∀ j ∈ [job], j.thread = p := by simpa using howns.offered.1
  refine ⟨h.received, owns_update h howns.refused, h.queued, h.order, h.took, h.working, ?_, ?_⟩
  · intro b
    have hcount := h.offered b
    have hbatch := @countJobs_update _ _ s b p LocalThread.batch ⟨rest, some job⟩ [job] [] hjob
      nofun (by rw [hp, countJobs_cons job rest, Nat.add_comm]; rfl)
    change countJobs b (Function.update s.threads p _ b.thread).batch + countJobs b s.queued +
      countJobs b (s.dropped ++ [job]) = (s.received b.thread).count b
    rw [countJobs_append]
    rw [countJobs_nil] at hbatch
    omega
  · intro b
    have hcount := h.settled b
    have hrefused := @countJobs_update _ _ s b p (fun t => t.refused.toList) ⟨rest, some job⟩ []
      [job] nofun hjob (by rw [hp, Nat.add_comm]; rfl)
    change countJobs b (Function.update s.threads p _ b.thread).refused.toList +
      s.worker.frames.count b + s.released.count b = countJobs b s.taken +
        countJobs b (s.dropped ++ [job])
    rw [countJobs_append]
    rw [countJobs_nil] at hrefused
    omega

theorem RingInv.giveBack {job : RingJob ι} {rest : List (RingJob ι)} (h : RingInv S s)
    (hp : s.threads p = ⟨rest, some job⟩) : RingInv S (s.giveBack S p job rest) := by
  have howns := h.owns p
  rw [hp] at howns
  have hjob : ∀ j ∈ [job], j.thread = p := by simpa using howns.dropped.1
  refine ⟨h.received, owns_update h howns.returned, h.queued, h.order, h.took, h.working, ?_, ?_⟩
  · intro b
    have hbatch := @countJobs_update_same _ _ s b p LocalThread.batch ⟨rest, none⟩ (by rw [hp])
    exact (congrArg (· + _ + _) hbatch).trans (h.offered b)
  · intro b
    have hcount := h.settled b
    have hrefused := @countJobs_update _ _ s b p (fun t => t.refused.toList) ⟨rest, none⟩ [job]
      [] hjob nofun (by rw [hp, Nat.add_comm]; rfl)
    change countJobs b (Function.update s.threads p _ b.thread).refused.toList +
      s.worker.frames.count b +
        (s.released ++ releasedBy (interfaceRecvReleaseSingleQueue S job.toRxBuffer)).count b =
      countJobs b s.taken + countJobs b s.dropped
    rw [interfaceRecvReleaseSingleQueue_eq howns.dropped.2, List.count_append]
    rw [countJobs_nil] at hrefused
    change _ + _ + (_ + countJobs b [job]) = _
    omega

theorem RingInv.take {job : RingJob ι} {ring : Ring (RingJob ι) workerRingSize} (h : RingInv S s)
    (hw : s.worker = .idle) (hring : s.ring.pop = some (job, ring)) :
    RingInv S (s.take job ring) := by
  refine ⟨h.received, h.owns, h.queued, ?_, ?_, nofun, h.offered, ?_⟩
  · change s.queued = s.taken ++ [job] ++ ring.toList
    rw [h.order, Ring.toList_pop hring, List.append_assoc, List.singleton_append]
  · intro b hb
    obtain rfl := List.mem_singleton.mp hb
    exact List.mem_map_of_mem (List.mem_append_right _ (List.mem_singleton_self _))
  · intro b
    have hcount := h.settled b
    rw [hw] at hcount
    change countJobs b (s.threads b.thread).refused.toList + countJobs b [job] +
      s.released.count b = countJobs b (s.taken ++ [job]) + countJobs b s.dropped
    rw [countJobs_append]
    change _ + 0 + _ = _ at hcount
    omega

theorem RingInv.fromThread (h : RingInv S s) (hb : b ∈ s.worker.frames) : b.FromThread S := by
  obtain ⟨job, hjob, rfl⟩ := List.mem_map.mp (h.took b hb)
  exact h.queued job (h.order ▸ List.mem_append_left _ hjob)

theorem RingInv.begin {job : RingJob ι} {x : JobInput} (h : RingInv S s)
    (hw : s.worker = .took job) : RingInv S (s.begin S E job x) := by
  have hjob : job.FromThread S := h.fromThread (by rw [hw]; exact List.mem_singleton_self _)
  have htook := h.took
  have hsettled := h.settled
  rw [hw] at htook hsettled
  refine ⟨h.received, h.owns, h.queued, h.order, htook, ?_, h.offered, hsettled⟩
  intro held todo heq
  cases heq
  exact releasedBy_workerJob hjob

theorem releasedBy_cons {held : Option (RxBuffer ι)} {e : JobEvent ι} {todo : List (JobEvent ι)}
    (h : releasedBy (e :: todo) = held.toList) :
    releasedBy todo = (if e.released? = held then none else held).toList ∧
      e.released?.toList ++ (if e.released? = held then none else held).toList = held.toList := by
  cases he : e.released? with
  | none =>
    rw [releasedBy, List.filterMap_cons_none he] at h
    cases held with
    | none => exact ⟨h, rfl⟩
    | some b => exact ⟨h, rfl⟩
  | some b =>
    rw [releasedBy, List.filterMap_cons_some he] at h
    cases held with
    | none => cases h
    | some b' =>
      obtain ⟨rfl, hnil⟩ := List.cons.inj h
      rw [if_pos rfl]
      exact ⟨hnil, rfl⟩

theorem RingInv.work {held : Option (RxBuffer ι)} {e : JobEvent ι} {todo : List (JobEvent ι)}
    (h : RingInv S s) (hw : s.worker = .working held (e :: todo)) :
    RingInv S (s.work held e todo) := by
  obtain ⟨htodo, hheld⟩ := releasedBy_cons (h.working held _ hw)
  refine ⟨h.received, h.owns, h.queued, h.order, ?_, ?_, h.offered, ?_⟩
  · intro b hb
    refine h.took b ?_
    rw [hw]
    change b ∈ held.toList
    exact hheld ▸ List.mem_append_right _ hb
  · intro held' todo' heq
    cases heq
    exact htodo
  · intro b
    have hcount := h.settled b
    rw [hw] at hcount
    change _ + held.toList.count b + _ = _ at hcount
    rw [← hheld, List.count_append] at hcount
    change countJobs b (s.threads b.thread).refused.toList +
      (if e.released? = held then none else held).toList.count b +
        (s.released ++ e.released?.toList).count b = countJobs b s.taken + countJobs b s.dropped
    rw [List.count_append]
    omega

theorem RingInv.finish {held : Option (RxBuffer ι)} (h : RingInv S s)
    (hw : s.worker = .working held []) : RingInv S s.finish := by
  have hheld : held.toList = [] := (h.working held [] hw).symm
  refine ⟨h.received, h.owns, h.queued, h.order, nofun, nofun, h.offered, ?_⟩
  intro b
  have hcount := h.settled b
  rw [hw] at hcount
  change _ + held.toList.count b + _ = _ at hcount
  rwa [hheld] at hcount

/-- **Every step** keeps the frames accounted for. -/
theorem ringInv_step (h : RingInv S s) (hstep : ringStep S E s a = some s') : RingInv S s' := by
  cases ringStep_cases hstep with
  | receive hp => exact h.receive hp
  | enqueue hp hring => exact h.enqueue hp hring
  | refuse hp hring => exact h.refuse hp
  | giveBack hp => exact h.giveBack hp
  | take hw hring => exact h.take hw hring
  | yield hw hring => exact h
  | begin hw => exact h.begin hw
  | work hw => exact h.work hw
  | finish hw => exact h.finish hw

theorem ringInv_run {slots : ℕ → Option (RingJob ι)} {as : List (RingAction ι)}
    (hrun : Runs.run (ringStep S E) (.start slots) as = some s) : RingInv S s :=
  Runs.invariant_run (fun _ _ _ => ringInv_step) (ringInv_start slots) hrun

/-! ## Where the frames are -/

theorem mem_toRxBuffer_iff {jobs : List (RingJob ι)} :
    b ∈ jobs.map RingJob.toRxBuffer ↔ 0 < countJobs b jobs := List.count_pos_iff.symm

theorem RingInv.total (h : RingInv S s) (b : RxBuffer ι) :
    countJobs b s.ring.toList +
      ((s.threads b.thread).frames.count b + s.worker.frames.count b) + s.released.count b =
      (s.received b.thread).count b := by
  have hoffered := h.offered b
  have hsettled := h.settled b
  have hqueued : countJobs b s.queued = countJobs b s.taken + countJobs b s.ring.toList := by
    rw [h.order, countJobs_append]
  have hframes : (s.threads b.thread).frames.count b =
      countJobs b (s.threads b.thread).batch + countJobs b (s.threads b.thread).refused.toList :=
    countJobs_append ..
  omega

theorem RingInv.received_nodup (h : RingInv S s) (p : ι) : (s.received p).Nodup := by
  refine List.nodup_iff_getElem?_ne_getElem?.mpr fun i j hij hj heq => ?_
  obtain ⟨b, hb⟩ : ∃ b, (s.received p)[j]? = some b := ⟨_, List.getElem?_eq_getElem hj⟩
  have hi := (h.received p i b (heq.trans hb)).2
  have hj := (h.received p j b hb).2
  omega

theorem RingInv.received_count_le (h : RingInv S s) (b : RxBuffer ι) :
    (s.received b.thread).count b ≤ 1 :=
  List.nodup_iff_count_le_one.mp (h.received_nodup b.thread) b

end

/-- Where a frame can be. -/
inductive FramePlace where
  | queued
  | processed
  | released

/-- The frame is in the ring, a thread has it in hand, or it is given back. -/
def WorkerRingState.At (s : WorkerRingState ι) (b : RxBuffer ι) : FramePlace → Prop
  | .queued => b ∈ s.ring.toList.map RingJob.toRxBuffer
  | .processed => (∃ p, b ∈ (s.threads p).frames) ∨ b ∈ s.worker.frames
  | .released => b ∈ s.released

/-- The thread of a LAN queue whose step this is. -/
def RingAction.thread? : RingAction ι → Option ι
  | receive p _ | offer p | giveBack p => some p
  | take | begin _ | work => none

section

variable [DecidableEq ι] {S : LocalThreads ι} {E : Encryptors} {s s' : WorkerRingState ι}
  {a : RingAction ι} {b : RxBuffer ι} {p : ι}

theorem RingInv.at_iff (h : RingInv S s) :
    (s.At b .queued ↔ 0 < countJobs b s.ring.toList) ∧
      (s.At b .processed ↔
        0 < (s.threads b.thread).frames.count b + s.worker.frames.count b) ∧
      (s.At b .released ↔ 0 < s.released.count b) := by
  refine ⟨mem_toRxBuffer_iff, ?_, List.count_pos_iff.symm⟩
  have hthread : (∃ p, b ∈ (s.threads p).frames) ↔ b ∈ (s.threads b.thread).frames := by
    refine ⟨fun ⟨p, hb⟩ => ?_, fun hb => ⟨_, hb⟩⟩
    obtain ⟨job, hjob, rfl⟩ := List.mem_map.mp hb
    exact (h.owns p job hjob).1 ▸ hb
  rw [WorkerRingState.At, hthread, Nat.add_pos_iff_pos_or_pos, List.count_pos_iff,
    List.count_pos_iff]

/-- **A received frame** is in exactly one place. -/
theorem RingInv.existsUnique_place (h : RingInv S s) (hb : b ∈ s.received b.thread) :
    ∃! place, s.At b place := by
  have htotal := h.total b
  rw [List.count_eq_one_of_mem (h.received_nodup b.thread) hb] at htotal
  obtain ⟨hqueued, hprocessed, hreleased⟩ := @RingInv.at_iff _ _ S s b h
  have hwhere : 0 < countJobs b s.ring.toList ∨
      0 < (s.threads b.thread).frames.count b + s.worker.frames.count b ∨
      0 < s.released.count b := by omega
  rcases hwhere with hpos | hpos | hpos
  · refine ⟨.queued, hqueued.mpr hpos, fun place hplace => ?_⟩
    cases place with
    | queued => rfl
    | processed => exact absurd (hprocessed.mp hplace) (by omega)
    | released => exact absurd (hreleased.mp hplace) (by omega)
  · refine ⟨.processed, hprocessed.mpr hpos, fun place hplace => ?_⟩
    cases place with
    | queued => exact absurd (hqueued.mp hplace) (by omega)
    | processed => rfl
    | released => exact absurd (hreleased.mp hplace) (by omega)
  · refine ⟨.released, hreleased.mpr hpos, fun place hplace => ?_⟩
    cases place with
    | queued => exact absurd (hqueued.mp hplace) (by omega)
    | processed => exact absurd (hprocessed.mp hplace) (by omega)
    | released => rfl

theorem RingInv.received_of_at (h : RingInv S s) {place : FramePlace} (hb : s.At b place) :
    b ∈ s.received b.thread := by
  have htotal := h.total b
  obtain ⟨hqueued, hprocessed, hreleased⟩ := @RingInv.at_iff _ _ S s b h
  refine List.count_pos_iff.mp ?_
  cases place with
  | queued =>
    have := hqueued.mp hb
    omega
  | processed =>
    have := hprocessed.mp hb
    omega
  | released =>
    have := hreleased.mp hb
    omega

/-- **A frame is given back once.** -/
theorem RingInv.released_nodup (h : RingInv S s) : s.released.Nodup := by
  refine List.nodup_iff_count_le_one.mpr fun b => ?_
  have htotal := h.total b
  have hle := h.received_count_le b
  omega

/-- **A refused frame** is never queued, and given back unless its thread is about to. -/
theorem RingInv.dropped (h : RingInv S s) {job : RingJob ι} (hjob : job ∈ s.dropped) :
    job.toRxBuffer ∉ s.queued.map RingJob.toRxBuffer ∧
      (job.toRxBuffer ∈ s.released ∨
        (s.threads job.thread).refused.map RingJob.toRxBuffer = some job.toRxBuffer) := by
  have hpos : 0 < countJobs job.toRxBuffer s.dropped :=
    mem_toRxBuffer_iff.mp (List.mem_map.mpr ⟨job, hjob, rfl⟩)
  have hoffered := h.offered job.toRxBuffer
  have hsettled := h.settled job.toRxBuffer
  have hle := h.received_count_le job.toRxBuffer
  have hnot : job.toRxBuffer ∉ s.queued.map RingJob.toRxBuffer := by
    intro hmem
    have := mem_toRxBuffer_iff.mp hmem
    omega
  refine ⟨hnot, ?_⟩
  have hworker : s.worker.frames.count job.toRxBuffer = 0 := by
    refine List.count_eq_zero.mpr fun hmem => hnot ?_
    rw [h.order, List.map_append]
    exact List.mem_append_left _ (h.took _ hmem)
  by_cases hreleased : job.toRxBuffer ∈ s.released
  · exact .inl hreleased
  · right
    rw [hworker, List.count_eq_zero.mpr hreleased] at hsettled
    have hrefused : 0 < countJobs job.toRxBuffer (s.threads job.thread).refused.toList := by omega
    obtain ⟨j, hj, heq⟩ := List.mem_map.mp (mem_toRxBuffer_iff.mpr hrefused)
    rw [Option.mem_toList.mp hj, Option.map_some, heq]

/-! ## The accounting -/

/-- The frames, the ring and the jobs of a state, and what its next step can do to them. -/
structure RingAccounted (S : LocalThreads ι) (E : Encryptors) (s : WorkerRingState ι) : Prop where
  /-- The frames that a thread has received are told apart by their numbers. -/
  numbered : ∀ (p : ι) (i : ℕ) (b : RxBuffer ι),
    (s.received p)[i]? = some b → b.thread = p ∧ b.number = i
  /-- Each of them is queued, or processed, or released. -/
  place : ∀ p, ∀ b ∈ s.received p, ∃! place, s.At b place
  /-- No other frame is. -/
  received : ∀ b place, s.At b place → b ∈ s.received b.thread
  /-- A frame is released at most once. -/
  once : s.released.Nodup
  /-- Jobs are taken in the order in which they were queued. -/
  order : s.queued = s.taken ++ s.ring.toList
  /-- The worker takes the first queued job, if there is one. -/
  take : ∀ s', ringStep S E s .take = some s' → (s.ring.toList = [] ∧ s' = s) ∨
    ∃ job, s.ring.toList.head? = some job ∧ s'.taken = s.taken ++ [job]
  bound : s.ring.toList.length ≤ 4095
  /-- The next step does not write to the place of a queued job. -/
  kept : ∀ a s', ringStep S E s a = some s' → ∀ (i : ℕ) (job : RingJob ι),
    s.ring.toList[i]? = some job →
      s.ring.slots (s.ring.place i) = some job ∧ s'.ring.slots (s.ring.place i) = some job
  /-- A job that is offered is queued, unless the ring is full. -/
  offer : ∀ p s', ringStep S E s (.offer p) = some s' → ∃ job,
    if s.ring.toList.length = 4095 then
      (s'.threads p).refused = some job ∧ s'.dropped = s.dropped ++ [job] ∧ s'.queued = s.queued
    else s'.queued = s.queued ++ [job] ∧ s'.dropped = s.dropped
  /-- A refused frame is never queued, and it is released unless that is the thread's next step. -/
  dropped : ∀ job ∈ s.dropped, job.toRxBuffer ∉ s.queued.map RingJob.toRxBuffer ∧
    (job.toRxBuffer ∈ s.released ∨
      (s.threads job.thread).refused.map RingJob.toRxBuffer = some job.toRxBuffer)
  /-- The next step of a thread with a refused frame releases it. -/
  returned : ∀ p job, (s.threads p).refused = some job →
    (∃ s', ringStep S E s (.giveBack p) = some s' ∧
      s'.released = s.released ++ [job.toRxBuffer]) ∧
    ∀ a s', a.thread? = some p → ringStep S E s a = some s' → a = .giveBack p
  /-- Whatever a job meets, its exit releases its frame once. -/
  exits : ∀ job, s.worker = .took job → ∀ x, releasedBy (workerJob S E job x) = [job.toRxBuffer]

theorem ringStep_take (hstep : ringStep S E s .take = some s') : (s.ring.toList = [] ∧ s' = s) ∨
    ∃ job, s.ring.toList.head? = some job ∧ s'.taken = s.taken ++ [job] := by
  cases ringStep_cases hstep with
  | @take job ring hw hring =>
    refine .inr ⟨job, ?_, rfl⟩
    rw [Ring.toList_pop hring, List.head?_cons]
  | yield hw hring => exact .inl ⟨Ring.pop_eq_none_iff.mp hring, rfl⟩

theorem ringStep_kept (hstep : ringStep S E s a = some s') {i : ℕ} {job : RingJob ι}
    (hjob : s.ring.toList[i]? = some job) : s'.ring.slots (s.ring.place i) = some job := by
  have hplace := Ring.slots_place hjob
  cases ringStep_cases hstep with
  | enqueue hp hring =>
    exact (Ring.slots_push hring (List.getElem?_eq_some_iff.mp hjob).1).trans hplace
  | take hw hring => exact (congrFun (Ring.slots_pop hring) _).trans hplace
  | receive | refuse | giveBack | yield | begin | work | finish => exact hplace

theorem ringStep_offer (hstep : ringStep S E s (.offer p) = some s') : ∃ job,
    if s.ring.toList.length = 4095 then
      (s'.threads p).refused = some job ∧ s'.dropped = s.dropped ++ [job] ∧ s'.queued = s.queued
    else s'.queued = s.queued ++ [job] ∧ s'.dropped = s.dropped := by
  have hfull {job : RingJob ι} : s.ring.push job = none ↔ s.ring.toList.length = 4095 := by
    rw [Ring.push_eq_none_iff]
    unfold workerRingSize
    omega
  cases ringStep_cases hstep with
  | @enqueue _ job rest ring hp hring =>
    refine ⟨job, ?_⟩
    rw [if_neg fun h => by simp [hfull.mpr h] at hring]
    exact ⟨rfl, rfl⟩
  | @refuse _ job rest hp hring =>
    refine ⟨job, ?_⟩
    rw [if_pos (hfull.mp hring)]
    refine ⟨?_, rfl, rfl⟩
    change (Function.update s.threads p _ p).refused = _
    rw [Function.update_self]

theorem RingInv.returned (h : RingInv S s) {job : RingJob ι}
    (hp : (s.threads p).refused = some job) :
    (∃ s', ringStep S E s (.giveBack p) = some s' ∧
      s'.released = s.released ++ [job.toRxBuffer]) ∧
    ∀ a s', a.thread? = some p → ringStep S E s a = some s' → a = .giveBack p := by
  obtain ⟨rest, ht⟩ : ∃ rest, s.threads p = ⟨rest, some job⟩ :=
    ⟨(s.threads p).batch, by rw [← hp]⟩
  have hfrom := (ht ▸ h.owns p).dropped.2
  refine ⟨⟨s.giveBack S p job rest, ?_, ?_⟩, ?_⟩
  · simp only [ringStep, ht]
  · rw [WorkerRingState.giveBack, interfaceRecvReleaseSingleQueue_eq hfrom]
    rfl
  · intro a s' ha hstep
    cases ringStep_cases hstep with
    | @receive q ds hq =>
      obtain rfl : q = p := Option.some.inj ha
      cases ht.symm.trans hq
    | @enqueue q _ _ _ hq =>
      obtain rfl : q = p := Option.some.inj ha
      cases ht.symm.trans hq
    | @refuse q _ _ hq =>
      obtain rfl : q = p := Option.some.inj ha
      cases ht.symm.trans hq
    | @giveBack q _ _ hq =>
      obtain rfl : q = p := Option.some.inj ha
      rfl
    | take | yield | begin | work | finish => cases ha

/-- **The worker ring.** After every interleaving of the steps of the threads and the worker, all
received frames are accounted for. -/
theorem workerRing_accounted (S : LocalThreads ι) (E : Encryptors)
    (slots : ℕ → Option (RingJob ι)) (as : List (RingAction ι)) (s : WorkerRingState ι)
    (hrun : Runs.run (ringStep S E) (.start slots) as = some s) : RingAccounted S E s := by
  have hinv : RingInv S s := ringInv_run hrun
  refine ⟨hinv.received, ?_, fun _ _ => hinv.received_of_at, hinv.released_nodup, hinv.order,
    fun _ => ringStep_take, ?_, ?_, fun _ _ => ringStep_offer, fun _ => hinv.dropped,
    fun _ _ => hinv.returned, ?_⟩
  · intro p b hb
    obtain ⟨i, hi⟩ := List.mem_iff_getElem?.mp hb
    obtain ⟨rfl, -⟩ := hinv.received p i b hi
    exact hinv.existsUnique_place hb
  · exact Nat.le_of_lt_succ Ring.length_toList_lt
  · exact fun _ _ hstep _ _ hjob => ⟨Ring.slots_place hjob, ringStep_kept hstep hjob⟩
  · intro job hw x
    exact releasedBy_workerJob (hinv.fromThread (by rw [hw]; exact List.mem_singleton_self _))

end

/-! ## Two threads and a frame each -/

/-- One LAN interface with two queues. -/
def twoQueues : LocalThreads Bool where
  localCount := 1
  localQueueCount _ := 2
  wanQueueCount _ := 1
  ifaceIdx _ := 0
  queueIdx := Bool.toNat
  txQueueBase p := p.toNat
  ifaceIdx_lt _ := Nat.one_pos
  queueIdx_lt p := by cases p <;> decide

/-- The worker finds no encryption. -/
def plainInput : JobInput where
  fwd := { sampleForwarder Key.zero with cryptoEnabled := false }
  wanIdx := 0
  now := 1
  sent := true
  sent₂ := true

/-- Both threads receive a frame; the second one queues its frame first, and the worker sends it,
flushes the queue and gives the frame back. -/
def twoFrames : List (RingAction Bool) :=
  [.receive false [⟨4096, ackFrame, 54⟩], .receive true [⟨8192, ackFrame, 54⟩], .offer true, .take,
    .offer false, .begin plainInput, .work, .work, .work, .work]

theorem workerRing_accounted_twoFrames :
    ∃ s, Runs.run (ringStep twoQueues .failing) (.start fun _ => none) twoFrames = some s ∧
      s.released.map RxBuffer.addr = [8192] ∧ s.ring.toList.map (·.addr) = [4096] ∧
      RingAccounted twoQueues .failing s :=
  ⟨_, rfl, rfl, rfl, workerRing_accounted twoQueues .failing (fun _ => none) twoFrames _ rfl⟩

end NetEncryptor

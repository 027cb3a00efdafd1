import NetEncryptor.Base.CStrings
import NetEncryptor.Base.Notified
import NetEncryptor.Core.ActiveProfiles

/-!
# Commands and notifications

`main` with a profile id is a command: it sends the id as text over the notification channel of the
database and returns.  `main` without arguments is the daemon: it takes one notification after the
other and asks the database whether the profile is there.  Other programs may write to the channel as
well, `ne_profiles` may change at any time, and a connection that breaks loses what is on the way.

`mem_activeIds_iff` says which ids are active after a run.  `announced_profiles` compares them with
the database: a profile whose last change was announced over a connection that held is active, and
used by the forwarder, exactly if it is there.

One daemon listens.  Signals, and the end of `main` after them, are left out.
-/

namespace NetEncryptor

open CStrings

def intMax : ℤ := 2147483647

/-! ## The arguments -/

/-- `parse_profile_id_token`; `none` stands for `-1`. -/
def parseProfileIdToken (token : Str) : Option ℤ :=
  if token = [] then none
  else if (strtol token).2 ≠ [] ∨ (strtol token).1 ≤ 0 ∨ intMax < (strtol token).1 then none
  else some (strtol token).1

/-- The loop of `parse_startup_profile_id` over the arguments that are left; `outId` is `-1` until an
id is found. -/
def parseStartupArgs (outId : ℤ) : List Str → Option ℤ
  | [] => some outId
  | arg :: rest =>
    if arg = "-id".toList ∨ arg = "--id".toList then
      if 0 ≤ outId then none
      else
        match rest with
        | [] => none
        | token :: rest =>
          match parseProfileIdToken token with
          | none => none
          | some id => parseStartupArgs id rest
    else if arg.take 4 = "-id=".toList ∨ arg.take 5 = "--id=".toList then
      if 0 ≤ outId then none
      else
        let idStr := if arg[1]? = some '-' then (arg.dropWhile (· ≠ '=')).drop 1 else arg.drop 4
        match parseProfileIdToken idStr with
        | none => none
        | some id => parseStartupArgs id rest
    else none

/-- `parse_startup_profile_id`; `none` stands for `-1`. -/
def parseStartupProfileId (args : List Str) : Option ℤ := parseStartupArgs (-1) args

inductive MainMode
  | usage
  | version
  /-- It returns `1` at once. -/
  | failed
  | notify (profileId : ℤ)
  | daemon
  deriving DecidableEq

def mainMode (args : List Str) : MainMode :=
  if args = ["-h".toList] ∨ args = ["--help".toList] then .usage
  else if args = ["--version".toList] then .version
  else
    match parseStartupProfileId args with
    | none => .failed
    | some profileId =>
      if 0 ≤ profileId then .notify profileId else if args ≠ [] then .failed else .daemon

section

variable {token : Str} {args : List Str} {outId id : ℤ}

theorem parseProfileIdToken_eq_some (h : parseProfileIdToken token = some id) :
    0 < id ∧ id ≤ intMax := by
  unfold parseProfileIdToken at h
  split_ifs at h with _ hbad
  cases h
  push Not at hbad
  exact ⟨hbad.2.1, hbad.2.2⟩

/-- **The id of the arguments** is a profile id, unless there are no arguments. -/
theorem parseStartupArgs_eq_some (h : parseStartupArgs outId args = some id) :
    args = [] ∧ id = outId ∨ 0 < id ∧ id ≤ intMax := by
  fun_induction parseStartupArgs outId args with
  | case1 outId =>
    cases h
    exact .inl ⟨rfl, rfl⟩
  | case5 outId arg _ _ token rest id' htoken ih | case8 outId arg rest _ _ _ _ id' htoken ih =>
    obtain ⟨hpos, hmax⟩ := parseProfileIdToken_eq_some htoken
    rcases ih h with ⟨-, rfl⟩ | hid
    · exact .inr ⟨hpos, hmax⟩
    · exact .inr hid
  | case2 | case3 | case4 | case6 | case7 | case9 => cases h

theorem mainMode_eq_daemon_iff : mainMode args = .daemon ↔ args = [] := by
  constructor
  · intro h
    cases hparse : parseStartupProfileId args with
    | none =>
      simp only [mainMode, hparse] at h
      split_ifs at h
    | some profileId =>
      simp only [mainMode, hparse] at h
      split_ifs at h with _ _ _ hne
      exact not_not.mp hne
  · rintro rfl
    rfl

/-- **A command** sends an id that the daemon takes. -/
theorem mainMode_eq_notify (h : mainMode args = .notify id) : 0 < id ∧ id ≤ intMax := by
  cases hparse : parseStartupProfileId args with
  | none =>
    simp only [mainMode, hparse] at h
    split_ifs at h
  | some profileId =>
    simp only [mainMode, hparse] at h
    split_ifs at h with _ _ hid
    cases h
    rcases parseStartupArgs_eq_some hparse with ⟨-, rfl⟩ | hid'
    · exact absurd hid (by decide)
    · exact hid'

end

/-! ## The payload -/

def parseNotifyProfileId (payload : Str) : ℤ :=
  if payload = [] then -1
  else if (strtol payload).2 ≠ [] ∨ (strtol payload).1 ≤ 0 ∨ intMax < (strtol payload).1 then -1
  else (strtol payload).1

/-- The id for which a payload is not ignored. -/
def notifiedId (payload : Str) : Option ℤ :=
  if parseNotifyProfileId payload ≤ 0 then none else some (parseNotifyProfileId payload)

/-- **Round trip.** The daemon reads the id that a command has sent. -/
theorem notifiedId_intText {id : ℤ} (hpos : 0 < id) (hmax : id ≤ intMax) :
    notifiedId (intText id) = some id := by
  have hne : intText id ≠ [] := by
    rw [intText, if_neg (by omega)]
    exact Nat.toDigits_ne_nil
  have hparse : parseNotifyProfileId (intText id) = id := by
    rw [parseNotifyProfileId, if_neg hne, strtol_intText, if_neg]
    rintro (h | h | h)
    · exact h rfl
    · omega
    · omega
  rw [notifiedId, hparse, if_neg (by omega)]

theorem mainMode_id {id : ℤ} (hpos : 0 < id) (hmax : id ≤ intMax) :
    mainMode ["-id".toList, intText id] = .notify id := by
  have htoken : parseProfileIdToken (intText id) = some id := by
    rw [parseProfileIdToken, if_neg, strtol_intText, if_neg]
    · rintro (h | h | h)
      · exact h rfl
      · omega
      · omega
    · rw [intText, if_neg (by omega)]
      exact Nat.toDigits_ne_nil
  have hparse : parseStartupProfileId ["-id".toList, intText id] = some id := by
    rw [parseStartupProfileId, parseStartupArgs, if_pos (.inl rfl), if_neg (by decide)]
    simp only [htoken, parseStartupArgs]
  rw [mainMode, if_neg (by simp), if_neg (by simp), hparse]
  exact if_pos hpos.le

/-! ## The database, its channel and the daemon -/

structure World where
  runtime : RuntimeState
  /-- Whether `ne_profiles` has a row of the id. -/
  stored : ℤ → Bool
  /-- The payloads that the daemon has not taken yet. -/
  channel : List Str
  /-- The daemon's connection stands, and `LISTEN` has been executed. -/
  listening : Bool

/-- `main` enters its loop. -/
def World.start (stored : ℤ → Bool) : World := ⟨RuntimeState.start, stored, [], true⟩

inductive WorldAction
  /-- A row of `ne_profiles` comes or goes. -/
  | store (profileId : ℤ) (present : Bool)
  /-- `main` with arguments.  `sent`: `load_ne_env` and the query of `notify_profile_load` succeed. -/
  | command (args : List Str) (sent : Bool)
  /-- Another program writes to the channel. -/
  | send (payload : Str)
  /-- The daemon's connection breaks.  What it has not read by then is lost. -/
  | lose (kept : ℕ)
  /-- `PQreset`, and `LISTEN`. -/
  | listen
  /-- `PQnotifies` returns a notification.  `reachable`: the connection and the query of
  `ne_profile_id_exists` succeed. -/
  | handle (reachable : Bool) (db : ProfileDb) (created : Bool)
  /-- The forwarder goes on, or has been waited for. -/
  | runtime (a : RuntimeAction)

namespace World

/-- `ne_profile_id_exists`.  A database that cannot be reached looks like one without the profile. -/
def neProfileIdExists (w : World) (reachable : Bool) (profileId : ℤ) : ℤ :=
  if reachable && w.stored profileId then 0 else -1

/-- What `pg_notify` is called with. -/
def payload? : WorldAction → Option Str
  | .command args sent =>
    match mainMode args with
    | .notify profileId => if sent then some (intText profileId) else none
    | _ => none
  | .send payload => some payload
  | _ => none

/-- A notification goes to who listens. -/
def pgNotify (w : World) (payload : Str) : World :=
  if w.listening then { w with channel := w.channel ++ [payload] } else w

/-- The call of `handle_profile_notify`. -/
def notice (w : World) (profileId : ℤ) (reachable : Bool) (db : ProfileDb) (created : Bool) :
    ProfileNotify :=
  ⟨profileId, w.neProfileIdExists reachable profileId = 0, db, created⟩

def step (w : World) : WorldAction → Option World
  | .store profileId present =>
    some { w with stored := Function.update w.stored profileId present }
  | .command args sent =>
    if mainMode args = .daemon then none
    else
      match payload? (.command args sent) with
      | none => some w
      | some payload => some (w.pgNotify payload)
  | .send payload => some (w.pgNotify payload)
  | .lose kept => some { w with channel := w.channel.take kept, listening := false }
  | .listen =>
    -- it has taken everything that it had read
    if w.channel = [] then some { w with listening := true } else none
  | .handle reachable db created =>
    if w.runtime.joining then none
    else
      match w.channel with
      | [] => none
      | payload :: rest =>
        match notifiedId payload with
        | none => some { w with channel := rest }
        | some profileId =>
          some { w with
            runtime := (w.runtime.handleProfileNotify
              (w.notice profileId reachable db created)).2
            channel := rest }
  | .runtime a =>
    match a with
    | .notify _ => none
    | a => (runtimeStep w.runtime a).map fun runtime => { w with runtime := runtime }

/-- What the daemon's runtime does in a step. -/
def runtimeAction? (w : World) : WorldAction → Option RuntimeAction
  | .handle reachable db created =>
    (w.channel.head?.bind notifiedId).map fun profileId =>
      .notify (w.notice profileId reachable db created)
  | .runtime a => some a
  | _ => none

end World

/-! ## The active ids after a notification -/

namespace RuntimeState

/-- A daemon without a forwarder, or waiting for its end, has no active ids. -/
structure IdsHeld (s : RuntimeState) : Prop where
  thread : s.hasThread = false → s.activeIds = []
  joining : s.joining = true → s.activeIds = []

section

variable {s s' : RuntimeState} {n : ProfileNotify} {db : ProfileDb} {created : Bool}

theorem applyActiveConfigs_ids (s : RuntimeState) (db : ProfileDb) (created : Bool) :
    let r := s.applyActiveConfigs db created
    r.2.activeIds = s.activeIds ∧ r.2.joining = s.joining ∧
      (s.hasThread = true → r.2.hasThread = true) ∧ (r.1 = 0 → r.2.hasThread = true) := by
  intro r
  rcases applyActiveConfigs_cases s db created with ⟨hval, hd, -⟩ | ⟨-, -, cfg, -, heq⟩ |
    ⟨hthread, -, -, hd, -⟩
  · refine ⟨congrArg DaemonState.activeIds hd, congrArg DaemonState.joining hd, fun h => ?_, ?_⟩
    · exact (congrArg DaemonState.hasThread hd).trans h
    · exact fun h => absurd (hval.symm.trans h) (by decide)
  · have hr : r.2 = _ := heq
    rw [hr]
    exact ⟨rfl, rfl, fun _ => rfl, fun _ => rfl⟩
  · have h := (congrArg DaemonState.hasThread hd).trans hthread
    exact ⟨congrArg DaemonState.activeIds hd, congrArg DaemonState.joining hd, fun _ => h, fun _ => h⟩

/-- **Loading** makes the id active exactly if it returns `0` or `1`. -/
theorem loadProfileAndRun_ids (hs : s.IdsHeld) (hjoin : s.joining = false) :
    let r := s.loadProfileAndRun n
    r.2.IdsHeld ∧ ∀ id, id ∈ r.2.activeIds ↔
      if id = n.profileId then r.1 = 0 ∨ r.1 = 1 else id ∈ s.activeIds := by
  have hs₀ : (if s.hasThread = false then { s with activeIds := [] } else s) = s := by
    split_ifs with hthread
    · rw [← hs.thread hthread]
    · rfl
  simp only [loadProfileAndRun, hs₀, activeIdsAdd]
  by_cases hmem : n.profileId ∈ s.activeIds
  · rw [if_pos hmem]
    refine ⟨hs, fun id => ?_⟩
    show id ∈ s.activeIds ↔ if id = n.profileId then (1 : ℤ) = 0 ∨ (1 : ℤ) = 1 else _
    split_ifs with hid
    · exact iff_of_true (hid ▸ hmem) (.inr rfl)
    · rfl
  rw [if_neg hmem]
  by_cases hfull : maxActiveProfileIds ≤ s.activeIds.length
  · rw [if_pos hfull]
    refine ⟨hs, fun id => ?_⟩
    show id ∈ s.activeIds ↔ if id = n.profileId then (-1 : ℤ) = 0 ∨ (-1 : ℤ) = 1 else _
    split_ifs with hid
    · exact iff_of_false (hid ▸ hmem) (by decide)
    · rfl
  rw [if_neg hfull]
  simp only [Int.reduceLT, one_ne_zero, if_false]
  obtain ⟨hids, hjoin', hthread, hstarted⟩ := applyActiveConfigs_ids
    { s with activeIds := s.activeIds ++ [n.profileId] } n.db n.created
  generalize RuntimeState.applyActiveConfigs _ n.db n.created = r at hids hjoin' hthread hstarted
  have hjoin_r : r.2.joining ≠ true := by
    rw [hjoin']
    exact fun h => absurd (hjoin.symm.trans h) (by decide)
  by_cases hval : r.1 = 0
  · rw [if_neg (not_not.mpr hval)]
    refine ⟨⟨fun h => absurd ((hstarted hval).symm.trans h) (by decide), fun h => absurd h hjoin_r⟩,
      fun id => ?_⟩
    rw [hids]
    show id ∈ s.activeIds ++ [n.profileId] ↔ _
    rw [List.mem_append, List.mem_singleton]
    split_ifs with hid
    · exact iff_of_true (.inr hid) (.inl rfl)
    · exact or_iff_left hid
  · have hremove : (activeIdsRemove r.2.activeIds n.profileId).2 = s.activeIds := by
      rw [hids]
      exact activeIdsRemove_concat hmem
    rw [if_pos hval, hremove]
    refine ⟨⟨fun h => hs.thread ?_, fun h => absurd h hjoin_r⟩, fun id => ?_⟩
    · by_contra hne
      exact absurd ((hthread (by simpa using hne)).symm.trans h) (by decide)
    · show id ∈ s.activeIds ↔ if id = n.profileId then (-1 : ℤ) = 0 ∨ (-1 : ℤ) = 1 else _
      split_ifs with hid
      · exact iff_of_false (hid ▸ hmem) (by decide)
      · rfl

theorem mem_activeIdsRemove {ids : List ℤ} {id id' : ℤ} :
    id' ∈ (activeIdsRemove ids id).2 ↔ id' ≠ id ∧ id' ∈ ids := by
  rw [activeIdsRemove, List.mem_filter, decide_eq_true_eq, and_comm]

/-- **A notification and the active ids.** Its own id is active afterwards exactly if it was found in
the database and the call returned `0`; no other id is touched. -/
theorem handleProfileNotify_ids (hs : s.IdsHeld) (hjoin : s.joining = false) :
    let r := s.handleProfileNotify n
    r.2.IdsHeld ∧ ∀ id, id ∈ r.2.activeIds ↔
      if id = n.profileId then n.inDb = true ∧ r.1 = 0 else id ∈ s.activeIds := by
  unfold handleProfileNotify
  cases hdb : n.inDb with
  | true =>
    obtain ⟨hheld, hids⟩ := loadProfileAndRun_ids (n := n) hs hjoin
    simp only [if_true]
    split_ifs with hone hzero
    · exact ⟨hheld, fun id => by rw [hids]; simp [hone]⟩
    · exact ⟨hheld, fun id => by rw [hids]; simp [hone, hzero]⟩
    · exact ⟨hheld, fun id => by rw [hids]; simp [not_not.mp hzero]⟩
  | false =>
    simp only [Bool.false_eq_true, if_false, false_and]
    have hkeep : ∀ id, id ∈ (activeIdsRemove s.activeIds n.profileId).2 ↔
        if id = n.profileId then False else id ∈ s.activeIds := by
      intro id
      rw [mem_activeIdsRemove]
      split_ifs with hid
      · exact iff_of_false (fun h => h.1 hid) not_false
      · exact and_iff_right hid
    have hs_keep : s.activeIds = [] → (activeIdsRemove s.activeIds n.profileId).2 = [] := by
      intro h
      rw [h]
      rfl
    obtain ⟨hids, hjoin', hthread, -⟩ := applyActiveConfigs_ids
      { s with activeIds := (activeIdsRemove s.activeIds n.profileId).2 } n.db n.created
    generalize RuntimeState.applyActiveConfigs _ n.db n.created = r at hids hjoin' hthread
    have hheld : r.2.IdsHeld := by
      refine ⟨fun h => hids.trans (hs_keep (hs.thread ?_)), fun h => ?_⟩
      · by_contra hne
        exact absurd ((hthread (by simpa using hne)).symm.trans h) (by decide)
      · exact absurd (hjoin.symm.trans (hjoin'.symm.trans h)) (by decide)
    split_ifs with hmem hlast hval
    · refine ⟨hs, fun id => ?_⟩
      rw [← hkeep, mem_activeIdsRemove]
      refine ⟨fun h => ⟨fun hid => ?_, h⟩, And.right⟩
      exact of_decide_eq_false hmem (hid ▸ h)
    · refine ⟨?_, fun id => ?_⟩
      · unfold runtimeStopForwarder NetEncryptor.runtimeStopForwarder
        split_ifs
        · exact ⟨fun _ => hlast, fun _ => hlast⟩
        · exact ⟨fun _ => hlast, fun _ => hlast⟩
      · rw [← hkeep]
        unfold runtimeStopForwarder NetEncryptor.runtimeStopForwarder
        split_ifs <;> rfl
    · exact ⟨hheld, fun id => by rw [hids]; exact hkeep id⟩
    · exact ⟨hheld, fun id => by rw [hids]; exact hkeep id⟩

theorem forwarderThreadStep_frame {s d : DaemonState} (h : forwarderThreadStep s = some d) :
    d.activeIds = s.activeIds ∧ d.hasThread = s.hasThread ∧ d.joining = s.joining := by
  unfold forwarderThreadStep at h
  cases hphase : s.thread with
  | starting | initialized | entering | entered =>
    rw [hphase] at h
    cases h
    exact ⟨rfl, rfl, rfl⟩
  | looping =>
    rw [hphase] at h
    simp only at h
    split_ifs at h
    cases h
    exact ⟨rfl, rfl, rfl⟩
  | finished =>
    rw [hphase] at h
    cases h

theorem runtimeStep_ids {a : RuntimeAction} (hs : s.IdsHeld) (hne : ∀ n, a ≠ .notify n)
    (h : runtimeStep s a = some s') : s'.IdsHeld ∧ s'.activeIds = s.activeIds := by
  cases a with
  | notify n => exact absurd rfl (hne n)
  | thread =>
    simp only [runtimeStep] at h
    split at h
    · cases h
    rename_i d hd
    cases h
    obtain ⟨hids, hthread, hjoin⟩ := forwarderThreadStep_frame hd
    exact ⟨⟨fun h => hids.trans (hs.thread (hthread.symm.trans h)),
      fun h => hids.trans (hs.joining (hjoin.symm.trans h))⟩, hids⟩
  | initFails =>
    simp only [runtimeStep] at h
    split_ifs at h
    cases h
    exact ⟨⟨hs.thread, hs.joining⟩, rfl⟩
  | learn cfg =>
    simp only [runtimeStep] at h
    split at h
    · cases h
    split_ifs at h
    cases h
    exact ⟨⟨hs.thread, hs.joining⟩, rfl⟩
  | join =>
    simp only [runtimeStep] at h
    split_ifs at h with hj
    cases h
    exact ⟨⟨fun _ => hs.joining hj.1, fun h => absurd h Bool.false_ne_true⟩, rfl⟩

end

end RuntimeState

/-! ## The notifications of an id -/

namespace World

/-- The store of profiles, the daemon's copy of it, and the channel between them. -/
def view (w : World) : Notified.State ℤ Bool Str :=
  ⟨w.stored, fun id => decide (id ∈ w.runtime.activeIds), w.channel⟩

/-- The value of `handle_profile_notify` for an id. -/
def handled (w : World) (profileId : ℤ) (reachable : Bool) (db : ProfileDb) (created : Bool) : ℤ :=
  (w.runtime.handleProfileNotify (w.notice profileId reachable db created)).1

/-- Whether the id of the next notification is active afterwards. -/
def found (w : World) (reachable : Bool) (db : ProfileDb) (created : Bool) : Bool :=
  match w.channel.head?.bind notifiedId with
  | none => false
  | some id =>
    decide (w.neProfileIdExists reachable id = 0 ∧ w.handled id reachable db created = 0)

/-- What an action is for the store, the copy and the channel. -/
def event (w : World) : WorldAction → Notified.Event ℤ Bool Str
  | .store profileId present => .change profileId present
  | .lose kept => .lost kept
  | .handle reachable db created => .take (w.found reachable db created)
  | a =>
    match payload? a with
    | none => .idle
    | some payload => if w.listening then .announce payload else .idle

/-- The action sends the id to a daemon that listens. -/
def Announces (id : ℤ) (w : World) (a : WorldAction) : Prop :=
  w.listening = true ∧ ∃ payload, payload? a = some payload ∧ notifiedId payload = some id

/-- The action does not change the row of the id and loses no notification of it; if it takes one
while the profile is there, the daemon finds and loads it. -/
def Keeps (id : ℤ) (w : World) : WorldAction → Prop
  | .store profileId _ => profileId ≠ id
  | .lose kept => ∀ payload ∈ w.channel.drop kept, notifiedId payload ≠ some id
  | .handle reachable db created => w.channel.head?.bind notifiedId = some id →
      w.stored id = true → reachable = true ∧ w.handled id reachable db created = 0
  | _ => True

/-- The daemon takes a notification of the id; `P` is about what it finds. -/
def Takes (P : Bool → Prop) (id : ℤ) (w : World) (a : WorldAction) : Prop :=
  ∃ reachable db created, a = .handle reachable db created ∧
    w.channel.head?.bind notifiedId = some id ∧ P (w.found reachable db created)

/-- No unload of a live forwarder is refused. -/
def UnloadsAccepted (w : World) (a : WorldAction) : Prop :=
  ∀ ra, w.runtimeAction? a = some ra → UnloadAccepted w.runtime ra

section

variable {w w' : World} {a : WorldAction} {id : ℤ}

theorem view_pgNotify (payload : Str) :
    Notified.step notifiedId w.view (if w.listening then .announce payload else .idle) =
      some (w.pgNotify payload).view := by
  unfold pgNotify
  split_ifs <;> rfl

theorem step_handle {reachable : Bool} {db : ProfileDb} {created : Bool}
    (h : w.step (.handle reachable db created) = some w') :
    w.runtime.joining = false ∧ ∃ payload rest, w.channel = payload :: rest ∧
      ((notifiedId payload = none ∧ w' = { w with channel := rest }) ∨
        ∃ id, notifiedId payload = some id ∧ w' = { w with
          runtime := (w.runtime.handleProfileNotify (w.notice id reachable db created)).2
          channel := rest }) := by
  simp only [step] at h
  split_ifs at h with hjoin
  refine ⟨by simpa using hjoin, ?_⟩
  split at h
  · cases h
  rename_i payload rest hq
  refine ⟨payload, rest, hq, ?_⟩
  split at h
  · rename_i hid
    cases h
    exact .inl ⟨hid, rfl⟩
  · rename_i id hid
    cases h
    exact .inr ⟨id, hid, rfl⟩

/-- **One step** of the world is one event for the store, the copy and the channel. -/
theorem step_view (hs : w.runtime.IdsHeld) (h : w.step a = some w') :
    Notified.step notifiedId w.view (w.event a) = some w'.view ∧ w'.runtime.IdsHeld := by
  cases a with
  | store profileId present | lose kept =>
    cases h
    exact ⟨rfl, hs⟩
  | command args sent =>
    simp only [step] at h
    split_ifs at h
    split at h
    · rename_i hpayload
      cases h
      rw [event, hpayload]
      · exact ⟨rfl, hs⟩
      all_goals nofun
    · rename_i payload hpayload
      cases h
      rw [event, hpayload]
      · refine ⟨view_pgNotify payload, ?_⟩
        unfold pgNotify
        split_ifs <;> exact hs
      all_goals nofun
  | send payload =>
    cases h
    refine ⟨view_pgNotify payload, ?_⟩
    unfold pgNotify
    split_ifs <;> exact hs
  | listen =>
    simp only [step] at h
    split_ifs at h
    cases h
    exact ⟨rfl, hs⟩
  | handle reachable db created =>
    obtain ⟨hjoin, payload, rest, hq, ⟨hid, rfl⟩ | ⟨id, hid, rfl⟩⟩ := step_handle h
    · refine ⟨?_, hs⟩
      simp only [Notified.step, event, view, hq, Notified.note, hid]
    · obtain ⟨hheld, hids⟩ := RuntimeState.handleProfileNotify_ids
        (n := w.notice id reachable db created) hs hjoin
      refine ⟨?_, hheld⟩
      have hfound : w.found reachable db created =
          decide (w.neProfileIdExists reachable id = 0 ∧ w.handled id reachable db created = 0) := by
        rw [found, hq, List.head?_cons, Option.bind_some, hid]
      simp only [Notified.step, event, view, hq, Notified.note, hid, hfound]
      congr 2
      funext id'
      have hid' := hids id'
      by_cases heq : id' = id
      · subst heq
        rw [if_pos (show id' = (w.notice id' reachable db created).profileId from rfl)] at hid'
        rw [Function.update_self, decide_eq_decide, hid']
        exact and_congr_left fun _ => decide_eq_true_iff.symm
      · rw [if_neg (show id' ≠ (w.notice id reachable db created).profileId from heq)] at hid'
        rw [Function.update_of_ne heq, decide_eq_decide, hid']
  | runtime a =>
    cases a with
    | notify n => cases h
    | thread | initFails | learn cfg | join =>
      obtain ⟨runtime, hr, rfl⟩ := Option.map_eq_some_iff.mp h
      obtain ⟨hheld, hids⟩ := RuntimeState.runtimeStep_ids hs (by rintro _ ⟨⟩) hr
      refine ⟨?_, hheld⟩
      simp only [event, payload?, Notified.step, view, hids]

theorem ok_step (hs : w.runtime.Ok) (hcond : UnloadsAccepted w a) (h : w.step a = some w') :
    w'.runtime.Ok := by
  cases a with
  | store profileId present | lose kept =>
    cases h
    exact hs
  | command args sent =>
    simp only [step] at h
    split_ifs at h
    split at h
    · cases h
      exact hs
    · cases h
      unfold pgNotify
      split_ifs <;> exact hs
  | send payload =>
    cases h
    unfold pgNotify
    split_ifs <;> exact hs
  | listen =>
    simp only [step] at h
    split_ifs at h
    cases h
    exact hs
  | handle reachable db created =>
    obtain ⟨hjoin, payload, rest, hq, ⟨-, rfl⟩ | ⟨id, hid, rfl⟩⟩ := step_handle h
    · exact hs
    · have haction : w.runtimeAction? (.handle reachable db created) =
          some (.notify (w.notice id reachable db created)) := by
        rw [runtimeAction?, hq, List.head?_cons, Option.bind_some, hid]
        rfl
      exact (RuntimeState.ok_handleProfileNotify hs hjoin (hcond _ haction)).1
  | runtime a =>
    cases a with
    | notify n => cases h
    | thread | initFails | learn cfg | join =>
      obtain ⟨runtime, hr, rfl⟩ := Option.map_eq_some_iff.mp h
      exact RuntimeState.ok_step hs (hcond _ rfl) hr

theorem announces_command {args : List Str} (hmode : mainMode args = .notify id)
    (hlistening : w.listening = true) : Announces id w (.command args true) := by
  obtain ⟨hpos, hmax⟩ := mainMode_eq_notify hmode
  refine ⟨hlistening, intText id, ?_, notifiedId_intText hpos hmax⟩
  simp only [payload?, hmode, if_true]

theorem announces_view (h : Announces id w a) :
    Notified.Announces notifiedId id w.view (w.event a) := by
  obtain ⟨hlistening, payload, hpayload, hid⟩ := h
  refine ⟨payload, ?_, hid⟩
  cases a with
  | command args sent | send payload' => simp only [event, hpayload, hlistening, if_true]
  | store profileId present | lose kept | listen | handle reachable db created | runtime a =>
    cases hpayload

theorem keeps_view (h : Keeps id w a) : Notified.Keeps notifiedId id w.view (w.event a) := by
  cases a with
  | store profileId present => exact h
  | lose kept => exact fun payload hmem => h payload hmem
  | handle reachable db created =>
    intro payload hq hid
    have hnext : w.channel.head?.bind notifiedId = some id := by
      rw [show w.channel.head? = some payload from hq]
      exact hid
    have hfound : w.found reachable db created =
        decide (w.neProfileIdExists reachable id = 0 ∧ w.handled id reachable db created = 0) := by
      rw [found, hnext]
    show w.found reachable db created = w.stored id
    rw [hfound, neProfileIdExists]
    cases hstored : w.stored id with
    | false => simp
    | true =>
      obtain ⟨rfl, hval⟩ := h hnext hstored
      simp [hval]
  | command args sent | send payload =>
    simp only [event]
    split
    · trivial
    · split_ifs <;> trivial
  | listen | runtime a => trivial

theorem unloadsAccepted_handle {db : ProfileDb} {created : Bool}
    (h : ∀ id, w.channel.head?.bind notifiedId = some id → w.stored id = true) :
    UnloadsAccepted w (.handle true db created) := by
  intro ra hra
  obtain ⟨id, hid, rfl⟩ := Option.map_eq_some_iff.mp hra
  intro hdb
  simp [notice, neProfileIdExists, h id hid] at hdb

theorem idsHeld_start (stored : ℤ → Bool) : (start stored).runtime.IdsHeld := ⟨fun _ => rfl, nofun⟩

theorem finds_view (P : Bool → Prop) :
    Notified.Finds notifiedId P id w.view (w.event a) ↔ Takes P id w a := by
  constructor
  · rintro ⟨found, payload, hevent, hq, hid, hP⟩
    have hnext : w.channel.head?.bind notifiedId = some id := by
      rw [show w.channel.head? = some payload from hq]
      exact hid
    cases a with
    | handle reachable db created =>
      cases hevent
      exact ⟨reachable, db, created, rfl, hnext, hP⟩
    | store profileId present | lose kept | listen | runtime a => cases hevent
    | command args sent | send payload' =>
      simp only [event] at hevent
      split at hevent
      · cases hevent
      · split_ifs at hevent
  · rintro ⟨reachable, db, created, rfl, hnext, hP⟩
    obtain ⟨payload, hq, hid⟩ := Option.bind_eq_some_iff.mp hnext
    exact ⟨_, payload, rfl, hq, hid, hP⟩

/-- **The active ids** after a run are those whose last notification found the profile in the
database and returned `0`. -/
theorem mem_activeIds_iff {stored : ℤ → Bool} {as : List WorldAction}
    (hrun : Runs.run step (start stored) as = some w) :
    id ∈ w.runtime.activeIds ↔ Runs.Since step (Takes (fun found => found = true) id)
      (fun w a => ¬ Takes (fun _ => True) id w a) (start stored) as := by
  refine (Runs.history (I := fun as (w : World) => w.runtime.IdsHeld ∧ (id ∈ w.runtime.activeIds ↔
    Runs.Since step (Takes (fun found => found = true) id)
      (fun w a => ¬ Takes (fun _ => True) id w a) (start stored) as)) ?_ ?_ hrun).2
  · exact ⟨idsHeld_start stored, iff_of_false List.not_mem_nil Runs.Since.not_nil⟩
  · rintro as w a w' hw ⟨hheld, ih⟩ ha
    obtain ⟨hview, hheld'⟩ := step_view hheld ha
    refine ⟨hheld', ?_⟩
    have hcopy := Notified.copy_step (k := id) (fun found => found = true) hview
    rw [finds_view, finds_view] at hcopy
    rw [Runs.Since.concat_iff hw ha, ← ih]
    have hactive : ∀ w : World, w.view.copy id = true ↔ id ∈ w.runtime.activeIds :=
      fun w => decide_eq_true_iff
    rwa [hactive, hactive] at hcopy

/-- **Announced profiles.** If the row of an id has not changed since the id was sent to the daemon,
and nothing that was sent about it since then is lost, refused or still to be taken, then the id is
active exactly if the row is there; and a forwarder that runs uses its profile exactly then, unless
an unload was refused. -/
theorem announced_profiles {stored : ℤ → Bool} {as : List WorldAction}
    (hrun : Runs.run step (start stored) as = some w)
    (hannounced : Runs.Since step (Announces id) (Keeps id) (start stored) as)
    (htaken : ∀ payload ∈ w.channel, notifiedId payload ≠ some id) :
    (id ∈ w.runtime.activeIds ↔ w.stored id = true) ∧
      (Runs.StepsMeet step UnloadsAccepted (start stored) as → w.runtime.ForwarderRuns →
        ∃ cfg, w.runtime.runningCfg = some cfg ∧ (id ∈ profileIds cfg ↔ w.stored id = true)) := by
  have hactive : id ∈ w.runtime.activeIds ↔ w.stored id = true := by
    obtain ⟨es, hes, hsince⟩ := Runs.Since.follows (I := fun w : World => w.runtime.IdsHeld)
      (fun _ _ _ hs h => (step_view hs h).2) (fun _ _ _ hs h => (step_view hs h).1)
      (fun _ _ _ => announces_view) (fun _ _ _ => keeps_view) (idsHeld_start stored) hrun
    rcases Notified.agrees_of_announced (hsince hannounced) hes with ⟨payload, hmem, hid⟩ | heq
    · exact absurd hid (htaken payload hmem)
    · rw [← show _ = w.stored id from heq]
      exact decide_eq_true_iff.symm
  refine ⟨hactive, fun hmeet hruns => ?_⟩
  have hok : w.runtime.Ok :=
    Runs.invariant (I := fun w : World => w.runtime.Ok) (fun _ _ _ hs hcond h => ok_step hs hcond h)
      RuntimeState.ok_start hmeet hrun
  obtain ⟨cfg, hcfg, hids⟩ := hok.agrees hruns
  exact ⟨cfg, hcfg, (hids id).symm.trans hactive⟩

end

/-! ## Two profiles -/

/-- The first profile is in the database and sent, and its forwarder gets to its loops; the second
one is added and sent. -/
def sendTwoRun : List WorldAction :=
  [.command ["-id".toList, "1".toList] true, .handle true RuntimeState.sameLanDb true,
    .runtime .thread, .runtime .thread, .runtime .thread, .runtime .thread, .store 2 true,
    .command ["--id=2".toList] true, .handle true RuntimeState.sameLanDb true]

def sendTwoState : World :=
  (Runs.run step (start fun id => id = 1) sendTwoRun).getD (start fun _ => false)

theorem run_sendTwo : Runs.run step (start fun id => id = 1) sendTwoRun = some sendTwoState := by rfl

theorem mem_activeIds_iff_sendTwo :
    1 ∈ sendTwoState.runtime.activeIds ∧ Runs.Since step (Takes (fun found => found = true) 1)
      (fun w a => ¬ Takes (fun _ => True) 1 w a) (start fun id => id = 1) sendTwoRun := by
  have hactive : 1 ∈ sendTwoState.runtime.activeIds := List.mem_cons_self
  exact ⟨hactive, (mem_activeIds_iff run_sendTwo).mp hactive⟩

theorem announced_profiles_sendTwo :
    sendTwoState.runtime.activeIds = [1, 2] ∧
      (2 ∈ sendTwoState.runtime.activeIds ↔ sendTwoState.stored 2 = true) ∧
      ∃ cfg, sendTwoState.runtime.runningCfg = some cfg ∧
        (2 ∈ profileIds cfg ↔ sendTwoState.stored 2 = true) := by
  have hannounced : Runs.Since step (Announces 2) (Keeps 2) (start fun id => id = 1) sendTwoRun :=
    ⟨sendTwoRun.take 7, sendTwoRun[7], sendTwoRun.drop 8, _, _, rfl, rfl,
      announces_command rfl rfl, rfl, fun _ _ => ⟨rfl, rfl⟩, fun _ _ => trivial⟩
  have hmeet : Runs.StepsMeet step UnloadsAccepted (start fun id => id = 1) sendTwoRun := by
    have hthread : ∀ w, UnloadsAccepted w (.runtime .thread) := by
      rintro w _ ⟨⟩
      trivial
    refine ⟨nofun, ?_⟩
    rintro _ ⟨⟩
    refine ⟨unloadsAccepted_handle (by rintro _ ⟨⟩; rfl), ?_⟩
    rintro _ ⟨⟩
    refine ⟨hthread _, ?_⟩
    rintro _ ⟨⟩
    refine ⟨hthread _, ?_⟩
    rintro _ ⟨⟩
    refine ⟨hthread _, ?_⟩
    rintro _ ⟨⟩
    refine ⟨hthread _, ?_⟩
    rintro _ ⟨⟩
    refine ⟨nofun, ?_⟩
    rintro _ ⟨⟩
    refine ⟨nofun, ?_⟩
    rintro _ ⟨⟩
    exact ⟨unloadsAccepted_handle (by rintro _ ⟨⟩; rfl), fun _ _ => trivial⟩
  obtain ⟨hactive, hused⟩ := announced_profiles run_sendTwo hannounced nofun
  exact ⟨rfl, hactive, hused hmeet ⟨rfl, nofun, nofun⟩⟩

end World

end NetEncryptor

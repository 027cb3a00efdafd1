import NetEncryptor.Core.Daemon
import NetEncryptor.Core.Reload
import NetEncryptor.Db.MergeProfiles

/-!
# The active profiles and the running configuration

A notification changes the set of active ids, merges their profiles, writes the slot that is not
active and reloads the forwarder.  Each of these can fail.  A load that fails takes its id back; an
unload that fails does not, and the forwarder goes on with the profile that is no longer active.

`activeIds_agree` says that this is the only way in which the two come apart.
-/

namespace NetEncryptor

/-- What the database has for an id, if `config_load_from_db` can read it. -/
abbrev ProfileDb := (id : ℤ) → Option { rows : ProfileRows // rows.id = id }

/-- The profiles of the ids, if all of them can be read. -/
def ProfileDb.rows (db : ProfileDb) : List ℤ → Option (List ProfileRows)
  | [] => some []
  | id :: ids =>
    match db id with
    | none => none
    | some rows => (db.rows ids).map (rows.val :: ·)

/-- `build_merged_config`; `none` stands for `-1`. -/
def ProfileDb.build (db : ProfileDb) (ids : List ℤ) : Option AppConfig :=
  match db.rows ids with
  | none => none
  | some profiles => buildMergedConfig profiles

def profileIds (cfg : AppConfig) : List ℤ := cfg.profiles.map ProfileConfig.id

/-- `struct runtime_state`, with the active ids of `main` and the flag of `forwarder.c`. -/
structure RuntimeState extends DaemonState where
  cfgSlots : Buffer AppConfig
  activeSlot : ℕ
  /-- `fwd.cfg`: the slot that it points to, `none` if it is null. -/
  fwdCfg : Option ℕ

def RuntimeState.start : RuntimeState := ⟨DaemonState.start, fun _ => AppConfig.empty, 0, none⟩

/-- A notification, with what the daemon finds when it handles it. -/
structure ProfileNotify where
  profileId : ℤ
  /-- `ne_profile_id_exists` returns `0`. -/
  inDb : Bool
  db : ProfileDb
  /-- `pthread_create` returns `0`. -/
  created : Bool

namespace RuntimeState

/-! ## Notifications -/

def runningCfg (s : RuntimeState) : Option AppConfig := s.fwdCfg.map s.cfgSlots

def runtimeStart (s : RuntimeState) (created : Bool) (cfg : AppConfig) : ℤ × RuntimeState :=
  let s := { s with activeSlot := 0, cfgSlots := s.cfgSlots.set 0 cfg }
  if created then (0, { s with hasThread := true, thread := .starting }) else (-1, s)

/-- `forwarder_reload_config` to the configuration in a slot; `none` stands for `-1`. -/
def reloadConfig (s : RuntimeState) (slot : ℕ) : Option RuntimeState :=
  match s.fwdCfg with
  | none => none
  | some running =>
    let kind := reloadKind (s.cfgSlots running) (s.cfgSlots slot)
    if kind = .rejected then none
    else
      some { s with
        fwdCfg := some slot
        cfgSlots := s.cfgSlots.set slot (kind.loaded (s.cfgSlots slot)) }

def applyActiveConfigs (s : RuntimeState) (db : ProfileDb) (created : Bool) : ℤ × RuntimeState :=
  match db.build s.activeIds with
  | none => (-1, s)
  | some cfg =>
    if s.hasThread = false then s.runtimeStart created cfg
    else
      let nextSlot := 1 - s.activeSlot
      let s := { s with cfgSlots := s.cfgSlots.set nextSlot cfg }
      match s.reloadConfig nextSlot with
      | none => (-1, s)
      | some s => (0, { s with activeSlot := nextSlot })

/-- The part of `runtime_stop_forwarder` before `pthread_join` returns. -/
def runtimeStopForwarder (s : RuntimeState) : RuntimeState :=
  { s with toDaemonState := NetEncryptor.runtimeStopForwarder s.toDaemonState }

/-- The value, `0` for loaded and `1` for active before, and the state. -/
def loadProfileAndRun (s : RuntimeState) (n : ProfileNotify) : ℤ × RuntimeState :=
  let s := if s.hasThread = false then { s with activeIds := [] } else s
  let added := activeIdsAdd s.activeIds n.profileId
  if added.1 < 0 then (-1, s)
  else if added.1 = 0 then (1, s)
  else
    let r := { s with activeIds := added.2 }.applyActiveConfigs n.db n.created
    if r.1 ≠ 0 then
      (-1, { r.2 with activeIds := (activeIdsRemove r.2.activeIds n.profileId).2 })
    else (0, r.2)

def handleProfileNotify (s : RuntimeState) (n : ProfileNotify) : ℤ × RuntimeState :=
  if n.inDb then
    let r := s.loadProfileAndRun n
    if r.1 = 1 then (0, r.2) else if r.1 ≠ 0 then (-1, r.2) else (0, r.2)
  else
    let removed := activeIdsRemove s.activeIds n.profileId
    if removed.1 = false then (0, s)
    else
      let s := { s with activeIds := removed.2 }
      if removed.2 = [] then (0, s.runtimeStopForwarder)
      else
        let r := s.applyActiveConfigs n.db n.created
        if r.1 ≠ 0 then (-1, r.2) else (0, r.2)

/-- The forwarder is using a configuration, and the daemon is not stopping it. -/
def ForwarderRuns (s : RuntimeState) : Prop :=
  s.joining = false ∧ s.thread ≠ .starting ∧ s.thread ≠ .finished

/-- The forwarder is using the profiles that are active. -/
def Agrees (s : RuntimeState) : Prop :=
  ∃ cfg, s.runningCfg = some cfg ∧ ∀ id, id ∈ s.activeIds ↔ id ∈ profileIds cfg

end RuntimeState

/-- A step of the daemon and its forwarder. -/
inductive RuntimeAction
  | notify (n : ProfileNotify)
  | thread
  /-- `forwarder_init` returns `-1` for another reason than the flag. -/
  | initFails
  /-- The forwarder writes into its configuration what it learns about the interfaces. -/
  | learn (cfg : AppConfig)
  | join

def runtimeStep (s : RuntimeState) : RuntimeAction → Option RuntimeState
  | .notify n => if s.joining then none else some (s.handleProfileNotify n).2
  | .thread =>
    match forwarderThreadStep s.toDaemonState with
    | none => none
    | some d =>
      -- `forwarder_init` stores the address behind its first test of the flag
      some ⟨d, s.cfgSlots, s.activeSlot,
        if d.thread = .initialized then some s.activeSlot else s.fwdCfg⟩
  | .initFails =>
    if s.thread = .initialized then some { s with thread := .finished } else none
  | .learn cfg =>
    match s.fwdCfg with
    | none => none
    | some slot =>
      if cfg.profiles = (s.cfgSlots slot).profiles ∧ sameTopology (s.cfgSlots slot) cfg then
        some { s with cfgSlots := s.cfgSlots.set slot cfg }
      else none
  | .join =>
    if s.joining ∧ s.thread = .finished then some { s with hasThread := false, joining := false }
    else none

/-- When a profile is gone while the forwarder lives, those that remain can be merged, and have the
interfaces of the running configuration. -/
def UnloadAccepted (s : RuntimeState) : RuntimeAction → Prop
  | .notify n =>
    let remaining := (activeIdsRemove s.activeIds n.profileId).2
    n.inDb = false → n.profileId ∈ s.activeIds → remaining ≠ [] → s.joining = false →
      s.running = true → s.thread ≠ .finished →
        ∃ cfg running, n.db.build remaining = some cfg ∧ s.runningCfg = some running ∧
          sameTopology running cfg
  | _ => True

/-! ## Merging and reloading -/

theorem ProfileDb.rows_ids {db : ProfileDb} : ∀ {ids : List ℤ} {profiles : List ProfileRows},
    db.rows ids = some profiles → profiles.map ProfileRows.id = ids := by
  intro ids
  induction ids with
  | nil =>
    intro profiles h
    cases h
    rfl
  | cons id ids ih =>
    intro profiles h
    rw [ProfileDb.rows] at h
    split at h
    · cases h
    rename_i rows hrows
    obtain ⟨rest, hrest, rfl⟩ := Option.map_eq_some_iff.mp h
    rw [List.map_cons, ih hrest, rows.property]

theorem ProfileDb.build_profileIds {db : ProfileDb} {ids : List ℤ} {cfg : AppConfig}
    (h : db.build ids = some cfg) : profileIds cfg = ids := by
  unfold ProfileDb.build at h
  split at h
  · cases h
  rename_i profiles hrows
  rw [profileIds, buildMergedConfig_profileIds h, ProfileDb.rows_ids hrows]

namespace RuntimeState

section

variable {s s' t : RuntimeState} {n : ProfileNotify} {db : ProfileDb} {created : Bool}

theorem profileIds_loaded (kind : ReloadKind) (cfg : AppConfig) :
    profileIds (kind.loaded cfg) = profileIds cfg := by
  cases kind <;> rfl

/-- **What `apply_active_configs` can do**: fail, start the forwarder, or reload it. -/
theorem applyActiveConfigs_cases (s : RuntimeState) (db : ProfileDb) (created : Bool) :
    let r := s.applyActiveConfigs db created
    (r.1 = -1 ∧ r.2.toDaemonState = s.toDaemonState ∧ r.2.fwdCfg = s.fwdCfg ∧
      (r.2.activeSlot = 0 ∨ r.2.activeSlot = s.activeSlot) ∧
      (s.hasThread = true → r.2.activeSlot = s.activeSlot ∧
        ∀ slot, slot ≠ 1 - s.activeSlot → r.2.cfgSlots slot = s.cfgSlots slot)) ∨
    (s.hasThread = false ∧ r.1 = 0 ∧ ∃ cfg, db.build s.activeIds = some cfg ∧
      r.2 = ⟨{ s.toDaemonState with hasThread := true, thread := .starting },
        s.cfgSlots.set 0 cfg, 0, s.fwdCfg⟩) ∨
    (s.hasThread = true ∧ r.1 = 0 ∧ s.fwdCfg ≠ none ∧ r.2.toDaemonState = s.toDaemonState ∧
      r.2.activeSlot = 1 - s.activeSlot ∧ r.2.fwdCfg = some (1 - s.activeSlot) ∧
      profileIds (r.2.cfgSlots (1 - s.activeSlot)) = s.activeIds) := by
  unfold applyActiveConfigs
  cases hbuild : db.build s.activeIds with
  | none => exact .inl ⟨rfl, rfl, rfl, .inr rfl, fun _ => ⟨rfl, fun _ _ => rfl⟩⟩
  | some cfg =>
    cases hthread : s.hasThread with
    | false =>
      cases created with
      | false => exact .inl ⟨rfl, rfl, rfl, .inl rfl, nofun⟩
      | true => exact .inr (.inl ⟨rfl, rfl, cfg, rfl, rfl⟩)
    | true =>
      simp only [reloadConfig, Bool.true_eq_false, if_false]
      cases hfwd : s.fwdCfg with
      | none =>
        exact .inl ⟨rfl, rfl, rfl, .inr rfl, fun _ => ⟨rfl, fun slot hne => Buffer.set_of_ne hne⟩⟩
      | some running =>
        simp only
        split_ifs with hrej
        · exact .inl ⟨rfl, rfl, rfl, .inr rfl,
            fun _ => ⟨rfl, fun slot hne => Buffer.set_of_ne hne⟩⟩
        · refine .inr (.inr ⟨trivial, rfl, nofun, rfl, rfl, rfl, ?_⟩)
          simp only [Buffer.set_self]
          rw [profileIds_loaded, ProfileDb.build_profileIds hbuild]

theorem applyActiveConfigs_accepted {cfg : AppConfig} (hslot : s.activeSlot ≤ 1)
    (hthread : s.hasThread = true) (hfwd : s.fwdCfg = some s.activeSlot)
    (hbuild : db.build s.activeIds = some cfg)
    (htop : sameTopology (s.cfgSlots s.activeSlot) cfg) :
    (s.applyActiveConfigs db created).1 = 0 := by
  have hne : s.activeSlot ≠ 1 - s.activeSlot := by omega
  have hrej : ¬ reloadKind (s.cfgSlots s.activeSlot) cfg = .rejected := by
    rw [reloadKind_eq_rejected, not_not]
    exact htop
  simp only [applyActiveConfigs, reloadConfig, hbuild, hthread, hfwd, Buffer.set_self,
    Buffer.set_of_ne hne, Bool.true_eq_false, if_false, if_neg hrej]

theorem reloadConfig_eq {hmac : Hmac} {getCtx : ℕ → Bool} {fwd : Forwarder} {slot : ℕ}
    (h : s.runningCfg = some fwd.cfg) :
    (s.reloadConfig slot).bind runningCfg =
      (forwarderReloadConfig hmac getCtx fwd (s.cfgSlots slot)).map Forwarder.cfg := by
  obtain ⟨running, hfwd, hcfg⟩ := Option.map_eq_some_iff.mp h
  rw [forwarderReloadConfig_cfg, ← hcfg, reloadConfig, hfwd]
  simp only
  split_ifs
  · rfl
  · exact congrArg some (Buffer.set_self _ _ _)

theorem applyActiveConfigs_toDaemonState (s : RuntimeState) (hbuild : db.build s.activeIds ≠ none)
    (hcreated : created = true) :
    ∃ reloadOk, NetEncryptor.applyActiveConfigs s.toDaemonState reloadOk =
      (decide ((s.applyActiveConfigs db created).1 = 0),
        (s.applyActiveConfigs db created).2.toDaemonState) := by
  obtain ⟨cfg, hcfg⟩ := Option.ne_none_iff_exists'.mp hbuild
  simp only [applyActiveConfigs, NetEncryptor.applyActiveConfigs, hcfg, hcreated]
  split_ifs with hthread
  · exact ⟨true, rfl⟩
  · split
    · exact ⟨false, rfl⟩
    · rename_i s' hs'
      refine ⟨true, ?_⟩
      unfold reloadConfig at hs'
      split at hs'
      · cases hs'
      · simp only at hs'
        split_ifs at hs'
        cases hs'
        rfl

theorem loadProfileAndRun_toDaemonState (s : RuntimeState)
    (hbuild : ∀ ids, n.db.build ids ≠ none) (hcreated : n.created = true) :
    ∃ reloadOk, NetEncryptor.loadProfileAndRun s.toDaemonState n.profileId reloadOk =
      (s.loadProfileAndRun n).2.toDaemonState := by
  obtain ⟨s₀, hs₀, hd₀⟩ : ∃ s₀ : RuntimeState,
      (if s.hasThread = false then { s with activeIds := [] } else s) = s₀ ∧
        (if s.hasThread = false then { s.toDaemonState with activeIds := [] }
          else s.toDaemonState) = s₀.toDaemonState := by
    refine ⟨_, rfl, ?_⟩
    split_ifs <;> rfl
  obtain ⟨reloadOk, hok⟩ := applyActiveConfigs_toDaemonState
    { s₀ with activeIds := (activeIdsAdd s₀.activeIds n.profileId).2 } (hbuild _) hcreated
  refine ⟨reloadOk, ?_⟩
  simp only [loadProfileAndRun, NetEncryptor.loadProfileAndRun, hs₀, hd₀, hok]
  generalize RuntimeState.applyActiveConfigs _ n.db n.created = r
  unfold activeIdsAdd
  by_cases hmem : n.profileId ∈ s₀.activeIds
  · rw [if_pos hmem]
    rfl
  rw [if_neg hmem]
  by_cases hfull : maxActiveProfileIds ≤ s₀.activeIds.length
  · rw [if_pos hfull]
    rfl
  rw [if_neg hfull]
  by_cases hval : r.1 = 0
  · simp [hval]
  · simp [hval]

/-- **The daemon's view.** Where merging and thread creation succeed, a notification does to the
daemon's state what it does without configurations. -/
theorem handleProfileNotify_toDaemonState (s : RuntimeState)
    (hbuild : ∀ ids, n.db.build ids ≠ none) (hcreated : n.created = true) :
    ∃ reloadOk, NetEncryptor.handleProfileNotify s.toDaemonState n.profileId n.inDb reloadOk =
      (s.handleProfileNotify n).2.toDaemonState := by
  cases hdb : n.inDb with
  | true =>
    obtain ⟨reloadOk, hok⟩ := loadProfileAndRun_toDaemonState s hbuild hcreated
    refine ⟨reloadOk, ?_⟩
    simp only [handleProfileNotify, NetEncryptor.handleProfileNotify, hdb, if_true, hok]
    split_ifs <;> rfl
  | false =>
    obtain ⟨reloadOk, hok⟩ := applyActiveConfigs_toDaemonState
      { s with activeIds := (activeIdsRemove s.activeIds n.profileId).2 } (hbuild _) hcreated
    refine ⟨reloadOk, ?_⟩
    simp only [handleProfileNotify, NetEncryptor.handleProfileNotify, hdb, Bool.false_eq_true,
      if_false, hok]
    split_ifs <;> rfl

/-! ## The invariant -/

structure Ok (s : RuntimeState) : Prop where
  slot : s.activeSlot ≤ 1
  /-- The flag stays cleared once a thread has been joined. -/
  idle : s.hasThread = false →
    s.thread = .finished ∧ s.joining = false ∧ (s.fwdCfg = none ∨ s.running = false)
  joining : s.joining = true → s.running = true → s.thread = .looping
  stopped : s.joining = false → s.running = false → s.thread = .starting ∨ s.thread = .finished
  /-- The forwarder lives: it uses the active slot once it uses any, and that has the active
  profiles. -/
  live : s.joining = false → s.running = true → s.thread ≠ .finished →
    profileIds (s.cfgSlots s.activeSlot) = s.activeIds ∧
      s.fwdCfg = if s.thread = .starting then none else some s.activeSlot

theorem ok_start : start.Ok where
  slot := Nat.zero_le 1
  idle _ := ⟨rfl, rfl, .inl rfl⟩
  joining h := by cases h
  stopped _ h := by cases h
  live _ _ h := absurd rfl h

theorem Ok.running (hs : s.Ok) (hfwd : s.ForwarderRuns) :
    s.running = true ∧ s.hasThread = true ∧ s.fwdCfg = some s.activeSlot ∧
      profileIds (s.cfgSlots s.activeSlot) = s.activeIds := by
  obtain ⟨hjoin, hstart, hfin⟩ := hfwd
  have hrun : s.running = true := by
    by_contra hrun
    rcases hs.stopped hjoin (by simpa using hrun) with h | h
    · exact hstart h
    · exact hfin h
  obtain ⟨hids, hcfg⟩ := hs.live hjoin hrun hfin
  rw [if_neg hstart] at hcfg
  refine ⟨hrun, ?_, hcfg, hids⟩
  by_contra hthread
  exact hfin (hs.idle (by simpa using hthread)).1

theorem Ok.agrees (hs : s.Ok) (hfwd : s.ForwarderRuns) : s.Agrees := by
  obtain ⟨-, -, hcfg, hids⟩ := hs.running hfwd
  refine ⟨s.cfgSlots s.activeSlot, by rw [runningCfg, hcfg]; rfl, fun id => ?_⟩
  rw [hids]

theorem Ok.setIds (hs : s.Ok) {ids : List ℤ}
    (h : s.joining = false → s.running = true → s.thread ≠ .finished → ids = s.activeIds) :
    Ok { s with activeIds := ids } where
  slot := hs.slot
  idle := hs.idle
  joining := hs.joining
  stopped := hs.stopped
  live hjoin hrun hfin := by
    obtain ⟨hids, hcfg⟩ := hs.live hjoin hrun hfin
    exact ⟨hids.trans (h hjoin hrun hfin).symm, hcfg⟩

theorem Ok.congr (hs : s.Ok) (hd : s'.toDaemonState = s.toDaemonState)
    (hfwd : s'.fwdCfg = s.fwdCfg) (hslot : s'.activeSlot ≤ 1)
    (hlive : s.hasThread = true → s'.activeSlot = s.activeSlot ∧
      s'.cfgSlots s.activeSlot = s.cfgSlots s.activeSlot) : s'.Ok := by
  obtain ⟨d, slots, active, fwd⟩ := s'
  obtain rfl : d = s.toDaemonState := hd
  obtain rfl : fwd = s.fwdCfg := hfwd
  refine ⟨hslot, hs.idle, hs.joining, hs.stopped, fun hjoin hrun hfin => ?_⟩
  have hthread : s.hasThread = true := by
    by_contra hthread
    exact hfin (hs.idle (by simpa using hthread)).1
  obtain rfl : active = s.activeSlot := (hlive hthread).1
  have hkeep : slots s.activeSlot = s.cfgSlots s.activeSlot := (hlive hthread).2
  show profileIds (slots s.activeSlot) = _ ∧ _
  rw [hkeep]
  exact hs.live hjoin hrun hfin

theorem Ok.reloaded (hs : s.Ok) (hjoin : s.joining = false) {ids : List ℤ}
    (hthread : s.hasThread = true) (hne : s.fwdCfg ≠ none)
    (hd : s'.toDaemonState = { s.toDaemonState with activeIds := ids })
    (hslot : s'.activeSlot = 1 - s.activeSlot) (hfwd : s'.fwdCfg = some (1 - s.activeSlot))
    (hids : profileIds (s'.cfgSlots (1 - s.activeSlot)) = ids) : s'.Ok := by
  obtain ⟨d, slots, active, fwd⟩ := s'
  obtain rfl : d = { s.toDaemonState with activeIds := ids } := hd
  obtain rfl : active = 1 - s.activeSlot := hslot
  obtain rfl : fwd = some (1 - s.activeSlot) := hfwd
  refine ⟨Nat.sub_le 1 _, fun h => ?_, fun h => ?_, hs.stopped, fun _ hrun hfin => ⟨hids, ?_⟩⟩
  · exact absurd (hthread.symm.trans h) (by decide)
  · exact absurd (hjoin.symm.trans h) (by decide)
  · -- a forwarder that has not begun has no address
    have hstart : s.thread ≠ .starting := fun hstart => by
      have hcfg := (hs.live hjoin hrun hfin).2
      rw [if_pos hstart] at hcfg
      exact hne hcfg
    exact (if_neg hstart).symm

/-- **Applying other ids** keeps the invariant if it succeeds, and with the old ids if it fails. -/
theorem ok_applyActiveConfigs (hs : s.Ok) (hjoin : s.joining = false) (ids : List ℤ) :
    let r := { s with activeIds := ids }.applyActiveConfigs db created
    (r.1 = 0 ∧ r.2.Ok) ∨
      (r.1 = -1 ∧ r.2.toDaemonState = { s.toDaemonState with activeIds := ids } ∧
        Ok { r.2 with activeIds := s.activeIds } ∧
        (s.ForwarderRuns → r.2.runningCfg = s.runningCfg)) := by
  intro r
  rcases applyActiveConfigs_cases { s with activeIds := ids } db created with
    ⟨hval, hd, hfwd, hslot, hkeep⟩ | ⟨hthread, hval, cfg, hbuild, heq⟩ |
      ⟨hthread, hval, hne, hd, hslot, hfwd, hids⟩
  · right
    have hne : s.activeSlot ≠ 1 - s.activeSlot := by
      have := hs.slot
      omega
    refine ⟨hval, hd, hs.congr ?_ hfwd ?_ ?_, fun hfwd_runs => ?_⟩
    · exact congrArg (fun d : DaemonState => { d with activeIds := s.activeIds }) hd
    · rcases hslot with h | h
      · exact h.trans_le (Nat.zero_le 1)
      · exact h.trans_le hs.slot
    · exact fun hthread => ⟨(hkeep hthread).1, (hkeep hthread).2 _ hne⟩
    · obtain ⟨-, hthread, hcfg, -⟩ := hs.running hfwd_runs
      rw [runningCfg, runningCfg, hfwd]
      show Option.map _ s.fwdCfg = Option.map _ s.fwdCfg
      rw [hcfg]
      exact congrArg some ((hkeep hthread).2 _ hne)
  · left
    refine ⟨hval, ?_⟩
    obtain ⟨-, -, hfwd⟩ := hs.idle hthread
    rw [show r.2 = _ from heq]
    refine ⟨Nat.zero_le 1, nofun, fun h => ?_, fun _ _ => .inl rfl, fun _ hrun _ => ⟨?_, ?_⟩⟩
    · exact absurd (hjoin.symm.trans h) (by decide)
    · show profileIds (s.cfgSlots.set 0 cfg 0) = ids
      rw [Buffer.set_self, ProfileDb.build_profileIds hbuild]
    · exact hfwd.resolve_right fun h => absurd (hrun.symm.trans h) (by decide)
  · left
    exact ⟨hval, hs.reloaded hjoin hthread hne hd hslot hfwd hids⟩

/-! ## Notifications -/

theorem activeIdsRemove_concat {ids : List ℤ} {id : ℤ} (h : id ∉ ids) :
    (activeIdsRemove (ids ++ [id]) id).2 = ids := by
  have hkeep : ids.filter (fun i => i ≠ id) = ids :=
    List.filter_eq_self.mpr fun i hi => decide_eq_true fun heq => h (heq ▸ hi)
  simp only [activeIdsRemove, List.filter_append, hkeep]
  simp

/-- **Loading** takes its id back when it fails. -/
theorem ok_loadProfileAndRun (hs : s.Ok) (hjoin : s.joining = false) :
    let r := s.loadProfileAndRun n
    r.2.Ok ∧ (s.ForwarderRuns → r.1 ≠ 0 →
      r.2.activeIds = s.activeIds ∧ r.2.runningCfg = s.runningCfg) := by
  obtain ⟨s₀, hs₀, hok₀, hjoin₀, hruns₀⟩ : ∃ s₀,
      (if s.hasThread = false then { s with activeIds := [] } else s) = s₀ ∧ s₀.Ok ∧
        s₀.joining = false ∧ (s.ForwarderRuns → s₀ = s) := by
    refine ⟨_, rfl, ?_⟩
    split_ifs with hthread
    · obtain ⟨hfin, -, -⟩ := hs.idle hthread
      exact ⟨hs.setIds fun _ _ h => absurd hfin h, hjoin, fun hruns => absurd hfin hruns.2.2⟩
    · exact ⟨hs, hjoin, fun _ => rfl⟩
  simp only [loadProfileAndRun, hs₀]
  have hsame : s.ForwarderRuns → s₀.activeIds = s.activeIds ∧ s₀.runningCfg = s.runningCfg :=
    fun hruns => by rw [hruns₀ hruns]; exact ⟨rfl, rfl⟩
  unfold activeIdsAdd
  by_cases hmem : n.profileId ∈ s₀.activeIds
  · rw [if_pos hmem]
    exact ⟨hok₀, fun hruns _ => hsame hruns⟩
  by_cases hfull : maxActiveProfileIds ≤ s₀.activeIds.length
  · rw [if_neg hmem, if_pos hfull]
    exact ⟨hok₀, fun hruns _ => hsame hruns⟩
  rw [if_neg hmem, if_neg hfull]
  simp only [Int.reduceLT, one_ne_zero, if_false]
  rcases @ok_applyActiveConfigs _ n.db n.created hok₀ hjoin₀
      (s₀.activeIds ++ [n.profileId]) with ⟨hval, hok⟩ | ⟨hval, hd, hok, hcfg⟩
  · rw [if_neg (not_not.mpr hval)]
    exact ⟨hok, fun _ h => absurd rfl h⟩
  · rw [if_pos (by rw [hval]; decide)]
    have hids := congrArg DaemonState.activeIds hd
    simp only at hids
    simp only [hids, activeIdsRemove_concat hmem]
    refine ⟨hok, fun hruns _ => ⟨(hsame hruns).1, ?_⟩⟩
    have hruns' : s₀.ForwarderRuns := by rwa [hruns₀ hruns]
    exact (hcfg hruns').trans (hsame hruns).2

theorem Ok.stopForwarder (hs : s.Ok) (ids : List ℤ) :
    Ok ({ s with activeIds := ids }.runtimeStopForwarder) := by
  unfold runtimeStopForwarder NetEncryptor.runtimeStopForwarder
  split_ifs with hthread
  · exact hs.setIds fun _ _ hfin => absurd (hs.idle hthread).1 hfin
  · exact ⟨hs.slot, fun h => absurd h hthread, nofun, nofun, nofun⟩

theorem applyActiveConfigs_unload (hs : s.Ok) (hcond : UnloadAccepted s (.notify n))
    (hdb : n.inDb = false) (hmem : n.profileId ∈ s.activeIds)
    (hlast : (activeIdsRemove s.activeIds n.profileId).2 ≠ []) (hjoin : s.joining = false)
    (hrun : s.running = true) (hfin : s.thread ≠ .finished) :
    ({ s with activeIds := (activeIdsRemove s.activeIds n.profileId).2 }.applyActiveConfigs n.db
      n.created).1 = 0 := by
  obtain ⟨cfg, running, hbuild, hrunning, htop⟩ := hcond hdb hmem hlast hjoin hrun hfin
  obtain ⟨-, hfwd⟩ := hs.live hjoin hrun hfin
  have hthread : s.hasThread = true := by
    by_contra hthread
    exact hfin (hs.idle (by simpa using hthread)).1
  split_ifs at hfwd with hstart
  · rw [runningCfg, hfwd] at hrunning
    cases hrunning
  · rw [runningCfg, hfwd] at hrunning
    cases hrunning
    exact applyActiveConfigs_accepted hs.slot hthread hfwd hbuild htop

/-- **A notification** keeps the invariant, and one that fails changes neither ids nor
configuration of a forwarder that runs. -/
theorem ok_handleProfileNotify (hs : s.Ok) (hjoin : s.joining = false)
    (hcond : UnloadAccepted s (.notify n)) :
    let r := s.handleProfileNotify n
    r.2.Ok ∧ (s.ForwarderRuns → r.1 = -1 →
      r.2.activeIds = s.activeIds ∧ r.2.runningCfg = s.runningCfg) := by
  unfold handleProfileNotify
  cases hdb : n.inDb with
  | true =>
    obtain ⟨hok, hfail⟩ := ok_loadProfileAndRun (n := n) hs hjoin
    simp only [if_true]
    split_ifs with hone hzero
    · exact ⟨hok, nofun⟩
    · exact ⟨hok, fun hruns _ => hfail hruns hzero⟩
    · exact ⟨hok, nofun⟩
  | false =>
    have happly := @ok_applyActiveConfigs _ n.db n.created hs hjoin
      (activeIdsRemove s.activeIds n.profileId).2
    simp only [Bool.false_eq_true, if_false]
    split_ifs with hmem hlast hval
    · exact ⟨hs, nofun⟩
    · exact ⟨hs.stopForwarder _, nofun⟩
    · have hmem' : n.profileId ∈ s.activeIds := by simpa [activeIdsRemove] using hmem
      have hsucc := applyActiveConfigs_unload hs hcond hdb hmem' hlast hjoin
      rcases happly with ⟨hzero, -⟩ | ⟨-, hd, hok, -⟩
      · exact absurd hzero hval
      · refine ⟨?_, fun hruns _ => ?_⟩
        · refine hok.setIds fun _ hrun hfin => absurd (hsucc ?_ ?_) hval
          · exact (congrArg DaemonState.running hd).symm.trans hrun
          · exact fun h => hfin ((congrArg DaemonState.thread hd).trans h)
        · obtain ⟨hrun, -⟩ := hs.running hruns
          exact absurd (hsucc hrun hruns.2.2) hval
    · rcases happly with ⟨-, hok⟩ | ⟨hneg, -⟩
      · exact ⟨hok, nofun⟩
      · exact absurd (by rw [hneg]; decide) hval

/-! ## Runs -/

theorem Ok.finish (hs : s.Ok) (h : s.joining = true → s.running = false) :
    Ok { s with thread := .finished } where
  slot := hs.slot
  idle hthread := ⟨rfl, (hs.idle hthread).2⟩
  joining hjoin hrun := absurd ((h hjoin).symm.trans hrun) (by decide)
  stopped _ _ := .inr rfl
  live _ _ hfin := absurd rfl hfin

theorem Ok.advance (hs : s.Ok) (hrun : s.running = true) {phase : ThreadPhase}
    (hfin : s.thread ≠ .finished) (hloop : s.thread ≠ .looping)
    (hstart : s.thread = .starting → phase = .initialized) (hphase : phase ≠ .starting) :
    Ok ⟨{ s.toDaemonState with thread := phase }, s.cfgSlots, s.activeSlot,
      if phase = .initialized then some s.activeSlot else s.fwdCfg⟩ where
  slot := hs.slot
  idle hthread := absurd (hs.idle hthread).1 hfin
  joining hjoin _ := absurd (hs.joining hjoin hrun) hloop
  stopped _ h := absurd (hrun.symm.trans h) (by decide)
  live hjoin _ _ := by
    obtain ⟨hids, hfwd⟩ := hs.live hjoin hrun hfin
    refine ⟨hids, ?_⟩
    show ite _ _ _ = ite (phase = .starting) _ _
    rw [if_neg hphase]
    split_ifs with hinit
    · rfl
    · rwa [if_neg fun h => hinit (hstart h)] at hfwd

theorem ok_thread {d : DaemonState} (hs : s.Ok) (h : forwarderThreadStep s.toDaemonState = some d) :
    Ok ⟨d, s.cfgSlots, s.activeSlot,
      if d.thread = .initialized then some s.activeSlot else s.fwdCfg⟩ := by
  unfold forwarderThreadStep forwarderShouldStop at h
  cases hphase : s.thread with
  | starting | initialized | entering =>
    rw [hphase] at h
    simp only at h
    cases hrun : s.running with
    | false =>
      rw [if_pos (show (!s.running) = true by rw [hrun]; rfl)] at h
      cases h
      exact hs.finish fun _ => hrun
    | true =>
      rw [if_neg (show ¬ (!s.running) = true by rw [hrun]; decide)] at h
      cases h
      refine hs.advance hrun ?_ ?_ ?_ ?_
      all_goals simp [hphase]
  | entered =>
    rw [hphase] at h
    cases h
    have hfin : s.thread ≠ .finished := by rw [hphase]; decide
    have hstart : s.thread ≠ .starting := by rw [hphase]; decide
    refine ⟨hs.slot, fun h => absurd (hs.idle h).1 hfin, fun _ _ => rfl, nofun, fun hjoin _ _ => ?_⟩
    exact ⟨(hs.running ⟨hjoin, hstart, hfin⟩).2.2.2, (hs.running ⟨hjoin, hstart, hfin⟩).2.2.1⟩
  | looping =>
    rw [hphase] at h
    simp only at h
    split_ifs at h with hrun
    cases h
    exact hs.finish fun _ => by simpa using hrun
  | finished =>
    rw [hphase] at h
    cases h

/-- **One step** that meets the condition keeps the invariant. -/
theorem ok_step {a : RuntimeAction} (hs : s.Ok) (hcond : UnloadAccepted s a)
    (h : runtimeStep s a = some s') : s'.Ok := by
  cases a with
  | notify n =>
    simp only [runtimeStep] at h
    split_ifs at h with hjoin
    cases h
    exact (ok_handleProfileNotify hs (by simpa using hjoin) hcond).1
  | thread =>
    simp only [runtimeStep] at h
    split at h
    · cases h
    rename_i d hd
    cases h
    exact ok_thread hs hd
  | initFails =>
    simp only [runtimeStep] at h
    split_ifs at h with hinit
    cases h
    refine hs.finish fun hjoin => ?_
    by_contra hrun
    have := hs.joining hjoin (by simpa using hrun)
    rw [hinit] at this
    cases this
  | learn cfg =>
    simp only [runtimeStep] at h
    split at h
    · cases h
    rename_i slot hslot
    split_ifs at h with hcfg
    cases h
    refine ⟨hs.slot, hs.idle, hs.joining, hs.stopped, fun hjoin hrun hfin => ?_⟩
    obtain ⟨hids, hfwd⟩ := hs.live hjoin hrun hfin
    refine ⟨?_, hfwd⟩
    show profileIds (s.cfgSlots.set slot cfg s.activeSlot) = s.activeIds
    by_cases hactive : s.activeSlot = slot
    · rw [hactive, Buffer.set_self, profileIds, hcfg.1, ← hactive]
      exact hids
    · rw [Buffer.set_of_ne hactive]
      exact hids
  | join =>
    simp only [runtimeStep] at h
    split_ifs at h with hj
    cases h
    have hrun : s.running = false := by
      by_contra hrun
      have := hs.joining hj.1 (by simpa using hrun)
      rw [hj.2] at this
      cases this
    exact ⟨hs.slot, fun _ => ⟨hj.2, rfl, .inr hrun⟩, nofun, fun _ _ => .inr hj.2,
      fun _ _ hfin => absurd hj.2 hfin⟩

/-- **Active profiles.** In a run in which no unload is refused, a forwarder that runs uses the
active profiles before and after every notification, and a notification that fails changes
nothing. -/
theorem activeIds_agree {as : List RuntimeAction}
    (hmeet : Runs.StepsMeet runtimeStep UnloadAccepted start (as ++ [.notify n]))
    (hrun : Runs.run runtimeStep start as = some s) (hfwd : s.ForwarderRuns) :
    let r := s.handleProfileNotify n
    s.Agrees ∧ (r.2.ForwarderRuns → r.2.Agrees) ∧
      (r.1 = -1 → r.2.activeIds = s.activeIds ∧ r.2.runningCfg = s.runningCfg) := by
  obtain ⟨hbefore, hcond⟩ := hmeet.of_concat hrun
  have hs : s.Ok := Runs.invariant (fun _ _ _ hs => ok_step hs) ok_start hbefore hrun
  obtain ⟨hok, hfail⟩ := ok_handleProfileNotify hs hfwd.1 hcond
  exact ⟨hs.agrees hfwd, hok.agrees, hfail hfwd⟩

end

/-! ## Two profiles -/

/-- A database with a profile for every id, without policies. -/
def sampleDb (lan : ℤ → List String) : ProfileDb := fun id =>
  some ⟨⟨id, "p", lan id, [⟨"wan0", 0, 1⟩], []⟩, rfl⟩

/-- Two profiles are loaded, and the forwarder gets to its loops in between. -/
def loadTwoRun (db : ProfileDb) : List RuntimeAction :=
  [.notify ⟨1, true, db, true⟩, .thread, .thread, .thread, .thread, .notify ⟨2, true, db, true⟩]

def loadTwoState (db : ProfileDb) : RuntimeState :=
  (Runs.run runtimeStep start (loadTwoRun db)).getD start

/-- The first profile is gone. -/
def unloadFirst (db : ProfileDb) : ProfileNotify := ⟨1, false, db, true⟩

def sameLanDb : ProfileDb := sampleDb fun _ => ["lan0"]

def moreLanDb : ProfileDb := sampleDb fun id => if id = 1 then ["lan0", "lan1"] else ["lan0"]

theorem activeIds_agree_sameLan :
    let r := (loadTwoState sameLanDb).handleProfileNotify (unloadFirst sameLanDb)
    r.1 = 0 ∧ r.2.activeIds = [2] ∧ r.2.Agrees := by
  have hrun : Runs.run runtimeStep start (loadTwoRun sameLanDb) = some (loadTwoState sameLanDb) := by
    rfl
  have hload : Runs.StepsMeet runtimeStep UnloadAccepted start (loadTwoRun sameLanDb) :=
    ⟨nofun, fun _ _ => ⟨trivial, fun _ _ => ⟨trivial, fun _ _ => ⟨trivial, fun _ _ => ⟨trivial,
      fun _ _ => ⟨nofun, fun _ _ => trivial⟩⟩⟩⟩⟩⟩
  have haccept : UnloadAccepted (loadTwoState sameLanDb) (.notify (unloadFirst sameLanDb)) :=
    fun _ _ _ _ _ _ => ⟨_, _, rfl, rfl, by decide⟩
  have hmeet := hload.concat hrun haccept
  have hfwd : (loadTwoState sameLanDb).ForwarderRuns := ⟨rfl, nofun, nofun⟩
  exact ⟨rfl, rfl, (activeIds_agree hmeet hrun hfwd).2.1 ⟨rfl, nofun, nofun⟩⟩

/-- The interfaces of the second profile alone are not those of the running configuration. -/
theorem not_activeIds_agree_moreLan :
    let s := loadTwoState moreLanDb
    let r := s.handleProfileNotify (unloadFirst moreLanDb)
    Runs.run runtimeStep start (loadTwoRun moreLanDb) = some s ∧ s.ForwarderRuns ∧
      r.1 = -1 ∧ r.2.activeIds = [2] ∧ r.2.runningCfg.map profileIds = some [1, 2] ∧
      s.activeIds = [1, 2] ∧ ¬ r.2.Agrees := by
  refine ⟨rfl, ⟨rfl, nofun, nofun⟩, rfl, rfl, rfl, rfl, ?_⟩
  rintro ⟨cfg, hcfg, hids⟩
  cases hcfg
  exact absurd ((hids 1).mpr (by decide)) (by decide)

end RuntimeState

end NetEncryptor

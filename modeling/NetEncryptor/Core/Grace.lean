import NetEncryptor.Base.Runs
import NetEncryptor.Core.Reload

/-!
# The grace period

The tables of the previous policies and the time until which `crypto_dispatch.c` uses them.
`forwarder_init` copies the active tables there before it rebuilds them; `forwarder_reload_config`
rebuilds them too, but copies nothing.

`reload_opensGrace_iff` says when a reload opens the grace period all the same, and
`not_opensGrace_of_run` that it never does in a process that fills its tables once.
-/

namespace NetEncryptor

def policyReloadGraceMs : ℕ := 60000

/-- The forwarder, the tables `g_prev_policy_crypto_ctx`, `g_prev_policy_crypto_ctx_ready`,
`g_prev_policy_index_by_action_id` and `g_prev_policies` with their count, and
`g_prev_policy_grace_until_ms`. -/
structure GraceState where
  fwd : Forwarder
  prev : PolicyRuntime
  graceUntilMs : ℕ

/-- `now` is what `monotonic_ms` returned. -/
def prevPolicyGraceActive (s : GraceState) (now : ℕ) : Prop :=
  s.prev.active ≠ [] ∧ now ≠ 0 ∧ s.graceUntilMs ≠ 0 ∧ now ≤ s.graceUntilMs

instance (s : GraceState) (now : ℕ) : Decidable (prevPolicyGraceActive s now) :=
  inferInstanceAs (Decidable (_ ∧ _))

section

variable (hmac : Hmac) (getCtx : ℕ → Bool)

/-- Copy the active tables to the previous ones; without an active policy these are emptied. -/
def snapshotPolicies (s : GraceState) (now : ℕ) : GraceState :=
  if s.fwd.runtime.active ≠ [] then
    { s with prev := s.fwd.runtime, graceUntilMs := now + policyReloadGraceMs }
  else
    { s with
      prev :=
        { s.prev with
          ready := fun _ => false
          indexByActionId := fun _ _ => none
          active := [] }
      graceUntilMs := 0 }

/-- What `forwarder_init` does to the policy tables.  `baseOk` says whether `packet_crypto_init`
returned `0` for the base context. -/
def initPolicyTables (s : GraceState) (cfg : AppConfig) (now : ℕ) (baseOk : Bool) : GraceState :=
  let cfg := setQueueCounts cfg
  let s :=
    { s with
      fwd :=
        { s.fwd with
          cfg := cfg
          cryptoEnabled := cfg.cryptoEnabled
          cryptoLayer := cfg.encryptLayer } }
  if cfg.cryptoEnabled = false then
    { s with fwd := { s.fwd with runtime := { s.fwd.runtime with active := [] } } }
  else
    let s := snapshotPolicies s now
    if baseOk = false then s
    else
      let r := rebuildCryptoRuntime hmac getCtx s.fwd.runtime cfg.policies
      { s with fwd := { s.fwd with runtime := r.runtime, encryptLayer := cfg.encryptLayer } }

/-- `forwarder_reload_config`, with the previous tables; `none` stands for `-1`. -/
def reloadConfig (s : GraceState) (cfg : AppConfig) : Option GraceState :=
  (forwarderReloadConfig hmac getCtx s.fwd cfg).map fun fwd => { s with fwd := fwd }

end

/-! ## A reload -/

/-- The arrays of two tables hold the same. -/
def SameTables (a b : PolicyRuntime) : Prop :=
  (∀ pi < maxCryptoPolicies, a.ctx pi = b.ctx pi ∧ a.ready pi = b.ready pi) ∧
    (∀ action, 0 ≤ action → action ≤ actionEncryptL4 → ∀ policyId,
      a.indexByActionId action policyId = b.indexByActionId action policyId) ∧
    a.active = b.active

/-- For the whole grace period after a reload at `now` the previous policies are used, and their
tables are the ones that were active before it. -/
def OpensGrace (s s' : GraceState) (now : ℕ) : Prop :=
  ∀ t, now ≤ t → t ≤ now + policyReloadGraceMs →
    prevPolicyGraceActive s' t ∧ SameTables s'.prev s.fwd.runtime

/-- The new configuration does not have some encrypting policy that was ready. -/
def LosesPolicy (s : GraceState) (cfg : AppConfig) : Prop :=
  ∃ pi cp, s.fwd.runtime.active[pi]? = some cp ∧ s.fwd.runtime.ready pi = true ∧ cp.Encrypts ∧
    ∀ cp' ∈ cfg.policies, ¬ sameCryptoPolicy cp cp'

section

variable {hmac : Hmac} {getCtx : ℕ → Bool} {s s' : GraceState} {cfg : AppConfig} {now : ℕ}

theorem reloadConfig_prev (h : reloadConfig hmac getCtx s cfg = some s') :
    s'.prev = s.prev ∧ s'.graceUntilMs = s.graceUntilMs := by
  obtain ⟨fwd, -, rfl⟩ := Option.map_eq_some_iff.mp h
  exact ⟨rfl, rfl⟩

/-- **A reload and the grace period.** A reload that drops a policy opens the grace period exactly
when the previous tables already were the active ones and stay in use as long. -/
theorem reload_opensGrace_iff (hlost : LosesPolicy s cfg)
    (h : reloadConfig hmac getCtx s cfg = some s') :
    OpensGrace s s' now ↔ SameTables s.prev s.fwd.runtime ∧ 0 < now ∧
      now + policyReloadGraceMs ≤ s.graceUntilMs := by
  obtain ⟨hprev, huntil⟩ := reloadConfig_prev h
  have hactive : s.fwd.runtime.active ≠ [] := by
    obtain ⟨pi, cp, hcp, -⟩ := hlost
    intro hnil
    rw [hnil] at hcp
    cases hcp
  unfold OpensGrace prevPolicyGraceActive
  rw [hprev, huntil]
  constructor
  · intro hopen
    obtain ⟨⟨-, hpos, -⟩, hsame⟩ := hopen now le_rfl (by omega)
    obtain ⟨⟨-, -, -, hlast⟩, -⟩ := hopen (now + policyReloadGraceMs) (by omega) le_rfl
    exact ⟨hsame, by omega, hlast⟩
  · rintro ⟨hsame, hpos, hlast⟩ t ht ht'
    have hprevActive : s.prev.active ≠ [] := by rw [hsame.2.2]; exact hactive
    exact ⟨⟨hprevActive, by omega, by omega, by omega⟩, hsame⟩

end

/-- The sample forwarder, whose previous tables are its active ones until the given time. -/
def coveredState (untilMs : ℕ) : GraceState :=
  let fwd := sampleForwarder (Key.repeated 1)
  ⟨fwd, fwd.runtime, untilMs⟩

/-- The sample configuration with another key. -/
def rekeyedConfig : AppConfig := sampleL3Config (Key.repeated 2)

theorem losesPolicy_rekeyed {s : GraceState}
    (hactive : s.fwd.runtime.active = (sampleL3Config (Key.repeated 1)).policies)
    (hready : s.fwd.runtime.ready 0 = true) : LosesPolicy s rekeyedConfig := by
  refine ⟨0, _, by rw [hactive]; rfl, hready, by decide, fun cp' hcp' => ?_⟩
  obtain rfl := List.mem_singleton.mp hcp'
  decide

theorem opensGrace_covered :
    ∃ s', reloadConfig (fun _ _ => Key.zero) (fun _ => true) (coveredState 100000) rekeyedConfig =
      some s' ∧ OpensGrace (coveredState 100000) s' 1000 := by
  have hlost : LosesPolicy (coveredState 100000) rekeyedConfig := losesPolicy_rekeyed rfl rfl
  obtain ⟨s', hs'⟩ : ∃ s', reloadConfig (fun _ _ => Key.zero) (fun _ => true) (coveredState 100000)
      rekeyedConfig = some s' := ⟨_, rfl⟩
  refine ⟨s', hs', (reload_opensGrace_iff hlost hs').mpr ⟨⟨?_, ?_, rfl⟩, by decide, by decide⟩⟩
  · exact fun pi _ => ⟨rfl, rfl⟩
  · exact fun action _ _ policyId => rfl

/-- The zeroed statics of the process, with a forwarder that has not been initialised. -/
def GraceState.start : GraceState :=
  ⟨{ sampleForwarder Key.zero with cfg := AppConfig.empty, runtime := PolicyRuntime.start },
    PolicyRuntime.start, 0⟩

/-- A process starts with one policy and reloads it with another key: the old key is gone at once. -/
theorem not_opensGrace_rekeyed :
    let s := initPolicyTables (fun _ _ => Key.zero) (fun _ => true) GraceState.start
      (sampleL3Config (Key.repeated 1)) 1000 true
    s.fwd.cryptoEnabled = true ∧ LosesPolicy s rekeyedConfig ∧
      ∃ s', reloadConfig (fun _ _ => Key.zero) (fun _ => true) s rekeyedConfig = some s' ∧
        ¬ OpensGrace s s' 5000 := by
  refine ⟨rfl, losesPolicy_rekeyed rfl rfl, _, rfl, fun h => ?_⟩
  have hinactive := (h 5000 le_rfl (by decide)).1.1
  exact hinactive rfl

/-! ## Runs -/

/-- What happens to the tables: `forwarder_init` or a reload. -/
inductive TableAction
  | init (cfg : AppConfig) (now : ℕ) (baseOk : Bool)
  | reload (cfg : AppConfig)

section

variable (hmac : Hmac) (getCtx : ℕ → Bool)

/-- A reload that fails changes nothing. -/
def tableStep (s : GraceState) : TableAction → Option GraceState
  | .init cfg now baseOk => some (initPolicyTables hmac getCtx s cfg now baseOk)
  | .reload cfg => some ((reloadConfig hmac getCtx s cfg).getD s)

/-- The tables are not initialised while a policy is active. -/
def InitsInactive (s : GraceState) : TableAction → Prop
  | .init _ _ _ => s.fwd.runtime.active = []
  | .reload _ => True

end

section

variable {hmac : Hmac} {getCtx : ℕ → Bool}

theorem tableStep_prev {s s' : GraceState} {a : TableAction} (hs : s.prev.active = [])
    (ha : InitsInactive s a) (h : tableStep hmac getCtx s a = some s') : s'.prev.active = [] := by
  cases a with
  | init cfg now baseOk =>
    cases h
    have hsnap : ∀ s₀ : GraceState, s₀.fwd.runtime.active = [] →
        (snapshotPolicies s₀ now).prev.active = [] := fun s₀ h₀ => by
      unfold snapshotPolicies
      rw [if_neg (not_not.mpr h₀)]
    unfold initPolicyTables
    simp only
    split_ifs
    · exact hs
    · exact hsnap _ ha
    · exact hsnap _ ha
  | reload cfg =>
    cases h
    cases hr : reloadConfig hmac getCtx s cfg with
    | none => exact hs
    | some s' =>
      show s'.prev.active = []
      rw [(reloadConfig_prev hr).1]
      exact hs

/-- **Runs without a grace period.** In a process that fills its tables only while no policy is active
no reload opens the grace period. -/
theorem not_opensGrace_of_run {s t t' : GraceState} {as : List TableAction} {cfg : AppConfig}
    {now : ℕ} (hs : s.prev.active = [])
    (hmeet : Runs.StepsMeet (tableStep hmac getCtx) InitsInactive s as)
    (hrun : Runs.run (tableStep hmac getCtx) s as = some t)
    (h : reloadConfig hmac getCtx t cfg = some t') : ¬ OpensGrace t t' now := by
  have ht : t.prev.active = [] :=
    Runs.invariant (fun _ _ _ hs ha hstep => tableStep_prev hs ha hstep) hs hmeet hrun
  intro hopen
  obtain ⟨⟨hactive, -⟩, -⟩ := hopen now le_rfl (by omega)
  rw [(reloadConfig_prev h).1] at hactive
  exact hactive ht

end

end NetEncryptor

import NetEncryptor.Db.Load

/-!
# Merging the profiles

`build_merged_config` loads the active profiles one after the other into one configuration.
Interfaces of one name become one; every policy is appended, with its wire id if that is unused so
far, and else with the lowest id that is.
-/

namespace NetEncryptor

/-- Append if the name is new and there is room; the index of the interface. -/
def appendLocalUnique (dst : AppConfig) (loc : LocalConfig) : Option (ℕ × AppConfig) :=
  match dst.locals.findIdx? fun l => l.ifname == loc.ifname with
  | some idx => some (idx, dst)
  | none =>
    if maxInterfaces ≤ dst.locals.length then none
    else some (dst.locals.length, { dst with locals := dst.locals ++ [loc] })

/-- Append if the name is new and there is room; the index of the interface. -/
def appendWanUnique (dst : AppConfig) (wan : WanConfig) : Option (ℕ × AppConfig) :=
  match dst.wans.findIdx? fun w => w.ifname == wan.ifname with
  | some idx => some (idx, dst)
  | none =>
    if maxInterfaces ≤ dst.wans.length then none
    else some (dst.wans.length, { dst with wans := dst.wans ++ [wan] })

/-- The `used` of `collect_used_wire_ids`, for ids from `1` to `255`. -/
def usedWireIds (policies : List CryptoPolicy) (wireId : ℕ) : Bool :=
  policies.any fun cp => cp.id == (wireId : ℤ)

/-- The policy under the id that it gets beside the others; `none` when there is no room. -/
def uniquePolicy (policies : List CryptoPolicy) (cp : CryptoPolicy) : Option CryptoPolicy :=
  if maxCryptoPolicies ≤ policies.length then none
  else (IdPool.claim 255 (usedWireIds policies) cp.id).map fun id : ℕ => { cp with id := (id : ℤ) }

def appendPolicyUnique (dst : AppConfig) (cp : CryptoPolicy) : Option (ℕ × AppConfig) :=
  match uniquePolicy dst.policies cp with
  | none => none
  | some cp => some (dst.policies.length, { dst with policies := dst.policies ++ [cp] })

/-- Append one after the other; the indices that they got. -/
def appendAll {α : Type} (append : AppConfig → α → Option (ℕ × AppConfig)) :
    AppConfig → List α → Option (List ℕ × AppConfig)
  | dst, [] => some ([], dst)
  | dst, x :: xs =>
    match append dst x with
    | none => none
    | some (idx, dst) =>
      match appendAll append dst xs with
      | none => none
      | some (idxs, dst) => some (idx :: idxs, dst)

/-- A profile with its indices renamed; an index that is out of range is left out. -/
def mergeProfile (localMap wanMap policyMap : List ℕ) (sp : ProfileConfig) : ProfileConfig where
  id := sp.id
  name := boundedName profileNameLen sp.name
  enabled := sp.enabled
  localIndices := (sp.localIndices.filterMap fun i =>
    (atIndex? localMap i).map Int.ofNat).take maxProfileInterfaces
  wanIndices := (sp.wanIndices.filterMap fun w =>
    (atIndex? wanMap w.1).map fun wi => (Int.ofNat wi, w.2)).take maxProfileInterfaces
  policyIndices := ((sp.policyIndices.take maxCryptoPolicies).filterMap fun i =>
    (atIndex? policyMap i).map Int.ofNat).take maxCryptoPolicies

/-- `none` stands for `-1`. -/
def mergeOneConfig (dst src : AppConfig) : Option AppConfig :=
  match appendAll appendLocalUnique dst src.locals with
  | none => none
  | some (localMap, dst) =>
    match appendAll appendWanUnique dst src.wans with
    | none => none
    | some (wanMap, dst) =>
      match appendAll appendPolicyUnique dst src.policies with
      | none => none
      | some (policyMap, dst) =>
        if maxProfiles < dst.profiles.length + src.profiles.length then none
        else some { dst with
          profiles := dst.profiles ++ src.profiles.map (mergeProfile localMap wanMap policyMap) }

/-- The loop over the active profiles. -/
def mergeProfiles : AppConfig → List ProfileRows → Option AppConfig
  | merged, [] => some merged
  | merged, rows :: rest =>
    match configLoadFromDb rows with
    | none => none
    | some tmp =>
      match mergeOneConfig merged tmp with
      | none => none
      | some merged => mergeProfiles merged rest

/-- The crypto settings of the merged configuration, from its first policy. -/
def mergedCrypto (merged : AppConfig) : AppConfig :=
  match merged.policies with
  | [] => { merged with cryptoEnabled := false }
  | cp :: _ =>
    { merged with
      cryptoEnabled := true
      encryptLayer := 3
      fakeProtocol := 99
      fakeEthertypeIpv4 := 0x88b5
      cryptoMode := cp.cryptoMode
      aesBits := cp.aesBits
      nonceSize := cp.nonceSize
      cryptoKey := cp.key }

/-- `none` stands for `-1`; the ids are given by what the database has for them. -/
def buildMergedConfig (profiles : List ProfileRows) : Option AppConfig :=
  match mergeProfiles AppConfig.start profiles with
  | none => none
  | some merged =>
    let merged := mergedCrypto merged
    if configValidate merged then some merged else none

/-! ## The policies of the merged configuration -/

/-- The policies appended one after the other. -/
def appendPolicies : List CryptoPolicy → List CryptoPolicy → Option (List CryptoPolicy)
  | policies, [] => some policies
  | policies, cp :: cps =>
    match uniquePolicy policies cp with
    | none => none
    | some cp => appendPolicies (policies ++ [cp]) cps

def loadedPolicies : List ProfileRows → Option (List CryptoPolicy)
  | [] => some []
  | rows :: rest =>
    match loadPolicyRows WireIds.start [] rows.policies with
    | none => none
    | some cps => (loadedPolicies rest).map (cps ++ ·)

section

variable {dst dst' src cfg : AppConfig}

theorem appendAll_cons {α : Type} {append : AppConfig → α → Option (ℕ × AppConfig)} {x : α}
    {xs : List α} {idxs : List ℕ} (h : appendAll append dst (x :: xs) = some (idxs, dst')) :
    ∃ idx dst₁ idxs₁, append dst x = some (idx, dst₁) ∧
      appendAll append dst₁ xs = some (idxs₁, dst') ∧ idxs = idx :: idxs₁ := by
  rw [appendAll] at h
  split at h
  · cases h
  rename_i idx dst₁ happend
  split at h
  · cases h
  rename_i idxs₁ dst₂ hrest
  cases h
  exact ⟨idx, dst₁, idxs₁, happend, hrest, rfl⟩

theorem appendAll_invariant {α : Type} {append : AppConfig → α → Option (ℕ × AppConfig)}
    {I : AppConfig → Prop}
    (hstep : ∀ dst x idx dst', I dst → append dst x = some (idx, dst') → I dst') :
    ∀ {xs : List α} {dst dst' : AppConfig} {idxs : List ℕ},
      I dst → appendAll append dst xs = some (idxs, dst') → I dst' := by
  intro xs
  induction xs with
  | nil =>
    intro dst dst' idxs hdst h
    cases h
    exact hdst
  | cons x xs ih =>
    intro dst dst' idxs hdst h
    obtain ⟨idx, dst₁, idxs₁, happend, hrest, -⟩ := appendAll_cons h
    exact ih (hstep _ _ _ _ hdst happend) hrest

theorem appendAll_preserves {α β : Type} {append : AppConfig → α → Option (ℕ × AppConfig)}
    {view : AppConfig → β}
    (hstep : ∀ dst x idx dst', append dst x = some (idx, dst') → view dst' = view dst)
    {xs : List α} {idxs : List ℕ} (h : appendAll append dst xs = some (idxs, dst')) :
    view dst' = view dst := by
  refine @appendAll_invariant _ append (fun d => view d = view dst) ?_ _ _ _ _ rfl h
  intro d x idx d' hd happend
  exact (hstep _ _ _ _ happend).trans hd

theorem appendLocalUnique_cases {loc : LocalConfig} {idx : ℕ}
    (h : appendLocalUnique dst loc = some (idx, dst')) :
    (dst.locals.findIdx? (fun l => l.ifname == loc.ifname) = some idx ∧ dst' = dst) ∨
      (dst.locals.findIdx? (fun l => l.ifname == loc.ifname) = none ∧ idx = dst.locals.length ∧
        dst' = { dst with locals := dst.locals ++ [loc] }) := by
  unfold appendLocalUnique at h
  split at h
  · rename_i i hi
    cases h
    exact .inl ⟨hi, rfl⟩
  · rename_i hnone
    split_ifs at h
    cases h
    exact .inr ⟨hnone, rfl, rfl⟩

theorem appendWanUnique_cases {wan : WanConfig} {idx : ℕ}
    (h : appendWanUnique dst wan = some (idx, dst')) :
    (dst.wans.findIdx? (fun w => w.ifname == wan.ifname) = some idx ∧ dst' = dst) ∨
      (dst.wans.findIdx? (fun w => w.ifname == wan.ifname) = none ∧ idx = dst.wans.length ∧
        dst' = { dst with wans := dst.wans ++ [wan] }) := by
  unfold appendWanUnique at h
  split at h
  · rename_i i hi
    cases h
    exact .inl ⟨hi, rfl⟩
  · rename_i hnone
    split_ifs at h
    cases h
    exact .inr ⟨hnone, rfl, rfl⟩

theorem appendPolicyUnique_eq_some {cp : CryptoPolicy} {idx : ℕ}
    (h : appendPolicyUnique dst cp = some (idx, dst')) :
    ∃ cp', uniquePolicy dst.policies cp = some cp' ∧ idx = dst.policies.length ∧
      dst' = { dst with policies := dst.policies ++ [cp'] } := by
  unfold appendPolicyUnique at h
  split at h
  · cases h
  · rename_i cp' hcp
    cases h
    exact ⟨cp', hcp, rfl, rfl⟩

theorem appendLocalUnique_frame {loc : LocalConfig} {idx : ℕ}
    (h : appendLocalUnique dst loc = some (idx, dst')) :
    { dst' with locals := [] } = { dst with locals := [] } := by
  obtain ⟨-, rfl⟩ | ⟨-, -, rfl⟩ := appendLocalUnique_cases h
  · rfl
  · rfl

theorem appendWanUnique_frame {wan : WanConfig} {idx : ℕ}
    (h : appendWanUnique dst wan = some (idx, dst')) :
    { dst' with wans := [] } = { dst with wans := [] } := by
  obtain ⟨-, rfl⟩ | ⟨-, -, rfl⟩ := appendWanUnique_cases h
  · rfl
  · rfl

theorem appendPolicyUnique_frame {cp : CryptoPolicy} {idx : ℕ}
    (h : appendPolicyUnique dst cp = some (idx, dst')) :
    { dst' with policies := [] } = { dst with policies := [] } := by
  obtain ⟨cp', -, -, rfl⟩ := appendPolicyUnique_eq_some h
  rfl

theorem appendAll_policies : ∀ {cps : List CryptoPolicy} {dst dst' : AppConfig} {idxs : List ℕ},
    appendAll appendPolicyUnique dst cps = some (idxs, dst') →
      appendPolicies dst.policies cps = some dst'.policies := by
  intro cps
  induction cps with
  | nil =>
    intro dst dst' idxs h
    cases h
    rfl
  | cons cp cps ih =>
    intro dst dst' idxs h
    obtain ⟨idx, dst₁, idxs₁, happend, hrest, -⟩ := appendAll_cons h
    obtain ⟨cp', hcp, -, rfl⟩ := appendPolicyUnique_eq_some happend
    rw [appendPolicies, hcp]
    exact ih hrest

/-- Merging appends the policies of the source, and its interfaces only if they are new. -/
theorem mergeOneConfig_eq_some (h : mergeOneConfig dst src = some cfg) :
    appendPolicies dst.policies src.policies = some cfg.policies ∧
      ∃ idxs dst₁, appendAll appendLocalUnique dst src.locals = some (idxs, dst₁) ∧
        cfg.locals = dst₁.locals := by
  unfold mergeOneConfig at h
  split at h
  · cases h
  rename_i localMap dst₁ hlocal
  split at h
  · cases h
  rename_i wanMap dst₂ hwan
  split at h
  · cases h
  rename_i policyMap dst₃ hpolicy
  split_ifs at h
  cases h
  have hf₁ := appendAll_preserves (fun _ _ _ _ => appendLocalUnique_frame) hlocal
  have hf₂ := appendAll_preserves (fun _ _ _ _ => appendWanUnique_frame) hwan
  have hf₃ := appendAll_preserves (fun _ _ _ _ => appendPolicyUnique_frame) hpolicy
  have hp₁ : dst₁.policies = dst.policies := (congrArg AppConfig.policies hf₁ :)
  have hp₂ : dst₂.policies = dst₁.policies := (congrArg AppConfig.policies hf₂ :)
  have hl₂ : dst₂.locals = dst₁.locals := (congrArg AppConfig.locals hf₂ :)
  have hl₃ : dst₃.locals = dst₂.locals := (congrArg AppConfig.locals hf₃ :)
  have hp₃ := appendAll_policies hpolicy
  rw [hp₂, hp₁] at hp₃
  exact ⟨hp₃, localMap, dst₁, hlocal, hl₃.trans hl₂⟩

theorem appendPolicies_append {policies cps cps' : List CryptoPolicy} :
    appendPolicies policies (cps ++ cps') =
      (appendPolicies policies cps).bind fun policies => appendPolicies policies cps' := by
  induction cps generalizing policies with
  | nil => rfl
  | cons cp cps ih =>
    rw [List.cons_append, appendPolicies, appendPolicies]
    split
    · rfl
    · exact ih

theorem mergeProfiles_policies : ∀ {profiles : List ProfileRows} {dst cfg : AppConfig},
    mergeProfiles dst profiles = some cfg → ∃ loaded, loadedPolicies profiles = some loaded ∧
      appendPolicies dst.policies loaded = some cfg.policies := by
  intro profiles
  induction profiles with
  | nil =>
    intro dst cfg h
    cases h
    exact ⟨[], rfl, rfl⟩
  | cons rows rest ih =>
    intro dst cfg h
    rw [mergeProfiles] at h
    split at h
    · cases h
    rename_i tmp htmp
    split at h
    · cases h
    rename_i merged hmerged
    obtain ⟨loaded, hloaded, happend⟩ := ih h
    obtain ⟨hrows, -⟩ := configLoadFromDb_eq_some htmp
    refine ⟨tmp.policies ++ loaded, ?_, ?_⟩
    · rw [loadedPolicies, hrows, hloaded]
      rfl
    · rw [appendPolicies_append, (mergeOneConfig_eq_some hmerged).1]
      exact happend

theorem mergedCrypto_frame (merged : AppConfig) :
    (mergedCrypto merged).policies = merged.policies ∧
      (mergedCrypto merged).locals = merged.locals := by
  unfold mergedCrypto
  split
  · exact ⟨rfl, rfl⟩
  · exact ⟨rfl, rfl⟩

/-- **The policies of the merged configuration** are those that the profiles are loaded with,
appended one after the other. -/
theorem buildMergedConfig_policies {profiles : List ProfileRows}
    (h : buildMergedConfig profiles = some cfg) : ∃ loaded, loadedPolicies profiles = some loaded ∧
      appendPolicies [] loaded = some cfg.policies := by
  simp only [buildMergedConfig] at h
  split at h
  · cases h
  rename_i merged hmerged
  split_ifs at h
  cases h
  rw [(mergedCrypto_frame merged).1]
  exact mergeProfiles_policies hmerged

/-! ## The interfaces of the merged configuration -/

/-- Nothing has been learned about a LAN interface. -/
def LocalConfig.Unlearned (loc : LocalConfig) : Prop :=
  loc.ip = 0 ∧ loc.netmask = 0 ∧ loc.network = 0 ∧ loc.dstMac = Mac.zero

theorem appendLocalUnique_unlearned {loc : LocalConfig} {idx : ℕ} (hloc : loc.Unlearned)
    (hdst : ∀ l ∈ dst.locals, l.Unlearned) (h : appendLocalUnique dst loc = some (idx, dst')) :
    dst'.locals ≠ [] ∧ ∀ l ∈ dst'.locals, l.Unlearned := by
  obtain ⟨hidx, rfl⟩ | ⟨-, -, rfl⟩ := appendLocalUnique_cases h
  · refine ⟨fun hnil => ?_, hdst⟩
    rw [hnil] at hidx
    cases hidx
  · refine ⟨by simp, fun l hl => ?_⟩
    rcases List.mem_append.mp hl with hl | hl
    · exact hdst l hl
    · exact List.mem_singleton.mp hl ▸ hloc

theorem appendAll_unlearned : ∀ {locs : List LocalConfig} {dst dst' : AppConfig} {idxs : List ℕ},
    (∀ l ∈ locs, l.Unlearned) → (∀ l ∈ dst.locals, l.Unlearned) →
      appendAll appendLocalUnique dst locs = some (idxs, dst') →
        (locs ≠ [] ∨ dst.locals ≠ [] → dst'.locals ≠ []) ∧ ∀ l ∈ dst'.locals, l.Unlearned := by
  intro locs
  induction locs with
  | nil =>
    intro dst dst' idxs _ hdst h
    cases h
    exact ⟨fun hor => hor.resolve_left (by simp), hdst⟩
  | cons loc locs ih =>
    intro dst dst' idxs hlocs hdst h
    obtain ⟨idx, dst₁, idxs₁, happend, hrest, -⟩ := appendAll_cons h
    obtain ⟨hne, hdst₁⟩ := appendLocalUnique_unlearned (hlocs loc (by simp)) hdst happend
    obtain ⟨hne', hall⟩ := ih (fun l hl => hlocs l (by simp [hl])) hdst₁ hrest
    exact ⟨fun _ => hne' (.inr hne), hall⟩

theorem mergeProfiles_unlearned : ∀ {profiles : List ProfileRows} {dst cfg : AppConfig},
    (∀ l ∈ dst.locals, l.Unlearned) → mergeProfiles dst profiles = some cfg →
      (profiles ≠ [] ∨ dst.locals ≠ [] → cfg.locals ≠ []) ∧ ∀ l ∈ cfg.locals, l.Unlearned := by
  intro profiles
  induction profiles with
  | nil =>
    intro dst cfg hdst h
    cases h
    exact ⟨fun hor => hor.resolve_left (by simp), hdst⟩
  | cons rows rest ih =>
    intro dst cfg hdst h
    rw [mergeProfiles] at h
    split at h
    · cases h
    rename_i tmp htmp
    split at h
    · cases h
    rename_i merged hmerged
    obtain ⟨-, hlocals, hlan⟩ := configLoadFromDb_eq_some htmp
    obtain ⟨-, idxs, dst₁, happend, hmlocals⟩ := mergeOneConfig_eq_some hmerged
    have htmp' : ∀ l ∈ tmp.locals, l.Unlearned := by
      intro l hl
      rw [hlocals] at hl
      obtain ⟨ifname, -, rfl⟩ := List.mem_map.mp hl
      exact ⟨rfl, rfl, rfl, rfl⟩
    obtain ⟨hne, hall⟩ := appendAll_unlearned htmp' hdst happend
    rw [← hmlocals] at hne hall
    have hmerged_ne : merged.locals ≠ [] := hne (.inl (by rw [hlocals]; simpa using hlan))
    obtain ⟨hne', hall'⟩ := ih hall h
    exact ⟨fun _ => hne' (.inr hmerged_ne), hall'⟩

/-- **A configuration from the database** knows nothing about its LAN interfaces, and has some if
there is a profile. -/
theorem buildMergedConfig_unlearned {profiles : List ProfileRows}
    (h : buildMergedConfig profiles = some cfg) :
    (profiles ≠ [] → cfg.locals ≠ []) ∧ ∀ l ∈ cfg.locals, l.Unlearned := by
  simp only [buildMergedConfig] at h
  split at h
  · cases h
  rename_i merged hmerged
  split_ifs at h
  cases h
  rw [(mergedCrypto_frame merged).2]
  have hstart : ∀ l ∈ AppConfig.start.locals, l.Unlearned := fun l hl => by cases hl
  obtain ⟨hne, hall⟩ := mergeProfiles_unlearned hstart hmerged
  exact ⟨fun hp => hne (.inl hp), hall⟩

end

end NetEncryptor

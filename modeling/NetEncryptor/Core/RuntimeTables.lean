import NetEncryptor.Core.Runtime
import NetEncryptor.Crypto.Dispatch
import NetEncryptor.Db.MergeProfiles

/-!
# The crypto runtime over many reloads

A rebuild copies the contexts of unchanged policies from their old places and makes the others
afresh.  `rebuildAll_consistent` says that this cannot be seen: after any sequence of rebuilds the
tables are those that the last configuration alone determines.
-/

namespace NetEncryptor

/-- The tables after rebuilds for one configuration after the other, when every cipher context can
be allocated. -/
def rebuildAll (hmac : Hmac) (rt : PolicyRuntime) (cfgs : List AppConfig) : PolicyRuntime :=
  cfgs.foldl (fun rt cfg => (rebuildCryptoRuntime hmac (fun _ => true) rt cfg.policies).runtime) rt

/-- The tables are those of the policies. -/
structure TablesOf (hmac : Hmac) (policies : List CryptoPolicy) (rt : PolicyRuntime) : Prop where
  ready : ∀ i, rt.ready i = true ↔ ∃ cp, policies[i]? = some cp ∧ cp.NeedsCtx
  ctx : ∀ i cp, policies[i]? = some cp → cp.NeedsCtx →
    rt.ctx i = packetCryptoInit hmac cp.aesBits cp.key
  /-- The policy with that action and id, if it has a context. -/
  index : ∀ a, 0 ≤ a → a ≤ actionEncryptL4 → ∀ (id : UInt8) (i : ℕ),
    rt.indexByActionId a id = some i ↔
      rt.ready i = true ∧ ∃ cp, policies[i]? = some cp ∧ cp.action = a ∧ cp.id = id.toNat

/-- Every context that is ready is a fresh one of its active policy. -/
def PolicyRuntime.Fresh (hmac : Hmac) (rt : PolicyRuntime) : Prop :=
  ∀ i, rt.ready i = true →
    ∃ cp, rt.active[i]? = some cp ∧ rt.ctx i = packetCryptoInit hmac cp.aesBits cp.key

section

variable {hmac : Hmac} {old : PolicyRuntime} {r : Rebuild} {cp : CryptoPolicy}

/-! ## One round -/

/-- **Reuse is a fresh build.** The old place has the same policy, and so its context. -/
theorem findReusable_ctx (hold : old.Fresh hmac) {oi : ℕ} (h : old.findReusable cp = some oi) :
    old.ctx oi = packetCryptoInit hmac cp.aesBits cp.key := by
  obtain ⟨cp', hactive, hctx⟩ := hold oi (findReusable_ready h)
  unfold PolicyRuntime.findReusable at h
  have hfound := List.find?_some h
  have hsame := (Bool.and_eq_true_iff.mp hfound).2
  obtain ⟨cp'', hcp'', rfl⟩ := of_decide_eq_true hsame
  obtain rfl := Option.some.inj (hactive.symm.trans hcp'')
  exact hctx

/-- What the round for a policy does, reuse or not. -/
theorem rebuildPolicy_spec (hold : old.Fresh hmac) (pi : ℕ) :
    let rt := (rebuildPolicy hmac (fun _ => true) old r cp pi).runtime
    if cp.NeedsCtx then
      rt.ctx = r.runtime.ctx.set pi (packetCryptoInit hmac cp.aesBits cp.key) ∧
        rt.indexByActionId = recordIndex r.runtime.indexByActionId cp pi
    else rt.ctx = r.runtime.ctx ∧ rt.indexByActionId = r.runtime.indexByActionId := by
  unfold rebuildPolicy
  by_cases hneeds : cp.NeedsCtx
  · simp only [if_pos hneeds]
    cases hf : old.findReusable cp with
    | some oi =>
      simp only [Rebuild.finish, Rebuild.setCtx, findReusable_ctx hold hf, and_self]
    | none => exact ⟨rfl, rfl⟩
  · simp only [if_neg hneeds, and_self]

/-- What the rounds for the first policies have made. -/
structure RoundsOk (hmac : Hmac) (done : List CryptoPolicy) (rt : PolicyRuntime) : Prop where
  ctx : ∀ i cp, done[i]? = some cp → cp.NeedsCtx →
    rt.ctx i = packetCryptoInit hmac cp.aesBits cp.key
  index : ∀ a, 0 ≤ a → a ≤ actionEncryptL4 → ∀ (id : UInt8) (i : ℕ),
    rt.indexByActionId a id = some i ↔
      ∃ cp, done[i]? = some cp ∧ cp.NeedsCtx ∧ cp.action = a ∧ cp.idByte = id

theorem getElem?_concat_iff {α : Type} {l : List α} {x y : α} {i : ℕ} :
    (l ++ [x])[i]? = some y ↔ l[i]? = some y ∨ i = l.length ∧ y = x := by
  rcases lt_trichotomy i l.length with hlt | rfl | hgt
  · rw [List.getElem?_append_left hlt]
    simp [hlt.ne]
  · simp [eq_comm]
  · rw [List.getElem?_eq_none (by simp; omega), List.getElem?_eq_none hgt.le]
    simp [hgt.ne']

theorem recordIndex_eq_some {index : ℤ → UInt8 → Option ℕ} {pi : ℕ} {a : ℤ} (h₀ : 0 ≤ a)
    (h₄ : a ≤ actionEncryptL4)
    (hnew : 0 ≤ cp.action → cp.action ≤ actionEncryptL4 → index cp.action cp.idByte = none)
    (id : UInt8) (i : ℕ) :
    recordIndex index cp pi a id = some i ↔
      index a id = some i ∨ (i = pi ∧ cp.action = a ∧ cp.idByte = id) := by
  unfold recordIndex
  rw [← CryptoPolicy.idByte]
  by_cases hhere : a = cp.action ∧ id = cp.idByte
  · obtain ⟨rfl, rfl⟩ := hhere
    rw [if_pos ⟨h₀, h₄, hnew h₀ h₄⟩]
    simp [hnew h₀ h₄, eq_comm]
  · have hother : ¬ (i = pi ∧ cp.action = a ∧ cp.idByte = id) := fun h => hhere ⟨h.2.1.symm, h.2.2.symm⟩
    rw [or_iff_left hother]
    split_ifs
    · simp only [if_neg hhere]
    · rfl

theorem roundsOk_step (hold : old.Fresh hmac) {done : List CryptoPolicy}
    (hr : RoundsOk hmac done r.runtime) (hid : ∀ cp' ∈ done, cp'.idByte ≠ cp.idByte) :
    RoundsOk hmac (done ++ [cp])
      (rebuildPolicy hmac (fun _ => true) old r cp done.length).runtime := by
  have hspec := @rebuildPolicy_spec _ _ r cp hold done.length
  by_cases hneeds : cp.NeedsCtx
  · rw [if_pos hneeds] at hspec
    obtain ⟨hctx, hindex⟩ := hspec
    refine ⟨fun i cp' hi hcp' => ?_, fun a h₀ h₄ id i => ?_⟩
    · rw [hctx]
      rcases getElem?_concat_iff.mp hi with hi | ⟨rfl, rfl⟩
      · rw [Buffer.set_of_ne (List.getElem?_eq_some_iff.mp hi).1.ne]
        exact hr.ctx i cp' hi hcp'
      · exact Buffer.set_self _ _ _
    · have hnew : 0 ≤ cp.action → cp.action ≤ actionEncryptL4 →
          r.runtime.indexByActionId cp.action cp.idByte = none := fun h₀ h₄ => by
        rw [Option.eq_none_iff_forall_ne_some]
        intro j hj
        obtain ⟨cp', hcp', -, -, heq⟩ := (hr.index cp.action h₀ h₄ cp.idByte j).mp hj
        exact hid cp' (List.mem_of_getElem? hcp') heq
      rw [hindex, recordIndex_eq_some h₀ h₄ hnew, hr.index a h₀ h₄]
      simp only [getElem?_concat_iff]
      constructor
      · rintro (⟨cp', hi, h⟩ | ⟨hi, h⟩)
        · exact ⟨cp', .inl hi, h⟩
        · exact ⟨cp, .inr ⟨hi, rfl⟩, hneeds, h⟩
      · rintro ⟨cp', hi | ⟨hi, rfl⟩, hneeds', h⟩
        · exact .inl ⟨cp', hi, hneeds', h⟩
        · exact .inr ⟨hi, h⟩
  · rw [if_neg hneeds] at hspec
    obtain ⟨hctx, hindex⟩ := hspec
    refine ⟨fun i cp' hi hcp' => ?_, fun a h₀ h₄ id i => ?_⟩
    · rw [hctx]
      rcases getElem?_concat_iff.mp hi with hi | ⟨rfl, rfl⟩
      · exact hr.ctx i cp' hi hcp'
      · exact absurd hcp' hneeds
    · rw [hindex, hr.index a h₀ h₄]
      refine exists_congr fun cp' => ?_
      rw [getElem?_concat_iff]
      constructor
      · exact fun ⟨hi, h⟩ => ⟨.inl hi, h⟩
      · rintro ⟨hi | ⟨-, rfl⟩, h⟩
        · exact ⟨hi, h⟩
        · exact absurd h.1 hneeds

/-! ## One rebuild -/

theorem roundsOk_rebuildPolicies (hold : old.Fresh hmac) :
    ∀ {cps done : List CryptoPolicy} {r : Rebuild}, RoundsOk hmac done r.runtime →
      ((done ++ cps).map CryptoPolicy.idByte).Nodup →
        RoundsOk hmac (done ++ cps)
          (rebuildPolicies hmac (fun _ => true) old cps done.length r).runtime := by
  intro cps
  induction cps with
  | nil =>
    intro done r hr _
    rw [List.append_nil]
    exact hr
  | cons cp cps ih =>
    intro done r hr hnodup
    rw [rebuildPolicies]
    have hid : ∀ cp' ∈ done, cp'.idByte ≠ cp.idByte := fun cp' hcp' heq => by
      rw [List.map_append, List.map_cons, List.nodup_append] at hnodup
      exact hnodup.2.2 _ (List.mem_map_of_mem hcp') _ List.mem_cons_self heq
    have := ih (roundsOk_step hold hr hid) (by rwa [List.append_assoc, List.singleton_append])
    rwa [List.append_assoc, List.singleton_append, List.length_append, List.length_singleton] at this

theorem idByte_eq_iff (h : 1 ≤ cp.id ∧ cp.id ≤ 255) (id : UInt8) :
    cp.idByte = id ↔ cp.id = id.toNat := by
  unfold CryptoPolicy.idByte
  rw [← UInt8.toNat_inj, UInt8.toNat_ofNat']
  have := id.toNat_lt
  omega

theorem nodup_idByte {cfg : AppConfig} (hwire : WireIdsOk cfg) :
    (cfg.policies.map CryptoPolicy.idByte).Nodup := by
  refine List.Nodup.of_map (fun id : UInt8 => (id.toNat : ℤ)) ?_
  rw [List.map_map]
  convert hwire.nodup using 1
  refine List.map_congr_left fun cp hcp => ?_
  exact ((idByte_eq_iff (hwire.range cp hcp) _).mp rfl).symm

/-- **A rebuild** over fresh contexts makes the tables of the configuration. -/
theorem tablesOf_rebuild {cfg : AppConfig} (hold : old.Fresh hmac) (hwire : WireIdsOk cfg) :
    TablesOf hmac cfg.policies
      (rebuildCryptoRuntime hmac (fun _ => true) old cfg.policies).runtime := by
  have htake : cfg.policies.take maxCryptoPolicies = cfg.policies :=
    List.take_of_length_le hwire.count
  have hready : ∀ i, (rebuildCryptoRuntime hmac (fun _ => true) old cfg.policies).runtime.ready i =
      true ↔ ∃ cp, cfg.policies[i]? = some cp ∧ cp.NeedsCtx := fun i => by
    rw [rebuildCryptoRuntime_ready_iff, htake]
    simp [GetsCtx]
  obtain ⟨r, hr⟩ : ∃ r : Rebuild, r =
      ⟨{ old with ready := fun _ => false, indexByActionId := fun _ _ => none }, false, false⟩ :=
    ⟨_, rfl⟩
  have hstart : RoundsOk hmac [] r.runtime := by
    rw [hr]
    exact ⟨fun i cp h => by simp at h, fun a _ _ id i => by simp⟩
  have hrounds : RoundsOk hmac cfg.policies
      (rebuildPolicies hmac (fun _ => true) old cfg.policies 0 r).runtime :=
    roundsOk_rebuildPolicies hold hstart (nodup_idByte hwire)
  have hrt : (rebuildCryptoRuntime hmac (fun _ => true) old cfg.policies).runtime =
      { (rebuildPolicies hmac (fun _ => true) old cfg.policies 0 r).runtime with
        active := cfg.policies } := by
    rw [hr, rebuildCryptoRuntime, htake]
  refine ⟨hready, fun i cp hi hneeds => ?_, fun a h₀ h₄ id i => ?_⟩
  · rw [hrt]
    exact hrounds.ctx i cp hi hneeds
  · rw [hready, hrt]
    refine (hrounds.index a h₀ h₄ id i).trans ⟨?_, ?_⟩
    · rintro ⟨cp, hi, hneeds, haction, hid⟩
      have hrange := hwire.range cp (List.mem_of_getElem? hi)
      exact ⟨⟨cp, hi, hneeds⟩, cp, hi, haction, (idByte_eq_iff hrange id).mp hid⟩
    · rintro ⟨⟨cp, hi, hneeds⟩, cp', hi', haction, hid⟩
      obtain rfl := Option.some.inj (hi.symm.trans hi')
      have hrange := hwire.range cp (List.mem_of_getElem? hi)
      exact ⟨cp, hi, hneeds, haction, (idByte_eq_iff hrange id).mpr hid⟩

/-! ## Many rebuilds -/

theorem fresh_rebuild {cfg : AppConfig} (hold : old.Fresh hmac) (hwire : WireIdsOk cfg) :
    (rebuildCryptoRuntime hmac (fun _ => true) old cfg.policies).runtime.Fresh hmac := by
  have htables := tablesOf_rebuild hold hwire
  intro i hi
  obtain ⟨cp, hcp, hneeds⟩ := (htables.ready i).mp hi
  refine ⟨cp, ?_, htables.ctx i cp hcp hneeds⟩
  show (cfg.policies.take maxCryptoPolicies)[i]? = some cp
  rw [List.take_of_length_le hwire.count, hcp]

theorem fresh_rebuildAll : ∀ {cfgs : List AppConfig} {rt : PolicyRuntime}, rt.Fresh hmac →
    (∀ cfg ∈ cfgs, WireIdsOk cfg) → (rebuildAll hmac rt cfgs).Fresh hmac := by
  intro cfgs
  induction cfgs with
  | nil => exact fun hrt _ => hrt
  | cons cfg cfgs ih =>
    intro rt hrt hwire
    exact ih (fresh_rebuild hrt (hwire cfg List.mem_cons_self))
      fun cfg' hcfg' => hwire cfg' (List.mem_cons_of_mem _ hcfg')

/-- **The crypto runtime** after any sequence of rebuilds is that of the last configuration. -/
theorem rebuildAll_consistent {cfgs : List AppConfig} {cfg : AppConfig}
    (hwire : ∀ cfg' ∈ cfgs ++ [cfg], WireIdsOk cfg') :
    TablesOf hmac cfg.policies (rebuildAll hmac PolicyRuntime.start (cfgs ++ [cfg])) := by
  have hbefore : ∀ cfg' ∈ cfgs, WireIdsOk cfg' := fun cfg' h =>
    hwire cfg' (List.mem_append_left _ h)
  have hfresh := @fresh_rebuildAll hmac _ PolicyRuntime.start nofun hbefore
  rw [rebuildAll, List.foldl_append]
  exact tablesOf_rebuild hfresh (hwire cfg (by simp))

/-! ## Merged configurations -/

theorem appendPolicies_length {cps : List CryptoPolicy} : ∀ {policies out : List CryptoPolicy},
    policies.length ≤ maxCryptoPolicies → appendPolicies policies cps = some out →
      out.length ≤ maxCryptoPolicies := by
  induction cps with
  | nil =>
    intro policies out hlen h
    cases h
    exact hlen
  | cons cp cps ih =>
    intro policies out hlen h
    rw [appendPolicies] at h
    split at h
    · cases h
    rename_i cp' hcp
    refine ih ?_ h
    unfold uniquePolicy at hcp
    split_ifs at hcp with hfull
    rw [List.length_append, List.length_singleton]
    omega

/-- The configurations that `build_merged_config` makes are of the kind that is assumed here. -/
theorem wireIdsOk_of_buildMergedConfig {profiles : List ProfileRows} {cfg : AppConfig}
    (h : buildMergedConfig profiles = some cfg) : WireIdsOk cfg := by
  obtain ⟨loaded, -, happend⟩ := buildMergedConfig_policies h
  simp only [buildMergedConfig] at h
  split at h
  · cases h
  rename_i merged hmerged
  split_ifs at h
  cases h
  obtain ⟨srcs, -, hok, -, hmerge⟩ := mergeProfiles_eq_some hmerged
  obtain ⟨hids, -⟩ := mergeConfigs_spec hok mergedOk_start hmerge
  have hpolicies := (mergedCrypto_frame merged).1
  refine ⟨appendPolicies_length (Nat.zero_le _) happend, ?_, ?_⟩
  · rw [hpolicies]
    exact hids.range
  · rw [hpolicies]
    exact hids.ids

end

/-! ## A policy that moves -/

/-- A policy with a key. -/
def keyedPolicy (id : ℤ) : CryptoPolicy :=
  { samplePolicy actionEncryptL3 with id := id, key := Key.repeated 1 }

theorem rebuildAll_consistent_moved :
    TablesOf (fun _ _ => Key.zero) [keyedPolicy 2, keyedPolicy 1]
      (rebuildAll (fun _ _ => Key.zero) PolicyRuntime.start
        [policiesConfig [keyedPolicy 1], policiesConfig [keyedPolicy 2, keyedPolicy 1]]) := by
  have hwire : ∀ cfg ∈ [policiesConfig [keyedPolicy 1]] ++
      [policiesConfig [keyedPolicy 2, keyedPolicy 1]], WireIdsOk cfg := by
    intro cfg hcfg
    rcases List.mem_cons.mp hcfg with rfl | hcfg
    · exact ⟨by decide, by decide, by decide⟩
    · rw [List.mem_singleton.mp hcfg]
      exact ⟨by decide, by decide, by decide⟩
  exact rebuildAll_consistent hwire

end NetEncryptor

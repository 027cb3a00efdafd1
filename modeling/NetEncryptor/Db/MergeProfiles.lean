import Mathlib.Data.List.Forall2
import NetEncryptor.Db.WireId

/-!
# Profiles in the merged configuration

Merging renumbers interfaces and policies.  `mergeConfigs_preserves` says that every profile keeps
its meaning: its lists have the same length and order, and an index of the merged profile leads to
the interface of the same name, or to the same policy but for its wire id.
-/

namespace NetEncryptor

/-- `merge_one_config`, one configuration after the other. -/
def mergeConfigs : AppConfig → List AppConfig → Option AppConfig
  | merged, [] => some merged
  | merged, src :: srcs =>
    match mergeOneConfig merged src with
    | none => none
    | some merged => mergeConfigs merged srcs

/-- The profile fits its arrays, and its indices are in range. -/
structure ProfileConfig.Ok (src : AppConfig) (p : ProfileConfig) : Prop where
  name : p.name.toList.length ≤ profileNameLen
  locals_le : p.localIndices.length ≤ maxProfileInterfaces
  wans_le : p.wanIndices.length ≤ maxProfileInterfaces
  policies_le : p.policyIndices.length ≤ maxCryptoPolicies
  locals : ∀ i ∈ p.localIndices, 0 ≤ i ∧ i < src.locals.length
  wans : ∀ w ∈ p.wanIndices, 0 ≤ w.1 ∧ w.1 < src.wans.length
  policies : ∀ i ∈ p.policyIndices, 0 ≤ i ∧ i < src.policies.length

def AppConfig.ProfilesOk (src : AppConfig) : Prop := ∀ p ∈ src.profiles, p.Ok src

/-- Index `i` of `l` and index `j` of `l'` lead to related elements. -/
def Linked {α : Type} (R : α → α → Prop) (l l' : List α) (i j : ℤ) : Prop :=
  ∃ x y, atIndex? l i = some x ∧ atIndex? l' j = some y ∧ R x y

/-- The same policy under another wire id. -/
def SamePolicyButId (cp cp' : CryptoPolicy) : Prop := ∃ id : ℤ, cp' = { cp with id := id }

/-- What the profile `p` of `src` means is what `q` means in `cfg`. -/
structure ProfilePreserved (cfg src : AppConfig) (p q : ProfileConfig) : Prop where
  id : q.id = p.id
  name : q.name = p.name
  enabled : q.enabled = p.enabled
  locals : List.Forall₂ (Linked (fun loc loc' => loc'.ifname = loc.ifname) src.locals cfg.locals)
    p.localIndices q.localIndices
  wans : List.Forall₂ (fun w w' => w'.2 = w.2 ∧
    Linked (fun wan wan' => wan'.ifname = wan.ifname) src.wans cfg.wans w.1 w'.1)
    p.wanIndices q.wanIndices
  policies : List.Forall₂ (Linked SamePolicyButId src.policies cfg.policies)
    p.policyIndices q.policyIndices

/-! ## Appending -/

section

variable {α β : Type} {R : α → α → Prop} {l l' l'' : List α} {i j : ℤ}

theorem Linked.mono (h : Linked R l l' i j) (hp : l' <+: l'') : Linked R l l'' i j := by
  obtain ⟨x, y, hx, hy, hR⟩ := h
  refine ⟨x, y, hx, ?_, hR⟩
  unfold atIndex? at hy ⊢
  split_ifs at hy ⊢ with h₀
  obtain ⟨more, rfl⟩ := hp
  exact List.getElem?_append_left (List.getElem?_eq_some_iff.mp hy).1 ▸ hy

theorem forall₂_filterMap {f : α → Option β} {S : α → β → Prop} {l : List α}
    (h : ∀ a ∈ l, ∃ b, f a = some b ∧ S a b) : List.Forall₂ S l (l.filterMap f) := by
  induction l with
  | nil => exact .nil
  | cons a l ih =>
    obtain ⟨b, hb, hS⟩ := h a List.mem_cons_self
    rw [List.filterMap_cons, hb]
    exact .cons hS (ih fun a' ha' => h a' (List.mem_cons_of_mem _ ha'))

theorem forall₂_take_filterMap {f : α → Option β} {S : α → β → Prop} {l : List α} {n : ℕ}
    (hn : l.length ≤ n) (h : ∀ a ∈ l, ∃ b, f a = some b ∧ S a b) :
    List.Forall₂ S l ((l.filterMap f).take n) := by
  have hS := forall₂_filterMap h
  rwa [List.take_of_length_le (hS.length_eq ▸ hn)]

end

section

variable {dst dst' src cfg : AppConfig}

/-- What appending does to one list of the configuration: it adds to it, and the index that it
returns leads to a related element. -/
def Appends {α : Type} (append : AppConfig → α → Option (ℕ × AppConfig))
    (view : AppConfig → List α) (R : α → α → Prop) : Prop :=
  ∀ dst x idx dst', append dst x = some (idx, dst') →
    view dst <+: view dst' ∧ ∃ y, (view dst')[idx]? = some y ∧ R x y

/-- **Appending a list** gives an index for every element, in order. -/
theorem Appends.appendAll {α : Type} {append : AppConfig → α → Option (ℕ × AppConfig)}
    {view : AppConfig → List α} {R : α → α → Prop} (happend : Appends append view R) :
    ∀ {xs : List α} {dst dst' : AppConfig} {idxs : List ℕ},
      appendAll append dst xs = some (idxs, dst') →
        view dst <+: view dst' ∧
          List.Forall₂ (fun x idx => ∃ y, (view dst')[idx]? = some y ∧ R x y) xs idxs := by
  intro xs
  induction xs with
  | nil =>
    intro dst dst' idxs h
    cases h
    exact ⟨List.prefix_rfl, .nil⟩
  | cons x xs ih =>
    intro dst dst' idxs h
    obtain ⟨idx, dst₁, idxs₁, h₁, h₂, rfl⟩ := appendAll_cons h
    obtain ⟨hp₁, y, hy, hR⟩ := happend _ _ _ _ h₁
    obtain ⟨hp₂, hrest⟩ := ih h₂
    refine ⟨hp₁.trans hp₂, .cons ⟨y, ?_, hR⟩ hrest⟩
    obtain ⟨more, hmore⟩ := hp₂
    rw [← hmore, List.getElem?_append_left (List.getElem?_eq_some_iff.mp hy).1, hy]

theorem linked_of_forall₂ {α : Type} {R : α → α → Prop} {xs l : List α} {idxs : List ℕ} {i : ℤ}
    (h : List.Forall₂ (fun x idx => ∃ y, l[idx]? = some y ∧ R x y) xs idxs)
    (hi : 0 ≤ i ∧ i < xs.length) :
    ∃ idx, atIndex? idxs i = some idx ∧ Linked R xs l i idx := by
  have hlt : i.toNat < xs.length := by omega
  have hlt' : i.toNat < idxs.length := h.length_eq ▸ hlt
  obtain ⟨y, hy, hR⟩ := h.get hlt hlt'
  refine ⟨idxs[i.toNat], ?_, xs[i.toNat], y, ?_, ?_, hR⟩
  · rw [atIndex?, if_pos hi.1, List.getElem?_eq_getElem hlt']
  · rw [atIndex?, if_pos hi.1, List.getElem?_eq_getElem hlt]
  · rw [atIndex?, if_pos (Int.natCast_nonneg _)]
    exact hy

theorem appendLocalUnique_appends :
    Appends appendLocalUnique AppConfig.locals fun loc loc' => loc'.ifname = loc.ifname := by
  intro dst loc idx dst' h
  obtain ⟨hidx, rfl⟩ | ⟨-, rfl, rfl⟩ := appendLocalUnique_cases h
  · obtain ⟨hlt, hname, -⟩ := List.findIdx?_eq_some_iff_getElem.mp hidx
    exact ⟨List.prefix_rfl, _, List.getElem?_eq_getElem hlt, beq_iff_eq.mp hname⟩
  · exact ⟨List.prefix_append _ _, loc, List.getElem?_concat_length, rfl⟩

theorem appendWanUnique_appends :
    Appends appendWanUnique AppConfig.wans fun wan wan' => wan'.ifname = wan.ifname := by
  intro dst wan idx dst' h
  obtain ⟨hidx, rfl⟩ | ⟨-, rfl, rfl⟩ := appendWanUnique_cases h
  · obtain ⟨hlt, hname, -⟩ := List.findIdx?_eq_some_iff_getElem.mp hidx
    exact ⟨List.prefix_rfl, _, List.getElem?_eq_getElem hlt, beq_iff_eq.mp hname⟩
  · exact ⟨List.prefix_append _ _, wan, List.getElem?_concat_length, rfl⟩

theorem appendPolicyUnique_appends :
    Appends appendPolicyUnique AppConfig.policies SamePolicyButId := by
  intro dst cp idx dst' h
  obtain ⟨cp', hcp, rfl, rfl⟩ := appendPolicyUnique_eq_some h
  obtain ⟨id, -, rfl⟩ := uniquePolicy_eq_some hcp
  exact ⟨List.prefix_append _ _, _, List.getElem?_concat_length, id, rfl⟩

/-! ## One configuration -/

/-- The names of the interfaces are distinct, and so are the wire ids, which are in range. -/
structure MergedOk (cfg : AppConfig) : Prop where
  locals : (cfg.locals.map LocalConfig.ifname).Nodup
  wans : (cfg.wans.map WanConfig.ifname).Nodup
  ids : (cfg.policies.map CryptoPolicy.id).Nodup
  range : ∀ cp ∈ cfg.policies, 1 ≤ cp.id ∧ cp.id ≤ 255

theorem mergedOk_start : MergedOk AppConfig.start where
  locals := List.nodup_nil
  wans := List.nodup_nil
  ids := List.nodup_nil
  range _ h := by cases h

theorem nodup_concat_of_findIdx? {α : Type} {l : List α} {name : α → String} {x : α}
    (hl : (l.map name).Nodup) (h : l.findIdx? (fun y => name y == name x) = none) :
    ((l ++ [x]).map name).Nodup := by
  rw [List.map_append, List.map_singleton, ← List.concat_eq_append, List.nodup_concat]
  refine ⟨fun hmem => ?_, hl⟩
  obtain ⟨y, hy, hname⟩ := List.mem_map.mp hmem
  have := List.findIdx?_eq_none_iff.mp h y hy
  rw [beq_eq_false_iff_ne] at this
  exact this hname

theorem appendLocalUnique_mergedOk {loc : LocalConfig} {idx : ℕ} (hdst : MergedOk dst)
    (h : appendLocalUnique dst loc = some (idx, dst')) : MergedOk dst' := by
  obtain ⟨-, rfl⟩ | ⟨hnone, -, rfl⟩ := appendLocalUnique_cases h
  · exact hdst
  · exact ⟨nodup_concat_of_findIdx? hdst.locals hnone, hdst.wans, hdst.ids, hdst.range⟩

theorem appendWanUnique_mergedOk {wan : WanConfig} {idx : ℕ} (hdst : MergedOk dst)
    (h : appendWanUnique dst wan = some (idx, dst')) : MergedOk dst' := by
  obtain ⟨-, rfl⟩ | ⟨hnone, -, rfl⟩ := appendWanUnique_cases h
  · exact hdst
  · exact ⟨hdst.locals, nodup_concat_of_findIdx? hdst.wans hnone, hdst.ids, hdst.range⟩

theorem appendPolicyUnique_mergedOk {cp : CryptoPolicy} {idx : ℕ} (hdst : MergedOk dst)
    (h : appendPolicyUnique dst cp = some (idx, dst')) : MergedOk dst' := by
  obtain ⟨cp', hcp, -, rfl⟩ := appendPolicyUnique_eq_some h
  obtain ⟨id, hclaim, rfl⟩ := uniquePolicy_eq_some hcp
  obtain ⟨h₁, h₂, hused⟩ := IdPool.claim_spec hclaim
  refine ⟨hdst.locals, hdst.wans, ?_, fun cp' hcp' => ?_⟩
  · rw [List.map_append, List.map_singleton, ← List.concat_eq_append, List.nodup_concat]
    refine ⟨fun hmem => ?_, hdst.ids⟩
    obtain ⟨cp', hcp', hid⟩ := List.mem_map.mp hmem
    rw [usedWireIds_iff.mpr ⟨cp', hcp', hid⟩] at hused
    cases hused
  · rcases List.mem_append.mp hcp' with h | h
    · exact hdst.range cp' h
    · obtain rfl := List.mem_singleton.mp h
      show (1 : ℤ) ≤ (id : ℤ) ∧ (id : ℤ) ≤ 255
      omega

/-- **Merging one configuration** adds to the lists, and gives maps that lead from the source's
indices to the merged ones. -/
theorem mergeOneConfig_spec (h : mergeOneConfig dst src = some cfg) (hdst : MergedOk dst) :
    MergedOk cfg ∧ dst.locals <+: cfg.locals ∧ dst.wans <+: cfg.wans ∧
      dst.policies <+: cfg.policies ∧ ∃ localMap wanMap policyMap,
        cfg.profiles = dst.profiles ++ src.profiles.map (mergeProfile localMap wanMap policyMap) ∧
        List.Forall₂ (fun loc idx => ∃ y, cfg.locals[idx]? = some y ∧ y.ifname = loc.ifname)
          src.locals localMap ∧
        List.Forall₂ (fun wan idx => ∃ y, cfg.wans[idx]? = some y ∧ y.ifname = wan.ifname)
          src.wans wanMap ∧
        List.Forall₂ (fun cp idx => ∃ y, cfg.policies[idx]? = some y ∧ SamePolicyButId cp y)
          src.policies policyMap := by
  unfold mergeOneConfig at h
  split at h
  · cases h
  rename_i localMap dst₁ hlocal
  split at h
  · cases h
  rename_i wanMap dst₂ hwan
  split at h
  · cases h
  rename_i policyMap dst₃ hpolicy
  split_ifs at h
  cases h
  have hok₁ := appendAll_invariant (fun _ _ _ _ => appendLocalUnique_mergedOk) hdst hlocal
  have hok₂ := appendAll_invariant (fun _ _ _ _ => appendWanUnique_mergedOk) hok₁ hwan
  have hok₃ := appendAll_invariant (fun _ _ _ _ => appendPolicyUnique_mergedOk) hok₂ hpolicy
  obtain ⟨hl, hlmap⟩ := appendLocalUnique_appends.appendAll hlocal
  obtain ⟨hw, hwmap⟩ := appendWanUnique_appends.appendAll hwan
  obtain ⟨hp, hpmap⟩ := appendPolicyUnique_appends.appendAll hpolicy
  have hf₁ := appendAll_preserves (fun _ _ _ _ => appendLocalUnique_frame) hlocal
  have hf₂ := appendAll_preserves (fun _ _ _ _ => appendWanUnique_frame) hwan
  have hf₃ := appendAll_preserves (fun _ _ _ _ => appendPolicyUnique_frame) hpolicy
  have hlocals : dst₃.locals = dst₁.locals :=
    (congrArg AppConfig.locals hf₃ :).trans (congrArg AppConfig.locals hf₂ :)
  have hwans : dst₃.wans = dst₂.wans := (congrArg AppConfig.wans hf₃ :)
  have hwans₁ : dst₁.wans = dst.wans := (congrArg AppConfig.wans hf₁ :)
  have hpolicies : dst₂.policies = dst.policies :=
    (congrArg AppConfig.policies hf₂ :).trans (congrArg AppConfig.policies hf₁ :)
  have hprofiles : dst₃.profiles = dst.profiles :=
    ((congrArg AppConfig.profiles hf₃ :).trans (congrArg AppConfig.profiles hf₂ :)).trans
      (congrArg AppConfig.profiles hf₁ :)
  rw [← hlocals] at hl hlmap
  rw [← hwans, hwans₁] at hw
  rw [← hwans] at hwmap
  rw [hpolicies] at hp
  refine ⟨⟨hok₃.locals, hok₃.wans, hok₃.ids, hok₃.range⟩, hl, hw, hp,
    localMap, wanMap, policyMap, ?_, hlmap, hwmap, hpmap⟩
  show dst₃.profiles ++ _ = _
  rw [hprofiles]

/-! ## The profiles -/

theorem mergeProfile_preserved {p : ProfileConfig} {localMap wanMap policyMap : List ℕ}
    (hp : p.Ok src)
    (hlocal : List.Forall₂ (fun loc idx => ∃ y, cfg.locals[idx]? = some y ∧ y.ifname = loc.ifname)
      src.locals localMap)
    (hwan : List.Forall₂ (fun wan idx => ∃ y, cfg.wans[idx]? = some y ∧ y.ifname = wan.ifname)
      src.wans wanMap)
    (hpolicy : List.Forall₂ (fun cp idx => ∃ y, cfg.policies[idx]? = some y ∧ SamePolicyButId cp y)
      src.policies policyMap) :
    ProfilePreserved cfg src p (mergeProfile localMap wanMap policyMap p) where
  id := rfl
  name := by
    show boundedName profileNameLen p.name = p.name
    rw [boundedName, List.take_of_length_le hp.name, String.ofList_toList]
  enabled := rfl
  locals := by
    refine forall₂_take_filterMap hp.locals_le fun i hi => ?_
    obtain ⟨idx, hidx, hlinked⟩ := linked_of_forall₂ hlocal (hp.locals i hi)
    exact ⟨idx, by rw [hidx]; rfl, hlinked⟩
  wans := by
    refine forall₂_take_filterMap hp.wans_le fun w hw => ?_
    obtain ⟨idx, hidx, hlinked⟩ := linked_of_forall₂ hwan (hp.wans w hw)
    exact ⟨(idx, w.2), by rw [hidx]; rfl, rfl, hlinked⟩
  policies := by
    show List.Forall₂ _ _ (List.take _ (List.filterMap _ (List.take _ _)))
    rw [List.take_of_length_le hp.policies_le]
    refine forall₂_take_filterMap hp.policies_le fun i hi => ?_
    obtain ⟨idx, hidx, hlinked⟩ := linked_of_forall₂ hpolicy (hp.policies i hi)
    exact ⟨idx, by rw [hidx]; rfl, hlinked⟩

theorem ProfilePreserved.mono {cfg' : AppConfig} {p q : ProfileConfig}
    (h : ProfilePreserved cfg src p q) (hl : cfg.locals <+: cfg'.locals)
    (hw : cfg.wans <+: cfg'.wans) (hp : cfg.policies <+: cfg'.policies) :
    ProfilePreserved cfg' src p q where
  id := h.id
  name := h.name
  enabled := h.enabled
  locals := h.locals.imp fun _ _ hlinked => hlinked.mono hl
  wans := h.wans.imp fun _ _ hw' => ⟨hw'.1, hw'.2.mono hw⟩
  policies := h.policies.imp fun _ _ hlinked => hlinked.mono hp

/-- Every profile of a list of configurations, with the configuration. -/
def sourceProfiles (srcs : List AppConfig) : List (AppConfig × ProfileConfig) :=
  srcs.flatMap fun src => src.profiles.map fun p => (src, p)

theorem mergeConfigs_spec : ∀ {srcs : List AppConfig} {dst cfg : AppConfig},
    (∀ src ∈ srcs, src.ProfilesOk) → MergedOk dst → mergeConfigs dst srcs = some cfg →
      MergedOk cfg ∧ dst.locals <+: cfg.locals ∧ dst.wans <+: cfg.wans ∧
        dst.policies <+: cfg.policies ∧ ∃ qs, cfg.profiles = dst.profiles ++ qs ∧
          List.Forall₂ (fun sp q => ProfilePreserved cfg sp.1 sp.2 q) (sourceProfiles srcs) qs := by
  intro srcs
  induction srcs with
  | nil =>
    intro dst cfg _ hdst h
    cases h
    exact ⟨hdst, List.prefix_rfl, List.prefix_rfl, List.prefix_rfl, [], by simp, .nil⟩
  | cons src srcs ih =>
    intro dst cfg hsrcs hdst h
    rw [mergeConfigs] at h
    split at h
    · cases h
    rename_i merged hmerged
    obtain ⟨hok, hl, hw, hp, localMap, wanMap, policyMap, hprofiles, hlmap, hwmap, hpmap⟩ :=
      mergeOneConfig_spec hmerged hdst
    obtain ⟨hok', hl', hw', hp', qs, hqs, hrest⟩ :=
      ih (fun s hs => hsrcs s (List.mem_cons_of_mem _ hs)) hok h
    refine ⟨hok', hl.trans hl', hw.trans hw', hp.trans hp',
      src.profiles.map (mergeProfile localMap wanMap policyMap) ++ qs, ?_, ?_⟩
    · rw [hqs, hprofiles, List.append_assoc]
    · rw [sourceProfiles, List.flatMap_cons]
      refine List.rel_append ?_ hrest
      rw [List.forall₂_map_left_iff, List.forall₂_map_right_iff, List.forall₂_same]
      intro p hmem
      have hok_p := hsrcs src List.mem_cons_self p hmem
      exact (mergeProfile_preserved hok_p hlmap hwmap hpmap).mono hl' hw' hp'

/-- **Every profile keeps its meaning** in the merged configuration, and its interfaces and wire ids
are distinct. -/
theorem mergeConfigs_preserves {srcs : List AppConfig} (hsrcs : ∀ src ∈ srcs, src.ProfilesOk)
    (h : mergeConfigs AppConfig.start srcs = some cfg) :
    List.Forall₂ (fun sp q => ProfilePreserved cfg sp.1 sp.2 q) (sourceProfiles srcs)
      cfg.profiles ∧ MergedOk cfg := by
  obtain ⟨hok, -, -, -, qs, hqs, hpreserved⟩ := mergeConfigs_spec hsrcs mergedOk_start h
  obtain rfl : cfg.profiles = qs := hqs
  exact ⟨hpreserved, hok⟩

/-! ## Loaded profiles -/

theorem loadPolicyRows_length {w : WireIds} {policies out : List CryptoPolicy}
    {rows : List PolicyRow} (hlen : policies.length ≤ maxCryptoPolicies)
    (h : loadPolicyRows w policies rows = some out) : out.length ≤ maxCryptoPolicies := by
  induction rows generalizing w policies with
  | nil =>
    cases h
    exact hlen
  | cons row rows ih =>
    rw [loadPolicyRows] at h
    split at h
    · cases h
    · simp only at h
      split_ifs at h with hle
      exact ih (not_lt.mp hle) h

theorem loadProfilesAndPolicies_profilesOk {cfg' : AppConfig} {rows : ProfileRows}
    (hprofiles : cfg.profiles = []) (hpolicies : cfg.policies = [])
    (h : loadProfilesAndPolicies cfg rows = some cfg') :
    cfg'.ProfilesOk ∧ cfg'.profiles.map ProfileConfig.id = [rows.id] := by
  simp only [loadProfilesAndPolicies] at h
  split at h
  · cases h
  rename_i policies hload
  cases h
  rw [hpolicies] at hload
  have hlen := loadPolicyRows_length (Nat.zero_le _) hload
  refine ⟨fun p hp => ?_, by simp [hprofiles]⟩
  simp only [hprofiles, hpolicies, List.nil_append, List.mem_singleton] at hp
  subst hp
  refine ⟨?_, List.length_take_le _ _, List.length_take_le _ _, ?_, fun i hi => ?_,
    fun w hw => ?_, fun i hi => ?_⟩
  · simp [boundedName]
  · simpa using hlen
  · obtain ⟨ifname, -, hmap⟩ := List.mem_filterMap.mp (List.mem_of_mem_take hi)
    obtain ⟨idx, hidx, rfl⟩ := Option.map_eq_some_iff.mp hmap
    obtain ⟨hlt, -⟩ := List.findIdx?_eq_some_iff_getElem.mp hidx
    exact ⟨Int.natCast_nonneg _, Int.ofNat_lt.mpr hlt⟩
  · obtain ⟨row, -, hmap⟩ := List.mem_filterMap.mp (List.mem_of_mem_take hw)
    obtain ⟨idx, hidx, rfl⟩ := Option.map_eq_some_iff.mp hmap
    obtain ⟨hlt, -⟩ := List.findIdx?_eq_some_iff_getElem.mp hidx
    exact ⟨Int.natCast_nonneg _, Int.ofNat_lt.mpr hlt⟩
  · obtain ⟨idx, hidx, rfl⟩ := List.mem_map.mp hi
    have hlt : idx < policies.length := by simpa using (List.mem_range'_1.mp hidx).2
    exact ⟨Int.natCast_nonneg _, Int.ofNat_lt.mpr hlt⟩

theorem applyCryptoDerivedFromPolicies_lists (cfg : AppConfig) :
    (applyCryptoDerivedFromPolicies cfg).profiles = cfg.profiles ∧
      (applyCryptoDerivedFromPolicies cfg).wans = cfg.wans := by
  simp only [applyCryptoDerivedFromPolicies]
  split
  · exact ⟨rfl, rfl⟩
  · split_ifs <;> exact ⟨rfl, rfl⟩

theorem configLoadFromDb_profilesOk {rows : ProfileRows} (h : configLoadFromDb rows = some cfg) :
    cfg.ProfilesOk ∧ cfg.profiles.map ProfileConfig.id = [rows.id] := by
  simp only [configLoadFromDb, loadLocalRows, loadWanRows] at h
  split at h
  · cases h
  rename_i c₁ hlocal
  split_ifs at hlocal
  cases hlocal
  split at h
  · cases h
  rename_i c₂ hwan
  split_ifs at hwan
  cases hwan
  split at h
  · cases h
  rename_i c₃ hprofile
  obtain ⟨hok, hid⟩ := loadProfilesAndPolicies_profilesOk rfl rfl hprofile
  obtain ⟨hpolicies, hlocals⟩ := applyCryptoDerivedFromPolicies_frame c₃
  obtain ⟨hprofiles, hwans⟩ := applyCryptoDerivedFromPolicies_lists c₃
  split_ifs at h
  cases h
  rw [AppConfig.ProfilesOk, hprofiles]
  refine ⟨fun p hp => ?_, hid⟩
  obtain ⟨h₁, h₂, h₃, h₄, hl, hw, hpol⟩ := hok p hp
  exact ⟨h₁, h₂, h₃, h₄, hlocals ▸ hl, hwans ▸ hw, hpolicies ▸ hpol⟩

theorem mergeProfiles_eq_some : ∀ {profiles : List ProfileRows} {dst cfg : AppConfig},
    mergeProfiles dst profiles = some cfg → ∃ srcs : List AppConfig,
      List.Forall₂ (fun rows src => configLoadFromDb rows = some src) profiles srcs ∧
        (∀ src ∈ srcs, src.ProfilesOk) ∧
        (sourceProfiles srcs).map (fun sp => sp.2.id) = profiles.map ProfileRows.id ∧
        mergeConfigs dst srcs = some cfg := by
  intro profiles
  induction profiles with
  | nil =>
    intro dst cfg h
    exact ⟨[], .nil, by simp, rfl, h⟩
  | cons rows rest ih =>
    intro dst cfg h
    rw [mergeProfiles] at h
    split at h
    · cases h
    rename_i tmp htmp
    split at h
    · cases h
    rename_i merged hmerged
    obtain ⟨srcs, hload, hok, hids, hmerge⟩ := ih h
    obtain ⟨htmp_ok, htmp_id⟩ := configLoadFromDb_profilesOk htmp
    refine ⟨tmp :: srcs, .cons htmp hload, List.forall_mem_cons.mpr ⟨htmp_ok, hok⟩, ?_, ?_⟩
    · rw [sourceProfiles, List.flatMap_cons, List.map_append, List.map_map]
      exact congrArg₂ (· ++ ·) htmp_id hids
    · rw [mergeConfigs, hmerged]
      exact hmerge

theorem mergedCrypto_profiles (merged : AppConfig) :
    (mergedCrypto merged).profiles = merged.profiles := by
  unfold mergedCrypto
  split
  · rfl
  · rfl

/-- **The profiles of the merged configuration** are those of the ids, in order. -/
theorem buildMergedConfig_profileIds {profiles : List ProfileRows}
    (h : buildMergedConfig profiles = some cfg) :
    cfg.profiles.map ProfileConfig.id = profiles.map ProfileRows.id := by
  simp only [buildMergedConfig] at h
  split at h
  · cases h
  rename_i merged hmerged
  split_ifs at h
  cases h
  obtain ⟨srcs, -, hok, hids, hmerge⟩ := mergeProfiles_eq_some hmerged
  obtain ⟨-, -, -, -, qs, hqs, hpreserved⟩ := mergeConfigs_spec hok mergedOk_start hmerge
  obtain rfl : merged.profiles = qs := hqs
  rw [mergedCrypto_profiles, ← hids, ← List.forall₂_eq_eq_eq, List.forall₂_map_left_iff,
    List.forall₂_map_right_iff]
  exact (hpreserved.imp fun _ _ hp => hp.id.symm).flip.imp fun _ _ heq => heq.symm

end

/-! ## Two profiles with one policy -/

/-- A profile whose only policy has the wire id `1`. -/
def sampleSource : AppConfig := (configLoadFromDb (hostProfile [sharedRow])).getD AppConfig.empty

theorem mergeConfigs_preserves_twice :
    ∃ cfg, mergeConfigs AppConfig.start [sampleSource, sampleSource] = some cfg ∧
      cfg.policies.map CryptoPolicy.id = [1, 2] ∧
      List.Forall₂ (fun sp q => ProfilePreserved cfg sp.1 sp.2 q)
        (sourceProfiles [sampleSource, sampleSource]) cfg.profiles ∧ MergedOk cfg := by
  have hload : configLoadFromDb (hostProfile [sharedRow]) = some sampleSource := rfl
  have hok := (configLoadFromDb_profilesOk hload).1
  refine ⟨_, rfl, rfl, mergeConfigs_preserves ?_ rfl⟩
  intro src hsrc
  rcases List.mem_cons.mp hsrc with rfl | hsrc
  · exact hok
  · rw [List.mem_singleton.mp hsrc]
    exact hok

end NetEncryptor

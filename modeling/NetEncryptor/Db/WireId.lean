import NetEncryptor.Db.Merge

/-!
# The wire id of a shared policy

The peer looks a policy up by its wire id, so two hosts have to give a policy that both have the
same one.  The id is assigned twice, per key when the rows of a profile are loaded and per policy
when the profiles are merged, and both times it depends on what came before.  `Host` is a list of
profiles with a row that has its database id for itself; `wireId_eq_dbId_iff` says when the row
keeps that id.
-/

namespace NetEncryptor

/-- The wire id of the first policy with a database id. -/
def wireId (cfg : AppConfig) (dbId : ℤ) : Option ℤ :=
  (cfg.policies.find? fun cp => cp.dbId == dbId).map CryptoPolicy.id

def wireIdsAfter : WireIds → List PolicyRow → Option WireIds
  | w, [] => some w
  | w, row :: rows =>
    match policyBase w row with
    | none => none
    | some (_, w) => wireIdsAfter w rows

/-- A list of profiles, one of which has a row whose database id no other row has. -/
structure Host (row : PolicyRow) where
  profilesBefore : List ProfileRows
  profile : ProfileRows
  profilesAfter : List ProfileRows
  rowsBefore : List PolicyRow
  rowsAfter : List PolicyRow
  policies_eq : profile.policies = rowsBefore ++ row :: rowsAfter
  id_ne : ∀ r ∈ (profilesBefore ++ profilesAfter).flatMap ProfileRows.policies ++ rowsBefore ++
    rowsAfter, r.id ≠ row.id

namespace Host

variable {row : PolicyRow}

def profiles (H : Host row) : List ProfileRows := H.profilesBefore ++ H.profile :: H.profilesAfter

def wireIdsBefore (H : Host row) : Option WireIds := wireIdsAfter WireIds.start H.rowsBefore

/-- The policies that are merged when the row's policy is. -/
def mergedBefore (H : Host row) : Option (List CryptoPolicy) :=
  match loadedPolicies (H.profilesBefore ++ [{ H.profile with policies := H.rowsBefore }]) with
  | none => none
  | some loaded => appendPolicies [] loaded

/-- No policy merged before has the row's database id for its wire id; and no row before it in the
profile has its key, or all lower wire ids are used. -/
def KeepsId (H : Host row) : Prop :=
  ∃ w merged, H.wireIdsBefore = some w ∧ H.mergedBefore = some merged ∧
    usedWireIds merged row.id.toNat = false ∧
    (w.find row.key row.aesBits.keySize = none ∨
      ∀ j, 1 ≤ j → j < row.id.toNat → usedWireIds merged j = true)

end Host

/-! ## Loading -/

section

variable {w w' : WireIds} {policies out : List CryptoPolicy} {row : PolicyRow}
  {rows rows' : List PolicyRow} {base cp : CryptoPolicy}

theorem usedWireIds_iff {j : ℕ} : usedWireIds policies j = true ↔ ∃ cp ∈ policies, cp.id = j := by
  simp [usedWireIds]

theorem loadPolicyRows_cons (h : loadPolicyRows w policies (row :: rows) = some out) :
    ∃ base w', policyBase w row = some (base, w') ∧
      loadPolicyRows w' (policies ++ expandRow base row) rows = some out := by
  rw [loadPolicyRows] at h
  split at h
  · cases h
  rename_i base w' hbase
  simp only at h
  split_ifs at h
  exact ⟨base, w', hbase, h⟩

theorem loadPolicyRows_append : ∀ {rows : List PolicyRow} {w : WireIds}
    {policies : List CryptoPolicy}, loadPolicyRows w policies (rows ++ rows') = some out →
      ∃ w' mid, wireIdsAfter w rows = some w' ∧ loadPolicyRows w policies rows = some mid ∧
        loadPolicyRows w' mid rows' = some out := by
  intro rows
  induction rows with
  | nil => exact fun h => ⟨_, _, rfl, rfl, h⟩
  | cons row rows ih =>
    intro w policies h
    rw [List.cons_append] at h
    have h' := h
    rw [loadPolicyRows] at h
    split at h
    · cases h
    rename_i base w₁ hbase
    simp only at h
    split_ifs at h with hcount
    obtain ⟨w', mid, hw', hmid, hout⟩ := ih h
    refine ⟨w', mid, ?_, ?_, hout⟩
    · rw [wireIdsAfter, hbase]
      exact hw'
    · rw [loadPolicyRows, hbase]
      simp only [if_neg hcount]
      exact hmid

theorem policyBase_dbId (h : policyBase w row = some (base, w')) : base.dbId = row.id := by
  unfold policyBase at h
  split_ifs at h
  · cases h
    rfl
  · simp only at h
    split at h
    · cases h
    · cases h
      rfl

theorem mem_expandRow (h : cp ∈ expandRow base row) : cp.id = base.id ∧ cp.dbId = base.dbId := by
  simp only [expandRow, List.mem_flatMap, List.mem_map] at h
  obtain ⟨src, -, dst, -, sp, -, dp, -, rfl⟩ := h
  exact ⟨rfl, rfl⟩

theorem expandRow_ne_nil : expandRow base row ≠ [] := by
  obtain ⟨hsrc, hdst, hsp, hdp⟩ := row.items_ne
  obtain ⟨src, hsrc⟩ := List.exists_mem_of_ne_nil _ hsrc
  obtain ⟨dst, hdst⟩ := List.exists_mem_of_ne_nil _ hdst
  obtain ⟨sp, hsp⟩ := List.exists_mem_of_ne_nil _ hsp
  intro h
  simp only [expandRow, List.flatMap_eq_nil_iff, List.map_eq_nil_iff] at h
  exact hdp (h src hsrc dst hdst sp hsp)

theorem loadPolicyRows_dbIds : ∀ {rows : List PolicyRow} {w : WireIds}
    {policies : List CryptoPolicy}, loadPolicyRows w policies rows = some out →
      ∃ more, out = policies ++ more ∧ ∀ cp ∈ more, ∃ r ∈ rows, cp.dbId = r.id := by
  intro rows
  induction rows with
  | nil =>
    intro w policies h
    cases h
    exact ⟨[], (List.append_nil _).symm, fun cp hcp => by cases hcp⟩
  | cons row rows ih =>
    intro w policies h
    obtain ⟨base, w', hbase, hrest⟩ := loadPolicyRows_cons h
    obtain ⟨more, rfl, hmore⟩ := ih hrest
    refine ⟨expandRow base row ++ more, List.append_assoc _ _ _, fun cp hcp => ?_⟩
    rcases List.mem_append.mp hcp with hcp | hcp
    · exact ⟨row, List.mem_cons_self, (mem_expandRow hcp).2.trans (policyBase_dbId hbase)⟩
    · obtain ⟨r, hr, hid⟩ := hmore cp hcp
      exact ⟨r, List.mem_cons_of_mem _ hr, hid⟩

/-! ## The ids in use -/

/-- Every wire id in use is that of a policy, and those of keys are in range. -/
structure WireIds.Recorded (w : WireIds) (policies : List CryptoPolicy) : Prop where
  used : ∀ j, 1 ≤ j → w.used j = true → usedWireIds policies j = true
  map : ∀ e ∈ w.map, 1 ≤ e.wireId ∧ e.wireId ≤ 255 ∧ w.used e.wireId = true

theorem recorded_start : WireIds.start.Recorded [] where
  used j hj h := by
    simp only [WireIds.start, beq_iff_eq] at h
    omega
  map e he := by cases he

/-- What a key gets: the id of its entry, or else an id that was unused. -/
theorem neWireIdForEncryptKey_eq_some {key : Key} {keyLen id : ℕ} {dbId : ℤ}
    (h : neWireIdForEncryptKey w key keyLen dbId = some (id, w')) :
    (∃ e ∈ w.map, w.find key keyLen = some e ∧ id = e.wireId ∧ w' = w) ∨
      (w.find key keyLen = none ∧ IdPool.claim 255 w.used dbId = some id ∧
        w'.used = w.used.set id true ∧ w'.map = if w.map.length < neKeyWireMapMax then
          w.map ++ [⟨key.val.take keyLen, keyLen, id⟩] else w.map) := by
  unfold neWireIdForEncryptKey at h
  split at h
  · rename_i e he
    cases h
    exact .inl ⟨e, List.mem_of_find?_eq_some he, he, rfl, rfl⟩
  · rename_i hnone
    split at h
    · cases h
    · rename_i id' used' halloc
      cases h
      unfold allocWirePolicyId at halloc
      split at halloc
      · cases halloc
      · rename_i id'' hclaim
        cases halloc
        exact .inr ⟨hnone, hclaim, rfl, rfl⟩

theorem policyBase_encrypt (hrow : row.action ≠ actionBypass)
    (h : policyBase w row = some (base, w')) :
    ∃ id : ℕ, base.id = id ∧
      neWireIdForEncryptKey w row.key row.aesBits.keySize row.id = some (id, w') := by
  rw [policyBase, if_neg hrow] at h
  simp only at h
  split at h
  · cases h
  · rename_i id w₁ hid
    cases h
    exact ⟨id, rfl, hid⟩

theorem usedWireIds_append {more : List CryptoPolicy} {j : ℕ}
    (h : usedWireIds policies j = true) : usedWireIds (policies ++ more) j = true := by
  obtain ⟨cp, hcp, hid⟩ := usedWireIds_iff.mp h
  exact usedWireIds_iff.mpr ⟨cp, List.mem_append_left _ hcp, hid⟩

theorem WireIds.Recorded.policyBase (hw : w.Recorded policies)
    (h : policyBase w row = some (base, w')) : w'.Recorded (policies ++ expandRow base row) := by
  by_cases hrow : row.action = actionBypass
  · rw [NetEncryptor.policyBase, if_pos hrow] at h
    cases h
    exact ⟨fun j hj hused => usedWireIds_append (hw.used j hj hused), hw.map⟩
  · obtain ⟨id, hid, hkey⟩ := policyBase_encrypt hrow h
    rcases neWireIdForEncryptKey_eq_some hkey with ⟨-, -, -, -, rfl⟩ | ⟨-, hclaim, hused, hmap⟩
    · exact ⟨fun j hj h => usedWireIds_append (hw.used j hj h), hw.map⟩
    · obtain ⟨h₁, h₂, -⟩ := IdPool.claim_spec hclaim
      obtain ⟨cp, hcp⟩ : ∃ cp, cp ∈ expandRow base row :=
        List.exists_mem_of_ne_nil _ expandRow_ne_nil
      refine ⟨fun j hj h => ?_, fun e he => ?_⟩
      · by_cases hj' : j = id
        · refine usedWireIds_iff.mpr ⟨cp, List.mem_append_right _ hcp, ?_⟩
          rw [(mem_expandRow hcp).1, hid, hj']
        · rw [hused, Buffer.set_of_ne hj'] at h
          exact usedWireIds_append (hw.used j hj h)
      · have hset : ∀ k, w.used k = true → w'.used k = true := by
          intro k hk
          rw [hused]
          by_cases hk' : k = id
          · rw [hk', Buffer.set_self]
          · rw [Buffer.set_of_ne hk', hk]
        have hold : e ∈ w.map → 1 ≤ e.wireId ∧ e.wireId ≤ 255 ∧ w'.used e.wireId = true := by
          intro he
          obtain ⟨h₁, h₂, h₃⟩ := hw.map e he
          exact ⟨h₁, h₂, hset _ h₃⟩
        rw [hmap] at he
        split_ifs at he
        · rcases List.mem_append.mp he with he | he
          · exact hold he
          · rw [List.mem_singleton.mp he, hused, Buffer.set_self]
            exact ⟨h₁, h₂, rfl⟩
        · exact hold he

theorem WireIds.Recorded.loadPolicyRows : ∀ {rows : List PolicyRow} {w w' : WireIds}
    {policies : List CryptoPolicy}, w.Recorded policies → wireIdsAfter w rows = some w' →
      loadPolicyRows w policies rows = some out → w'.Recorded out := by
  intro rows
  induction rows with
  | nil =>
    intro w w' policies hw hw' h
    cases hw'
    cases h
    exact hw
  | cons row rows ih =>
    intro w w' policies hw hw' h
    obtain ⟨base, w₁, hbase, hrest⟩ := loadPolicyRows_cons h
    rw [wireIdsAfter, hbase] at hw'
    exact ih (hw.policyBase hbase) hw' hrest

end

/-! ## Merging -/

section

variable {policies cps out : List CryptoPolicy} {cp cp' : CryptoPolicy}

theorem uniquePolicy_eq_some (h : uniquePolicy policies cp = some cp') :
    ∃ id : ℕ, IdPool.claim 255 (usedWireIds policies) cp.id = some id ∧
      cp' = { cp with id := (id : ℤ) } := by
  unfold uniquePolicy at h
  split_ifs at h
  obtain ⟨id, hid, rfl⟩ := Option.map_eq_some_iff.mp h
  exact ⟨id, hid, rfl⟩

theorem usedWireIds_uniquePolicy {j : ℕ} (hj : 1 ≤ j) (hj' : j ≤ 255) (hid : cp.id = j)
    (h : uniquePolicy policies cp = some cp') : usedWireIds (policies ++ [cp']) j = true := by
  obtain ⟨id, hclaim, rfl⟩ := uniquePolicy_eq_some h
  by_cases hused : usedWireIds policies j = true
  · exact usedWireIds_append hused
  · have hfree : IdPool.Free 255 (usedWireIds policies) cp.id := by
      refine ⟨by omega, by omega, ?_⟩
      rw [hid, Int.toNat_natCast]
      simpa using hused
    rw [IdPool.claim_of_free hfree, hid, Int.toNat_natCast] at hclaim
    cases hclaim
    exact usedWireIds_iff.mpr ⟨_, List.mem_append_right _ List.mem_cons_self, rfl⟩

/-- **Merging** appends policies with the database ids of the given ones, and leaves every id of
theirs in use. -/
theorem appendPolicies_spec : ∀ {cps policies : List CryptoPolicy},
    appendPolicies policies cps = some out →
      (∃ more, out = policies ++ more ∧
        more.map CryptoPolicy.dbId = cps.map CryptoPolicy.dbId) ∧
      ∀ cp ∈ cps, ∀ j : ℕ, cp.id = j → 1 ≤ j → j ≤ 255 → usedWireIds out j = true := by
  intro cps
  induction cps with
  | nil =>
    intro policies h
    cases h
    exact ⟨⟨[], (List.append_nil _).symm, rfl⟩, fun cp hcp => by cases hcp⟩
  | cons cp cps ih =>
    intro policies h
    rw [appendPolicies] at h
    split at h
    · cases h
    rename_i cp' hcp'
    obtain ⟨⟨more, rfl, hids⟩, hused⟩ := ih h
    refine ⟨⟨cp' :: more, List.append_assoc _ _ _, ?_⟩, fun c hc j hid hj hj' => ?_⟩
    · obtain ⟨id, -, rfl⟩ := uniquePolicy_eq_some hcp'
      rw [List.map_cons, List.map_cons, hids]
    · rcases List.mem_cons.mp hc with rfl | hc
      · exact usedWireIds_append (usedWireIds_uniquePolicy hj hj' hid hcp')
      · exact hused c hc j hid hj hj'

theorem loadedPolicies_append : ∀ {ps qs : List ProfileRows} {loaded : List CryptoPolicy},
    loadedPolicies (ps ++ qs) = some loaded ↔ ∃ l l', loadedPolicies ps = some l ∧
      loadedPolicies qs = some l' ∧ loaded = l ++ l' := by
  intro ps
  induction ps with
  | nil =>
    intro qs loaded
    exact ⟨fun h => ⟨[], loaded, rfl, h, rfl⟩, fun ⟨l, l', hl, hl', h⟩ => by cases hl; simpa [h]⟩
  | cons rows ps ih =>
    intro qs loaded
    rw [List.cons_append, loadedPolicies, loadedPolicies]
    cases hrows : loadPolicyRows WireIds.start [] rows.policies with
    | none => simp
    | some cps =>
      simp only [Option.map_eq_some_iff, ih]
      refine ⟨?_, ?_⟩
      · rintro ⟨_, ⟨l, l', hl, hl', rfl⟩, rfl⟩
        exact ⟨_, l', ⟨l, hl, rfl⟩, hl', (List.append_assoc _ _ _).symm⟩
      · rintro ⟨_, l', ⟨l, hl, rfl⟩, hl', rfl⟩
        exact ⟨l ++ l', ⟨l, l', hl, hl', rfl⟩, (List.append_assoc _ _ _).symm⟩

theorem loadedPolicies_dbIds : ∀ {ps : List ProfileRows} {loaded : List CryptoPolicy},
    loadedPolicies ps = some loaded →
      ∀ cp ∈ loaded, ∃ r ∈ ps.flatMap ProfileRows.policies, cp.dbId = r.id := by
  intro ps
  induction ps with
  | nil =>
    intro loaded h cp hcp
    cases h
    cases hcp
  | cons rows ps ih =>
    intro loaded h cp hcp
    rw [loadedPolicies] at h
    split at h
    · cases h
    rename_i cps hrows
    obtain ⟨l, hl, rfl⟩ := Option.map_eq_some_iff.mp h
    obtain ⟨more, rfl, hmore⟩ := loadPolicyRows_dbIds hrows
    rw [List.flatMap_cons]
    rcases List.mem_append.mp hcp with hcp | hcp
    · obtain ⟨r, hr, hid⟩ := hmore cp (by simpa using hcp)
      exact ⟨r, List.mem_append_left _ hr, hid⟩
    · obtain ⟨r, hr, hid⟩ := ih hl cp hcp
      exact ⟨r, List.mem_append_right _ hr, hid⟩

end

/-! ## The id of a host's row -/

section

variable {row : PolicyRow} {cfg : AppConfig}

theorem Host.dbId_ne (H : Host row) {l mid : List CryptoPolicy}
    (hl : loadedPolicies H.profilesBefore = some l)
    (hmid : loadPolicyRows WireIds.start [] H.rowsBefore = some mid) :
    ∀ cp ∈ l ++ mid, cp.dbId ≠ row.id := by
  intro cp hcp
  obtain ⟨more, rfl, hmore⟩ := loadPolicyRows_dbIds hmid
  rcases List.mem_append.mp hcp with hcp | hcp
  · obtain ⟨r, hr, hid⟩ := loadedPolicies_dbIds hl cp hcp
    rw [hid]
    refine H.id_ne r ?_
    rw [List.flatMap_append]
    simp [hr]
  · obtain ⟨r, hr, hid⟩ := hmore cp (by simpa using hcp)
    rw [hid]
    exact H.id_ne r (by simp [hr])

theorem wireId_eq_of_split {dbId : ℤ} {before after : List CryptoPolicy} {cp : CryptoPolicy}
    (h : cfg.policies = before ++ cp :: after) (hbefore : ∀ cp' ∈ before, cp'.dbId ≠ dbId)
    (hcp : cp.dbId = dbId) : wireId cfg dbId = some cp.id := by
  have hnone : before.find? (fun cp => cp.dbId == dbId) = none :=
    List.find?_eq_none.mpr fun cp' hcp' => by simp [hbefore cp' hcp']
  rw [wireId, h, List.find?_append, hnone]
  simp [hcp]

/-- How the row's policy gets its wire id: from the base that the row has after the rows before it,
among the policies merged before it. -/
theorem Host.wireId_eq (H : Host row) (h : buildMergedConfig H.profiles = some cfg) :
    ∃ w w' mid merged base id, H.wireIdsBefore = some w ∧ w.Recorded mid ∧
      H.mergedBefore = some merged ∧ policyBase w row = some (base, w') ∧
      (∀ j, 1 ≤ j → j ≤ 255 → usedWireIds mid j = true → usedWireIds merged j = true) ∧
      IdPool.claim 255 (usedWireIds merged) base.id = some id ∧ wireId cfg row.id = some (id : ℤ) := by
  obtain ⟨loaded, hloaded, hmerge⟩ := buildMergedConfig_policies h
  obtain ⟨l, l', hl, hl', rfl⟩ := loadedPolicies_append.mp hloaded
  rw [loadedPolicies] at hl'
  split at hl'
  · cases hl'
  rename_i cps hcps
  obtain ⟨rest, hrest, rfl⟩ := Option.map_eq_some_iff.mp hl'
  rw [H.policies_eq] at hcps
  obtain ⟨w, mid, hw, hmid, hrow⟩ := loadPolicyRows_append hcps
  obtain ⟨base, w', hbase, htail⟩ := loadPolicyRows_cons hrow
  obtain ⟨more, rfl, -⟩ := loadPolicyRows_dbIds htail
  -- the policies before the row's, and the first one of the row
  obtain ⟨first, others, hfirst⟩ : ∃ first others, expandRow base row = first :: others :=
    List.exists_cons_of_ne_nil expandRow_ne_nil
  have hmem : first ∈ expandRow base row := hfirst ▸ List.mem_cons_self
  obtain ⟨hfid, hfdb⟩ := mem_expandRow hmem
  have hsplit : l ++ (mid ++ expandRow base row ++ more ++ rest) =
      (l ++ mid) ++ first :: (others ++ more ++ rest) := by
    rw [hfirst]
    simp
  rw [hsplit, appendPolicies_append, Option.bind_eq_some_iff] at hmerge
  obtain ⟨merged, hmerged, hrest'⟩ := hmerge
  rw [appendPolicies] at hrest'
  split at hrest'
  · cases hrest'
  rename_i cp' hcp'
  obtain ⟨⟨tail, hcfg, -⟩, -⟩ := appendPolicies_spec hrest'
  obtain ⟨⟨m, hm, hmids⟩, hused⟩ := appendPolicies_spec hmerged
  obtain ⟨id, hclaim, rfl⟩ := uniquePolicy_eq_some hcp'
  refine ⟨w, w', mid, merged, base, id, hw, ?_, ?_, hbase, ?_, hfid ▸ hclaim, ?_⟩
  · exact recorded_start.loadPolicyRows hw hmid
  · have hloaded : loadedPolicies (H.profilesBefore ++
        [{ H.profile with policies := H.rowsBefore }]) = some (l ++ mid) := by
      refine loadedPolicies_append.mpr ⟨l, mid, hl, ?_, rfl⟩
      rw [loadedPolicies, hmid]
      simp [loadedPolicies]
    rw [Host.mergedBefore, hloaded]
    exact hmerged
  · intro j hj hj' hmidused
    obtain ⟨cp, hcp, hid⟩ := usedWireIds_iff.mp hmidused
    exact hused cp (List.mem_append_right _ hcp) j hid hj hj'
  · refine wireId_eq_of_split (hcfg.trans (List.append_assoc ..)) (fun cp hcp hdb => ?_) ?_
    · have hmem : cp.dbId ∈ (l ++ mid).map CryptoPolicy.dbId := by
        rw [← hmids]
        rw [hm, List.nil_append] at hcp
        exact List.mem_map_of_mem hcp
      obtain ⟨cp₀, hcp₀, hdb₀⟩ := List.mem_map.mp hmem
      exact H.dbId_ne hl hmid cp₀ hcp₀ (hdb₀.trans hdb)
    · exact hfdb.trans (policyBase_dbId hbase)

/-- **A row keeps its database id** as its wire id exactly under the condition. -/
theorem Host.wireId_eq_dbId_iff (H : Host row) (h : buildMergedConfig H.profiles = some cfg)
    (hrow : row.action ≠ actionBypass) (h₁ : 1 ≤ row.id) (h₂ : row.id ≤ 255) :
    wireId cfg row.id = some row.id ↔ H.KeepsId := by
  obtain ⟨w, w', mid, merged, base, id, hw, hrec, hmerged, hbase, hmono, hclaim, hid⟩ :=
    H.wireId_eq h
  obtain ⟨load, hload, hkey⟩ := policyBase_encrypt hrow hbase
  obtain ⟨d, hd⟩ : ∃ d : ℕ, row.id = d := ⟨row.id.toNat, by omega⟩
  have hkeeps : H.KeepsId ↔ usedWireIds merged d = false ∧
      (w.find row.key row.aesBits.keySize = none ∨
        ∀ j, 1 ≤ j → j < d → usedWireIds merged j = true) := by
    have hdn : row.id.toNat = d := by omega
    unfold Host.KeepsId
    rw [hdn]
    refine ⟨?_, fun hcond => ⟨w, merged, hw, hmerged, hcond⟩⟩
    rintro ⟨w₁, merged₁, hw₁, hmerged₁, hcond⟩
    rw [hw] at hw₁
    rw [hmerged] at hmerged₁
    cases hw₁
    cases hmerged₁
    exact hcond
  have hsame : wireId cfg row.id = some row.id ↔ id = d := by
    rw [hid, hd]
    simp
  rw [hsame, hkeeps]
  rw [hload] at hclaim
  rcases neWireIdForEncryptKey_eq_some hkey with
    ⟨e, he, hfind, rfl, -⟩ | ⟨hfind, hload', -, -⟩
  · -- the key has an id, which a policy merged before has in use
    obtain ⟨he₁, he₂, heused⟩ := hrec.map e he
    have hused := hmono _ he₁ he₂ (hrec.used _ he₁ heused)
    rw [IdPool.claim_used_eq_iff (by omega) hused hclaim]
    simp [hfind]
  · simp only [hfind, true_or, and_true]
    rw [hd] at hload'
    by_cases hdused : w.used d = true
    · -- an earlier row was given the row's database id
      have hused := hmono d (by omega) (by omega) (hrec.used d (by omega) hdused)
      refine iff_of_false (fun heq => ?_) (by simp [hused])
      have hfree := (IdPool.claim_spec hclaim).2.2
      rw [heq, hused] at hfree
      cases hfree
    · have hload_eq : load = d :=
        (IdPool.claim_eq_self_iff (by omega) (by omega) hload').mpr (by simpa using hdused)
      rw [hload_eq] at hclaim
      exact IdPool.claim_eq_self_iff (by omega) (by omega) hclaim

/-- **Two hosts with a policy** give it one wire id if the row keeps its database id on both; if it
does on one of them only, they give it different ones. -/
theorem wireId_agree {rowA rowB : PolicyRow} (A : Host rowA) (B : Host rowB)
    {cfgA cfgB : AppConfig} (hA : buildMergedConfig A.profiles = some cfgA)
    (hB : buildMergedConfig B.profiles = some cfgB) (hid : rowA.id = rowB.id) (h₁ : 1 ≤ rowA.id)
    (h₂ : rowA.id ≤ 255) (hencA : rowA.action ≠ actionBypass)
    (hencB : rowB.action ≠ actionBypass) :
    (A.KeepsId ∧ B.KeepsId → wireId cfgA rowA.id = wireId cfgB rowB.id) ∧
      (wireId cfgA rowA.id = wireId cfgB rowB.id → (A.KeepsId ↔ B.KeepsId)) := by
  have keepsA := A.wireId_eq_dbId_iff hA hencA h₁ h₂
  have keepsB := B.wireId_eq_dbId_iff hB hencB (hid ▸ h₁) (hid ▸ h₂)
  refine ⟨fun ⟨hA', hB'⟩ => ?_, fun heq => ?_⟩
  · rw [keepsA.mpr hA', keepsB.mpr hB', hid]
  · rw [← keepsA, ← keepsB, heq, hid]

end

/-! ## Two hosts -/

/-- A row that encrypts at layer 3 with a key, or a bypassing one without. -/
def sampleRow (id action : ℤ) (key : Key) : PolicyRow where
  id := id
  priority := 1
  action := action
  protocol := 0
  srcItems := [⟨true, false, 0, 0⟩]
  dstItems := [⟨true, false, 0, 0⟩]
  srcPortItems := [⟨-1, -1⟩]
  dstPortItems := [⟨-1, -1⟩]
  cryptoMode := .gcm
  aesBits := .aes128
  nonce := none
  key := key
  items_ne := by decide

/-- The policy that both hosts have, with the database id `1`. -/
def sharedRow : PolicyRow := sampleRow 1 actionEncryptL3 ⟨List.replicate 32 1, rfl⟩

def bypassRow : PolicyRow := sampleRow 9 actionBypass Key.zero

def hostProfile (policies : List PolicyRow) : ProfileRows :=
  ⟨1, "p", ["lan0"], [⟨"wan0", 0, 1⟩], policies⟩

def loneHost : Host sharedRow where
  profilesBefore := []
  profile := hostProfile [sharedRow]
  profilesAfter := []
  rowsBefore := []
  rowsAfter := []
  policies_eq := rfl
  id_ne := by decide

def bypassLastHost : Host sharedRow where
  profilesBefore := []
  profile := hostProfile [sharedRow, bypassRow]
  profilesAfter := []
  rowsBefore := []
  rowsAfter := [bypassRow]
  policies_eq := rfl
  id_ne := by decide

def bypassFirstHost : Host sharedRow where
  profilesBefore := []
  profile := hostProfile [bypassRow, sharedRow]
  profilesAfter := []
  rowsBefore := [bypassRow]
  rowsAfter := []
  policies_eq := rfl
  id_ne := by decide

def Host.config {row : PolicyRow} (H : Host row) : AppConfig :=
  (buildMergedConfig H.profiles).getD AppConfig.empty

theorem wireId_agree_bypassLast :
    wireId loneHost.config 1 = wireId bypassLastHost.config 1 :=
  (wireId_agree loneHost bypassLastHost rfl rfl rfl (by decide) (by decide) (by decide)
    (by decide)).1 ⟨⟨_, _, rfl, rfl, rfl, .inl rfl⟩, ⟨_, _, rfl, rfl, rfl, .inl rfl⟩⟩

/-- A bypassing row before it takes its wire id. -/
theorem wireId_disagree_bypassFirst :
    buildMergedConfig loneHost.profiles = some loneHost.config ∧
      buildMergedConfig bypassFirstHost.profiles = some bypassFirstHost.config ∧
      wireId loneHost.config sharedRow.id = some 1 ∧
      wireId bypassFirstHost.config sharedRow.id = some 2 :=
  ⟨rfl, rfl, rfl, rfl⟩

end NetEncryptor

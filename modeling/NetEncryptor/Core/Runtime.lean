import NetEncryptor.Core.Config

/-!
# The crypto runtime

`rebuild_crypto_runtime` gives every policy of a configuration its key context.  The context of a
policy that was there before, unchanged, is copied from its old place; any other one is
initialised, which also resets the nonce counter of the process.
-/

namespace NetEncryptor

/-- `g_policy_crypto_ctx`, `g_policy_crypto_ctx_ready`, `g_policy_index_by_action_id` and the active
policies. -/
structure PolicyRuntime where
  ctx : Buffer PacketCryptoCtx
  ready : Buffer Bool
  /-- `none` stands for `-1`. -/
  indexByActionId : ℤ → UInt8 → Option ℕ
  active : List CryptoPolicy

/-- The zeroed statics of the process. -/
def PolicyRuntime.start : PolicyRuntime where
  ctx _ := PacketCryptoCtx.empty
  ready _ := false
  indexByActionId _ _ := some 0
  active := []

/-- `same_crypto_policy` compares every field that a policy has. -/
def sameCryptoPolicy (a b : CryptoPolicy) : Prop := a = b

instance (a b : CryptoPolicy) : Decidable (sameCryptoPolicy a b) :=
  inferInstanceAs (Decidable (a = b))

/-- The policy gets a context: it does not bypass, and it has a key. -/
def CryptoPolicy.NeedsCtx (cp : CryptoPolicy) : Prop :=
  cp.action ≠ actionBypass ∧ cp.key ≠ Key.zero

instance (cp : CryptoPolicy) : Decidable cp.NeedsCtx := inferInstanceAs (Decidable (_ ∧ _))

/-- The first old place of the same policy with a context that is ready. -/
def PolicyRuntime.findReusable (old : PolicyRuntime) (cp : CryptoPolicy) : Option ℕ :=
  (List.range old.active.length).find? fun oi =>
    old.ready oi && decide (∃ cp', old.active[oi]? = some cp' ∧ sameCryptoPolicy cp' cp)

/-- `g_policy_index_by_action_id` after the policy at index `pi`; the first policy keeps an entry. -/
def recordIndex (index : ℤ → UInt8 → Option ℕ) (cp : CryptoPolicy) (pi : ℕ) :
    ℤ → UInt8 → Option ℕ :=
  let pid := UInt8.ofNat (cp.id % 256).toNat
  if 0 ≤ cp.action ∧ cp.action ≤ actionEncryptL4 ∧ index cp.action pid = none then
    fun a id => if a = cp.action ∧ id = pid then some pi else index a id
  else index

/-- What a rebuild has made so far, whether it has reset the nonce counter, and
`*has_encrypt_l2_out`. -/
structure Rebuild where
  runtime : PolicyRuntime
  counterReset : Bool
  hasEncryptL2 : Bool

/-- The policy at index `pi` has got its context: the end of a round. -/
def Rebuild.finish (r : Rebuild) (cp : CryptoPolicy) (pi : ℕ) : Rebuild :=
  { r with
    runtime := { r.runtime with
      ready := r.runtime.ready.set pi true
      indexByActionId := recordIndex r.runtime.indexByActionId cp pi }
    hasEncryptL2 := r.hasEncryptL2 || cp.action == actionEncryptL2 }

/-- Store a context. -/
def Rebuild.setCtx (r : Rebuild) (pi : ℕ) (ctx : PacketCryptoCtx) : Rebuild :=
  { r with runtime := { r.runtime with ctx := r.runtime.ctx.set pi ctx } }

section

variable (hmac : Hmac) (getCtx : ℕ → Bool)

/-- The round for the policy at index `pi`.  `getCtx` says whether the cipher context that
`packet_crypto_init` asks for at its end is there. -/
def rebuildPolicy (old : PolicyRuntime) (r : Rebuild) (cp : CryptoPolicy) (pi : ℕ) : Rebuild :=
  if cp.NeedsCtx then
    match old.findReusable cp with
    | some oi => (r.setCtx pi (old.ctx oi)).finish cp pi
    | none =>
      let r := { r.setCtx pi (packetCryptoInit hmac cp.aesBits cp.key) with counterReset := true }
      if getCtx pi then r.finish cp pi else r
  else r

/-- The rounds for the policies from index `pi` on. -/
def rebuildPolicies (old : PolicyRuntime) : List CryptoPolicy → ℕ → Rebuild → Rebuild
  | [], _, r => r
  | cp :: cps, pi, r => rebuildPolicies old cps (pi + 1) (rebuildPolicy hmac getCtx old r cp pi)

def rebuildCryptoRuntime (old : PolicyRuntime) (policies : List CryptoPolicy) : Rebuild :=
  let policies := policies.take maxCryptoPolicies
  let r := rebuildPolicies hmac getCtx old policies 0
    ⟨{ old with ready := fun _ => false, indexByActionId := fun _ _ => none }, false, false⟩
  { r with runtime := { r.runtime with active := policies } }

end

/-! ## What a rebuild does -/

section

variable {hmac : Hmac} {getCtx : ℕ → Bool} {old : PolicyRuntime}

/-- The round for a policy gets it a context. -/
def GetsCtx (getCtx : ℕ → Bool) (old : PolicyRuntime) (cp : CryptoPolicy) (pi : ℕ) : Prop :=
  cp.NeedsCtx ∧ (old.findReusable cp ≠ none ∨ getCtx pi = true)

theorem findReusable_ready {cp : CryptoPolicy} {oi : ℕ} (h : old.findReusable cp = some oi) :
    old.ready oi = true := by
  unfold PolicyRuntime.findReusable at h
  have := List.find?_some h
  exact (Bool.and_eq_true_iff.mp this).1

theorem rebuildPolicy_ready {r : Rebuild} {cp : CryptoPolicy} {pi j : ℕ} :
    (rebuildPolicy hmac getCtx old r cp pi).runtime.ready j = true ↔
      (j = pi ∧ GetsCtx getCtx old cp pi) ∨ r.runtime.ready j = true := by
  unfold rebuildPolicy GetsCtx
  by_cases hneeds : cp.NeedsCtx
  · rw [if_pos hneeds]
    have hset : ∀ b : Buffer Bool, b.set pi true j = true ↔ j = pi ∨ b j = true := by
      intro b
      by_cases hj : j = pi
      · simp [hj]
      · simp [Buffer.set_of_ne hj, hj]
    cases hf : old.findReusable cp with
    | some oi => simpa [hneeds, Rebuild.finish, Rebuild.setCtx] using hset r.runtime.ready
    | none =>
      by_cases hget : getCtx pi = true
      · simpa [hneeds, hget, Rebuild.finish, Rebuild.setCtx] using hset r.runtime.ready
      · simp [hneeds, hget, Rebuild.setCtx]
  · rw [if_neg hneeds]
    simp [hneeds]

theorem rebuildPolicies_ready {j : ℕ} : ∀ {cps : List CryptoPolicy} {pi : ℕ} {r : Rebuild},
    (rebuildPolicies hmac getCtx old cps pi r).runtime.ready j = true ↔
      (∃ k cp, j = pi + k ∧ cps[k]? = some cp ∧ GetsCtx getCtx old cp j) ∨
        r.runtime.ready j = true := by
  intro cps
  induction cps with
  | nil => intro pi r; simp [rebuildPolicies]
  | cons cp cps ih =>
    intro pi r
    rw [rebuildPolicies, ih, rebuildPolicy_ready, ← or_assoc]
    refine or_congr_left ⟨?_, ?_⟩
    · rintro (⟨k, cp', rfl, hk, hget⟩ | ⟨rfl, hget⟩)
      · exact ⟨k + 1, cp', by omega, hk, hget⟩
      · exact ⟨0, cp, rfl, rfl, hget⟩
    · rintro ⟨k, cp', rfl, hk, hget⟩
      cases k with
      | zero => exact .inr ⟨rfl, Option.some.inj hk ▸ hget⟩
      | succ k => exact .inl ⟨k, cp', by omega, hk, hget⟩

/-- **Readiness.** After a rebuild the policies with a context are those that do not bypass and
have a key, if they had a context before or a new one could be made. -/
theorem rebuildCryptoRuntime_ready_iff {policies : List CryptoPolicy} {pi : ℕ} :
    (rebuildCryptoRuntime hmac getCtx old policies).runtime.ready pi = true ↔
      ∃ cp, (policies.take maxCryptoPolicies)[pi]? = some cp ∧ GetsCtx getCtx old cp pi := by
  show (rebuildPolicies hmac getCtx old _ 0 _).runtime.ready pi = true ↔ _
  rw [rebuildPolicies_ready]
  simp

theorem rebuildPolicy_hasEncryptL2 {r : Rebuild} {cp : CryptoPolicy} {pi : ℕ} :
    (rebuildPolicy hmac getCtx old r cp pi).hasEncryptL2 = true ↔
      (cp.action = actionEncryptL2 ∧ GetsCtx getCtx old cp pi) ∨ r.hasEncryptL2 = true := by
  unfold rebuildPolicy GetsCtx
  by_cases hneeds : cp.NeedsCtx
  · rw [if_pos hneeds]
    cases hf : old.findReusable cp with
    | some oi => simp [hneeds, Rebuild.finish, Rebuild.setCtx, or_comm]
    | none =>
      by_cases hget : getCtx pi = true
      · simp [hneeds, hget, Rebuild.finish, Rebuild.setCtx, or_comm]
      · simp [hneeds, hget, Rebuild.setCtx]
  · rw [if_neg hneeds]
    simp [hneeds]

theorem rebuildPolicies_hasEncryptL2 : ∀ {cps : List CryptoPolicy} {pi : ℕ} {r : Rebuild},
    (rebuildPolicies hmac getCtx old cps pi r).hasEncryptL2 = true ↔
      (∃ k cp, cps[k]? = some cp ∧ cp.action = actionEncryptL2 ∧ GetsCtx getCtx old cp (pi + k)) ∨
        r.hasEncryptL2 = true := by
  intro cps
  induction cps with
  | nil => intro pi r; simp [rebuildPolicies]
  | cons cp cps ih =>
    intro pi r
    rw [rebuildPolicies, ih, rebuildPolicy_hasEncryptL2, ← or_assoc]
    refine or_congr_left ⟨?_, ?_⟩
    · rintro (⟨k, cp', hk, hl2, hget⟩ | ⟨hl2, hget⟩)
      · exact ⟨k + 1, cp', hk, hl2, by rwa [show pi + (k + 1) = pi + 1 + k by omega]⟩
      · exact ⟨0, cp, rfl, hl2, hget⟩
    · rintro ⟨k, cp', hk, hl2, hget⟩
      cases k with
      | zero => exact .inr (Option.some.inj hk ▸ ⟨hl2, hget⟩)
      | succ k => exact .inl ⟨k, cp', hk, hl2, by rwa [show pi + 1 + k = pi + (k + 1) by omega]⟩

/-- One of the policies is a layer-2 policy that gets a context. -/
def GetsL2Ctx (getCtx : ℕ → Bool) (old : PolicyRuntime) (policies : List CryptoPolicy) : Prop :=
  ∃ pi cp, (policies.take maxCryptoPolicies)[pi]? = some cp ∧ cp.action = actionEncryptL2 ∧
    GetsCtx getCtx old cp pi

theorem rebuildCryptoRuntime_hasEncryptL2_iff {policies : List CryptoPolicy} :
    (rebuildCryptoRuntime hmac getCtx old policies).hasEncryptL2 = true ↔
      GetsL2Ctx getCtx old policies := by
  show (rebuildPolicies hmac getCtx old _ 0 _).hasEncryptL2 = true ↔ _
  rw [rebuildPolicies_hasEncryptL2]
  simp [GetsL2Ctx]

/-- As long as the counter has not been reset, every context that is ready is an old one. -/
def CopiesOnly (old : PolicyRuntime) (r : Rebuild) : Prop :=
  r.counterReset = false → ∀ pi, r.runtime.ready pi = true →
    ∃ oi, old.ready oi = true ∧ r.runtime.ctx pi = old.ctx oi

theorem rebuildPolicy_copiesOnly {r : Rebuild} {cp : CryptoPolicy} {pi : ℕ}
    (h : CopiesOnly old r) : CopiesOnly old (rebuildPolicy hmac getCtx old r cp pi) := by
  unfold rebuildPolicy
  split
  · cases hf : old.findReusable cp with
    | some oi =>
      intro hreset j hj
      by_cases hjp : j = pi
      · subst hjp
        exact ⟨oi, findReusable_ready hf, Buffer.set_self _ _ _⟩
      · have hj' : r.runtime.ready j = true := by
          rwa [← Buffer.set_of_ne (b := r.runtime.ready) (x := true) hjp]
        obtain ⟨oi', hready, hctx⟩ := h hreset j hj'
        exact ⟨oi', hready, (Buffer.set_of_ne hjp).trans hctx⟩
    | none =>
      simp only
      split <;> intro hreset <;> cases hreset
  · exact h

theorem rebuildPolicies_copiesOnly : ∀ {cps : List CryptoPolicy} {pi : ℕ} {r : Rebuild},
    CopiesOnly old r → CopiesOnly old (rebuildPolicies hmac getCtx old cps pi r) := by
  intro cps
  induction cps with
  | nil => exact fun h => h
  | cons cp cps ih => exact fun h => ih (rebuildPolicy_copiesOnly h)

/-- **A rebuild that does not reset the counter** only copies contexts. -/
theorem rebuildCryptoRuntime_copiesOnly {policies : List CryptoPolicy} :
    CopiesOnly old (rebuildCryptoRuntime hmac getCtx old policies) :=
  rebuildPolicies_copiesOnly fun _ _ h => by cases h

end

end NetEncryptor

import NetEncryptor.Base.Runs
import NetEncryptor.Core.Runtime

/-!
# Nonces over whole runs

The process as a system of threads that encrypt, calls of `packet_crypto_init` and hot reloads,
interleaved in any way.  An encryption is two steps: a thread draws a value of the process-wide
counter, and later makes a nonce of it and encrypts with some context.

The state remembers every encryption (`trace`) and how often the counter has been reset (`epoch`).
Within an epoch no counter value is drawn twice, so two encryptions under one key have different
nonces as long as no key is used with values from two epochs.
-/

namespace NetEncryptor

/-- A context of the policy runtime, or another one, such as the `crypto_ctx` of the forwarder. -/
inductive CtxRef
  | policy (pi : ℕ)
  | other (n : ℕ)
  deriving DecidableEq, Repr

/-- A counter value, and the number of resets before it was drawn. -/
@[ext] structure Draw where
  counter : ℕ
  epoch : ℕ
  deriving DecidableEq, Repr

structure Encryption where
  key : Key
  nonce : List UInt8
  draw : Draw
  deriving DecidableEq

structure NonceState where
  nonceCounter : ℕ
  runtime : PolicyRuntime
  ctxs : Buffer PacketCryptoCtx
  /-- The value that a thread has drawn and not used yet. -/
  drawn : ℕ → Option Draw
  epoch : ℕ
  draws : ℕ
  trace : List Encryption

def NonceState.start : NonceState :=
  ⟨0, PolicyRuntime.start, fun _ => PacketCryptoCtx.empty, fun _ => none, 0, 0, []⟩

inductive NonceAction
  | draw (thread : ℕ)
  | encrypt (thread : ℕ) (ref : CtxRef) (P : CryptoParams)
  | fail (thread : ℕ)
  | init (ref : CtxRef) (bits : AesBits) (masterKey : Key)
  | reload (policies : List CryptoPolicy) (getCtx : ℕ → Bool)

namespace NonceState

/-- The context, if an encoder accepts it. -/
def usable (s : NonceState) : CtxRef → Option PacketCryptoCtx
  | .policy pi =>
    if s.runtime.ready pi && (s.runtime.ctx pi).initialized then some (s.runtime.ctx pi) else none
  | .other n => if (s.ctxs n).initialized then some (s.ctxs n) else none

def setCtx (s : NonceState) (ref : CtxRef) (ctx : PacketCryptoCtx) : NonceState :=
  match ref with
  | .policy pi => { s with runtime := { s.runtime with ctx := s.runtime.ctx.set pi ctx } }
  | .other n => { s with ctxs := s.ctxs.set n ctx }

def resetCounter (s : NonceState) : NonceState :=
  { s with nonceCounter := packetCryptoResetCounter, epoch := s.epoch + 1 }

end NonceState

section Step

variable (hmac : Hmac) (salt : ℕ → { bytes : List UInt8 // bytes.length = 16 })

/-- What an action makes of a state; `none` when it cannot happen there.  A reload is one step:
the workers are paused while it rebuilds the runtime. -/
def nonceStep (s : NonceState) : NonceAction → Option NonceState
  | .draw thread =>
    if s.drawn thread = none then
      let c := packetCryptoNextCounter s.nonceCounter
      some { s with
        nonceCounter := c.2
        drawn := Function.update s.drawn thread (some ⟨c.1, s.epoch⟩)
        draws := s.draws + 1 }
    else none
  | .encrypt thread ref P =>
    match s.drawn thread, s.usable ref with
    | some d, some ctx =>
      if P.NonceSizeOk then
        let nonce :=
          cryptoGenerateNonce { P with nonceSalt := salt thread } d.counter protoFlagIpv4
        some { s with
          drawn := Function.update s.drawn thread none
          trace := ⟨packetCryptoGetKey ctx .current, nonce, d⟩ :: s.trace }
      else none
    | _, _ => none
  -- the cipher reports an error and nothing is sent
  | .fail thread => some { s with drawn := Function.update s.drawn thread none }
  | .init ref bits masterKey =>
    some (s.setCtx ref (packetCryptoInit hmac bits masterKey)).resetCounter
  | .reload policies getCtx =>
    let r := rebuildCryptoRuntime hmac getCtx s.runtime policies
    let s := { s with runtime := r.runtime }
    some (if r.counterReset then s.resetCounter else s)

end Step

/-! ## What a step does -/

/-- Nothing is drawn or used. -/
structure SameDraws (s s' : NonceState) : Prop where
  drawn : s'.drawn = s.drawn
  draws : s'.draws = s.draws
  trace : s'.trace = s.trace
  counter : s'.nonceCounter = s.nonceCounter ∧ s'.epoch = s.epoch ∨
    s'.nonceCounter = 0 ∧ s'.epoch = s.epoch + 1

def NonceState.afterDraw (s : NonceState) (thread : ℕ) : NonceState :=
  { s with
    nonceCounter := (s.nonceCounter + 1) % 2 ^ 64
    drawn := Function.update s.drawn thread (some ⟨s.nonceCounter % 2 ^ 31, s.epoch⟩)
    draws := s.draws + 1 }

def NonceState.afterEncrypt (s : NonceState) (thread : ℕ) (e : Encryption) : NonceState :=
  { s with drawn := Function.update s.drawn thread none, trace := e :: s.trace }

section Step

variable {hmac : Hmac} {salt : ℕ → { bytes : List UInt8 // bytes.length = 16 }} {s s' : NonceState}

theorem nonceStep_encrypt {thread : ℕ} {ref : CtxRef} {P : CryptoParams}
    (h : nonceStep hmac salt s (.encrypt thread ref P) = some s') :
    ∃ d ctx, s.drawn thread = some d ∧ s.usable ref = some ctx ∧ P.NonceSizeOk ∧
      s' = s.afterEncrypt thread ⟨packetCryptoGetKey ctx .current,
        cryptoGenerateNonce { P with nonceSalt := salt thread } d.counter protoFlagIpv4, d⟩ := by
  unfold nonceStep at h
  cases hd : s.drawn thread with
  | none => simp [hd] at h
  | some d =>
    cases hu : s.usable ref with
    | none => simp [hd, hu] at h
    | some ctx =>
      simp only [hd, hu] at h
      split_ifs at h with hP
      exact ⟨d, ctx, rfl, rfl, hP, (Option.some.inj h).symm⟩

/-- **A step** draws a value, uses one, drops one, or leaves them all alone. -/
theorem nonceStep_cases {a : NonceAction} (h : nonceStep hmac salt s a = some s') :
    (∃ thread, s.drawn thread = none ∧ s' = s.afterDraw thread) ∨
    (∃ thread e, s.drawn thread = some e.draw ∧ s' = s.afterEncrypt thread e) ∨
    (∃ thread, s' = { s with drawn := Function.update s.drawn thread none }) ∨
    SameDraws s s' := by
  cases a with
  | draw thread =>
    unfold nonceStep at h
    simp only at h
    split_ifs at h with hd
    exact .inl ⟨thread, hd, (Option.some.inj h).symm⟩
  | encrypt thread ref P =>
    obtain ⟨d, ctx, hd, -, -, rfl⟩ := nonceStep_encrypt h
    exact .inr (.inl ⟨thread, _, hd, rfl⟩)
  | fail thread => exact .inr (.inr (.inl ⟨thread, (Option.some.inj h).symm⟩))
  | init ref bits masterKey =>
    obtain rfl := Option.some.inj h
    refine .inr (.inr (.inr ?_))
    cases ref <;> exact ⟨rfl, rfl, rfl, .inr ⟨rfl, rfl⟩⟩
  | reload policies getCtx =>
    obtain rfl := Option.some.inj h
    refine .inr (.inr (.inr ?_))
    split_ifs
    · exact ⟨rfl, rfl, rfl, .inr ⟨rfl, rfl⟩⟩
    · exact ⟨rfl, rfl, rfl, .inl ⟨rfl, rfl⟩⟩

theorem draws_le_of_nonceStep {a : NonceAction} (h : nonceStep hmac salt s a = some s') :
    s.draws ≤ s'.draws := by
  obtain ⟨_, -, rfl⟩ | ⟨_, _, -, rfl⟩ | ⟨_, rfl⟩ | hsame := nonceStep_cases h
  · exact Nat.le_succ _
  · exact le_rfl
  · exact le_rfl
  · exact hsame.draws.ge

end Step

/-! ## Counter values -/

/-- The value has been drawn, and used or not. -/
def NonceState.Issued (s : NonceState) (d : Draw) : Prop :=
  (∃ thread, s.drawn thread = some d) ∨ ∃ e ∈ s.trace, e.draw = d

/-- Within an epoch every value is drawn once. -/
structure DrawsDistinct (s : NonceState) : Prop where
  counter_le : s.nonceCounter ≤ s.draws
  epoch_le : ∀ d, s.Issued d → d.epoch ≤ s.epoch
  counter_lt : ∀ d, s.Issued d → d.epoch = s.epoch → d.counter < s.nonceCounter
  pending_ne : ∀ thread thread' d, s.drawn thread = some d → s.drawn thread' = some d →
    thread = thread'
  pending_trace : ∀ thread d, s.drawn thread = some d → ∀ e ∈ s.trace, e.draw ≠ d
  trace_ne : s.trace.Pairwise fun e e' => e.draw ≠ e'.draw

theorem drawsDistinct_start : DrawsDistinct NonceState.start where
  counter_le := le_rfl
  epoch_le d h := by rcases h with ⟨t, h⟩ | ⟨e, h, -⟩ <;> cases h
  counter_lt d h := by rcases h with ⟨t, h⟩ | ⟨e, h, -⟩ <;> cases h
  pending_ne _ _ _ h := by cases h
  pending_trace _ _ h := by cases h
  trace_ne := List.Pairwise.nil

namespace DrawsDistinct

variable {s s' : NonceState} {thread : ℕ}

theorem of_update_none {t : ℕ} {d : Draw}
    (h : Function.update s.drawn thread none t = some d) : t ≠ thread ∧ s.drawn t = some d := by
  by_cases ht : t = thread
  · subst ht
    rw [Function.update_self] at h
    cases h
  · rw [Function.update_of_ne ht] at h
    exact ⟨ht, h⟩

theorem afterDraw (h : DrawsDistinct s) (hidle : s.drawn thread = none) (hb : s.draws < 2 ^ 31) :
    DrawsDistinct (s.afterDraw thread) := by
  have hc := h.counter_le
  have hmod : s.nonceCounter % 2 ^ 31 = s.nonceCounter := Nat.mod_eq_of_lt (by omega)
  have hnext : (s.nonceCounter + 1) % 2 ^ 64 = s.nonceCounter + 1 := Nat.mod_eq_of_lt (by omega)
  have hnew : ∀ d, s.Issued d → d ≠ ⟨s.nonceCounter, s.epoch⟩ := by
    rintro d hd rfl
    exact absurd (h.counter_lt _ hd rfl) (lt_irrefl _)
  have hpending : ∀ t d, (s.afterDraw thread).drawn t = some d →
      (t = thread ∧ d = ⟨s.nonceCounter, s.epoch⟩) ∨ (t ≠ thread ∧ s.drawn t = some d) := by
    intro t d hd
    simp only [NonceState.afterDraw, hmod] at hd
    by_cases ht : t = thread
    · subst ht
      rw [Function.update_self] at hd
      exact .inl ⟨rfl, (Option.some.inj hd).symm⟩
    · rw [Function.update_of_ne ht] at hd
      exact .inr ⟨ht, hd⟩
  have hissued : ∀ d, (s.afterDraw thread).Issued d →
      d = ⟨s.nonceCounter, s.epoch⟩ ∨ s.Issued d := by
    rintro d (⟨t, ht⟩ | he)
    · rcases hpending t d ht with ⟨-, rfl⟩ | ⟨-, ht'⟩
      · exact .inl rfl
      · exact .inr (.inl ⟨t, ht'⟩)
    · exact .inr (.inr he)
  refine ⟨?_, fun d hd => ?_, fun d hd he => ?_, fun t t' d ht ht' => ?_, fun t d ht e he => ?_,
    h.trace_ne⟩
  · show (s.nonceCounter + 1) % 2 ^ 64 ≤ s.draws + 1
    omega
  · rcases hissued d hd with rfl | hd'
    · exact le_rfl
    · exact h.epoch_le d hd'
  · show d.counter < (s.nonceCounter + 1) % 2 ^ 64
    rw [hnext]
    rcases hissued d hd with rfl | hd'
    · exact Nat.lt_succ_self _
    · exact (h.counter_lt d hd' he).trans (Nat.lt_succ_self _)
  · rcases hpending t d ht with ⟨rfl, rfl⟩ | ⟨hne, hd⟩ <;>
      rcases hpending t' _ ht' with ⟨rfl, hd'⟩ | ⟨hne', hd'⟩
    · rfl
    · exact absurd rfl (hnew _ (.inl ⟨t', hd'⟩))
    · exact absurd hd' (hnew _ (.inl ⟨t, hd⟩))
    · exact h.pending_ne t t' d hd hd'
  · rcases hpending t d ht with ⟨-, rfl⟩ | ⟨-, hd⟩
    · exact hnew _ (.inr ⟨e, he, rfl⟩)
    · exact h.pending_trace t d hd e he

theorem afterEncrypt (h : DrawsDistinct s) {e : Encryption} (hd : s.drawn thread = some e.draw) :
    DrawsDistinct (s.afterEncrypt thread e) := by
  have hissued : ∀ d, (s.afterEncrypt thread e).Issued d → s.Issued d := by
    rintro d (⟨t, ht⟩ | ⟨e', he', rfl⟩)
    · exact .inl ⟨t, (of_update_none ht).2⟩
    · rcases List.mem_cons.mp he' with rfl | he'
      · exact .inl ⟨thread, hd⟩
      · exact .inr ⟨e', he', rfl⟩
  refine ⟨h.counter_le, fun d hi => h.epoch_le d (hissued d hi),
    fun d hi => h.counter_lt d (hissued d hi), fun t t' d ht ht' =>
      h.pending_ne t t' d (of_update_none ht).2 (of_update_none ht').2, fun t d ht e' he' => ?_, ?_⟩
  · obtain ⟨hne, hd'⟩ := of_update_none ht
    rcases List.mem_cons.mp he' with rfl | he'
    · rintro rfl
      exact hne (h.pending_ne t thread _ hd' hd)
    · exact h.pending_trace t d hd' e' he'
  · exact List.Pairwise.cons (fun e' he' => (h.pending_trace thread _ hd e' he').symm) h.trace_ne

theorem afterFail (h : DrawsDistinct s) :
    DrawsDistinct { s with drawn := Function.update s.drawn thread none } := by
  have hissued : ∀ d, NonceState.Issued
      { s with drawn := Function.update s.drawn thread none } d → s.Issued d := by
    rintro d (⟨t, ht⟩ | he)
    · exact .inl ⟨t, (of_update_none ht).2⟩
    · exact .inr he
  exact ⟨h.counter_le, fun d hi => h.epoch_le d (hissued d hi),
    fun d hi => h.counter_lt d (hissued d hi), fun t t' d ht ht' =>
      h.pending_ne t t' d (of_update_none ht).2 (of_update_none ht').2,
    fun t d ht => h.pending_trace t d (of_update_none ht).2, h.trace_ne⟩

theorem of_sameDraws (h : DrawsDistinct s) (hs : SameDraws s s') : DrawsDistinct s' := by
  have hissued : ∀ d, s'.Issued d → s.Issued d := by
    intro d hd
    unfold NonceState.Issued at hd ⊢
    rwa [hs.drawn, hs.trace] at hd
  have hc := h.counter_le
  have hdraws := hs.draws
  refine ⟨?_, fun d hd => ?_, fun d hd he => ?_, fun t t' d ht ht' => ?_, fun t d ht => ?_, ?_⟩
  · rcases hs.counter with ⟨h₁, -⟩ | ⟨h₁, -⟩ <;> omega
  · have := h.epoch_le d (hissued d hd)
    rcases hs.counter with ⟨-, h₂⟩ | ⟨-, h₂⟩ <;> omega
  · have hle := h.epoch_le d (hissued d hd)
    rcases hs.counter with ⟨h₁, h₂⟩ | ⟨-, h₂⟩
    · rw [h₁]
      exact h.counter_lt d (hissued d hd) (he.trans h₂)
    · omega
  · rw [hs.drawn] at ht ht'
    exact h.pending_ne t t' d ht ht'
  · rw [hs.drawn] at ht
    rw [hs.trace]
    exact h.pending_trace t d ht
  · rw [hs.trace]
    exact h.trace_ne

end DrawsDistinct

/-- **Distinct draws, one step.** -/
theorem drawsDistinct_step {hmac : Hmac} {salt : ℕ → { bytes : List UInt8 // bytes.length = 16 }}
    {s s' : NonceState} {a : NonceAction} (hs : s.draws < 2 ^ 31 → DrawsDistinct s)
    (h : nonceStep hmac salt s a = some s') : s'.draws < 2 ^ 31 → DrawsDistinct s' := by
  intro hb
  have hs := hs (lt_of_le_of_lt (draws_le_of_nonceStep h) hb)
  obtain ⟨_, hidle, rfl⟩ | ⟨_, _, hd, rfl⟩ | ⟨_, rfl⟩ | hsame := nonceStep_cases h
  · exact hs.afterDraw hidle (lt_of_lt_of_le (Nat.lt_succ_self _) hb.le)
  · exact hs.afterEncrypt hd
  · exact hs.afterFail
  · exact hs.of_sameDraws hsame

/-! ## Keys -/

/-- The condition on a step: when a thread encrypts, every earlier encryption under the key of its
context has used a counter value of the epoch in which the thread has drawn its own. -/
def KeyKeepsEpoch (s : NonceState) : NonceAction → Prop
  | .encrypt thread ref _ => ∀ d ∈ s.drawn thread, ∀ ctx ∈ s.usable ref, ∀ e ∈ s.trace,
      e.key = packetCryptoGetKey ctx .current → e.draw.epoch = d.epoch
  | _ => True

instance (s : NonceState) : ∀ a, Decidable (KeyKeepsEpoch s a)
  | .encrypt thread ref _ => inferInstanceAs (Decidable (∀ d ∈ s.drawn thread,
      ∀ ctx ∈ s.usable ref, ∀ e ∈ s.trace,
        e.key = packetCryptoGetKey ctx .current → e.draw.epoch = d.epoch))
  | .draw _ => .isTrue trivial
  | .fail _ => .isTrue trivial
  | .init _ _ _ => .isTrue trivial
  | .reload _ _ => .isTrue trivial

/-- The encryptions under one key have used values of one epoch, and a nonce is made of its
value. -/
structure KeysKeepEpoch (s : NonceState) : Prop where
  epoch_eq : s.trace.Pairwise fun e e' => e.key = e'.key → e.draw.epoch = e'.draw.epoch
  nonce_eq : ∀ e ∈ s.trace, ∃ P : CryptoParams, P.NonceSizeOk ∧
    e.nonce = cryptoGenerateNonce P e.draw.counter protoFlagIpv4
  issued_lt : ∀ d, s.Issued d → d.counter < 2 ^ 31

theorem keysKeepEpoch_start : KeysKeepEpoch NonceState.start where
  epoch_eq := List.Pairwise.nil
  nonce_eq _ h := by cases h
  issued_lt d h := by rcases h with ⟨t, h⟩ | ⟨e, h, -⟩ <;> cases h

section Step

variable {hmac : Hmac} {salt : ℕ → { bytes : List UInt8 // bytes.length = 16 }} {s s' : NonceState}

/-- **Keys and epochs, one step.** -/
theorem keysKeepEpoch_step {a : NonceAction} (hs : KeysKeepEpoch s) (hcond : KeyKeepsEpoch s a)
    (h : nonceStep hmac salt s a = some s') : KeysKeepEpoch s' := by
  cases a with
  | encrypt thread ref P =>
    obtain ⟨d, ctx, hd, hu, hP, rfl⟩ := nonceStep_encrypt h
    refine ⟨?_, fun e he => ?_, ?_⟩
    · exact List.Pairwise.cons (fun e he hkey => (hcond d hd ctx hu e he hkey.symm).symm) hs.epoch_eq
    · rcases List.mem_cons.mp he with rfl | he
      · exact ⟨{ P with nonceSalt := salt thread }, hP, rfl⟩
      · exact hs.nonce_eq e he
    · rintro d' (⟨t, ht⟩ | ⟨e, he, rfl⟩)
      · exact hs.issued_lt d' (.inl ⟨t, (DrawsDistinct.of_update_none ht).2⟩)
      · rcases List.mem_cons.mp he with rfl | he
        · exact hs.issued_lt d (.inl ⟨thread, hd⟩)
        · exact hs.issued_lt _ (.inr ⟨e, he, rfl⟩)
  | draw thread =>
    unfold nonceStep at h
    simp only at h
    split_ifs at h with hidle
    obtain rfl := Option.some.inj h
    refine ⟨hs.epoch_eq, hs.nonce_eq, ?_⟩
    rintro d (⟨t, ht⟩ | he)
    · simp only at ht
      by_cases hne : t = thread
      · subst hne
        rw [Function.update_self] at ht
        obtain rfl := Option.some.inj ht
        exact Nat.mod_lt _ (by omega)
      · rw [Function.update_of_ne hne] at ht
        exact hs.issued_lt d (.inl ⟨t, ht⟩)
    · exact hs.issued_lt d (.inr he)
  | fail thread =>
    obtain rfl := Option.some.inj h
    refine ⟨hs.epoch_eq, hs.nonce_eq, ?_⟩
    rintro d (⟨t, ht⟩ | he)
    · exact hs.issued_lt d (.inl ⟨t, (DrawsDistinct.of_update_none ht).2⟩)
    · exact hs.issued_lt d (.inr he)
  | init ref bits masterKey =>
    obtain rfl := Option.some.inj h
    cases ref <;> exact ⟨hs.epoch_eq, hs.nonce_eq, hs.issued_lt⟩
  | reload policies getCtx =>
    obtain rfl := Option.some.inj h
    split_ifs <;> exact ⟨hs.epoch_eq, hs.nonce_eq, hs.issued_lt⟩

theorem nonces_of_invariants (hdraws : DrawsDistinct s) (hkeys : KeysKeepEpoch s) :
    s.trace.Pairwise fun e e' => e.key = e'.key → e.nonce ≠ e'.nonce := by
  refine List.Pairwise.imp_of_mem ?_ (hdraws.trace_ne.and hkeys.epoch_eq)
  rintro e e' he he' ⟨hne, hepoch⟩ hkey hnonce
  obtain ⟨P, hP, hn⟩ := hkeys.nonce_eq e he
  obtain ⟨Q, hQ, hn'⟩ := hkeys.nonce_eq e' he'
  have hcounter : e.draw.counter = e'.draw.counter :=
    cryptoGenerateNonce_injective hP hQ (hkeys.issued_lt _ (.inr ⟨e, he, rfl⟩))
      (hkeys.issued_lt _ (.inr ⟨e', he', rfl⟩)) (hn ▸ hn' ▸ hnonce)
  exact hne (Draw.ext hcounter (hepoch hkey))

/-- **Nonce uniqueness.** In a run of fewer than `2 ^ 31` draws in which no key is used with counter
values of two epochs, no two encryptions under one key have the same nonce. -/
theorem nonces_unique {as : List NonceAction} {t : NonceState}
    (hrun : Runs.run (nonceStep hmac salt) NonceState.start as = some t)
    (hmeet : Runs.StepsMeet (nonceStep hmac salt) KeyKeepsEpoch NonceState.start as)
    (hdraws : t.draws < 2 ^ 31) :
    t.trace.Pairwise fun e e' => e.key = e'.key → e.nonce ≠ e'.nonce := by
  have hinv := Runs.invariant
    (I := fun s => (s.draws < 2 ^ 31 → DrawsDistinct s) ∧ KeysKeepEpoch s)
    (fun s a s' hs hc h => ⟨drawsDistinct_step hs.1 h, keysKeepEpoch_step hs.2 hc h⟩)
    ⟨fun _ => drawsDistinct_start, keysKeepEpoch_start⟩ hmeet hrun
  exact nonces_of_invariants (hinv.1 hdraws) hinv.2

end Step

/-! ## Safe resets -/

section Safe

variable (hmac : Hmac) (salt : ℕ → { bytes : List UInt8 // bytes.length = 16 })

/-- A step that resets the counter is taken while no thread holds a value, and leaves no context in
use whose key has encrypted. -/
def ResetSafe (s : NonceState) (a : NonceAction) : Prop :=
  ∀ s', nonceStep hmac salt s a = some s' → s'.epoch ≠ s.epoch →
    (∀ thread, s.drawn thread = none) ∧
      ∀ ref ctx, s'.usable ref = some ctx → ∀ e ∈ s.trace, e.key ≠ packetCryptoGetKey ctx .current

end Safe

/-- The values held, and those used under the keys of the contexts in use, are of the current
epoch. -/
structure InUseCurrent (s : NonceState) : Prop where
  pending : ∀ thread d, s.drawn thread = some d → d.epoch = s.epoch
  usable : ∀ ref ctx, s.usable ref = some ctx → ∀ e ∈ s.trace,
    e.key = packetCryptoGetKey ctx .current → e.draw.epoch = s.epoch

section Safe

variable {hmac : Hmac} {salt : ℕ → { bytes : List UInt8 // bytes.length = 16 }} {s s' : NonceState}

theorem usable_of_reload {policies : List CryptoPolicy} {getCtx : ℕ → Bool}
    (hreset : (rebuildCryptoRuntime hmac getCtx s.runtime policies).counterReset = false)
    {ref : CtxRef} {ctx : PacketCryptoCtx}
    (h : NonceState.usable
      { s with runtime := (rebuildCryptoRuntime hmac getCtx s.runtime policies).runtime } ref =
        some ctx) : ∃ ref', s.usable ref' = some ctx := by
  cases ref with
  | other n => exact ⟨.other n, h⟩
  | policy pi =>
    unfold NonceState.usable at h
    simp only at h
    split_ifs at h with hready
    obtain ⟨hready, hinit⟩ := Bool.and_eq_true_iff.mp hready
    obtain ⟨oi, hold, hctx⟩ := rebuildCryptoRuntime_copiesOnly hreset pi hready
    refine ⟨.policy oi, ?_⟩
    unfold NonceState.usable
    simp only
    rw [hctx] at h hinit
    rw [if_pos (Bool.and_eq_true_iff.mpr ⟨hold, hinit⟩)]
    exact h

theorem inUseCurrent_of_reset {a : NonceAction} (hsafe : ResetSafe hmac salt s a)
    (h : nonceStep hmac salt s a = some s') (hne : s'.epoch ≠ s.epoch) (hd : s'.drawn = s.drawn)
    (ht : s'.trace = s.trace) : InUseCurrent s' := by
  obtain ⟨hnone, hkeys⟩ := hsafe s' h hne
  refine ⟨fun t d hd' => ?_, fun ref ctx hu e he hkey => ?_⟩
  · rw [hd, hnone t] at hd'
    cases hd'
  · exact absurd hkey (hkeys ref ctx hu e (ht ▸ he))

theorem inUseCurrent_step {a : NonceAction} (hs : InUseCurrent s) (hsafe : ResetSafe hmac salt s a)
    (h : nonceStep hmac salt s a = some s') : InUseCurrent s' := by
  cases a with
  | draw thread =>
    unfold nonceStep at h
    simp only at h
    split_ifs at h with hidle
    obtain rfl := Option.some.inj h
    refine ⟨fun t d ht => ?_, hs.usable⟩
    simp only at ht
    by_cases hne : t = thread
    · subst hne
      rw [Function.update_self] at ht
      rw [← Option.some.inj ht]
    · rw [Function.update_of_ne hne] at ht
      exact hs.pending t d ht
  | encrypt thread ref P =>
    obtain ⟨d, ctx, hd, hu, -, rfl⟩ := nonceStep_encrypt h
    refine ⟨fun t d' ht => hs.pending t d' (DrawsDistinct.of_update_none ht).2,
      fun ref' ctx' hu' e he hkey => ?_⟩
    rcases List.mem_cons.mp he with rfl | he
    · exact hs.pending thread d hd
    · exact hs.usable ref' ctx' hu' e he hkey
  | fail thread =>
    obtain rfl := Option.some.inj h
    exact ⟨fun t d ht => hs.pending t d (DrawsDistinct.of_update_none ht).2, hs.usable⟩
  | init ref bits masterKey =>
    obtain rfl := Option.some.inj h
    cases ref <;> exact inUseCurrent_of_reset hsafe rfl (Nat.succ_ne_self _) rfl rfl
  | reload policies getCtx =>
    obtain rfl := Option.some.inj h
    by_cases hreset : (rebuildCryptoRuntime hmac getCtx s.runtime policies).counterReset = true
    · exact inUseCurrent_of_reset hsafe rfl (by simp [hreset, NonceState.resetCounter])
        (by simp [hreset, NonceState.resetCounter]) (by simp [hreset, NonceState.resetCounter])
    · rw [if_neg hreset]
      refine ⟨hs.pending, fun ref ctx hu => ?_⟩
      obtain ⟨ref', hu'⟩ := usable_of_reload (Bool.not_eq_true _ ▸ hreset) hu
      exact hs.usable ref' ctx hu'

/-- **Safe resets suffice.** In a run in which every reset of the counter is safe, no key is used
with values of two epochs. -/
theorem keyKeepsEpoch_of_resetSafe {as : List NonceAction}
    (h : Runs.StepsMeet (nonceStep hmac salt) (ResetSafe hmac salt) NonceState.start as) :
    Runs.StepsMeet (nonceStep hmac salt) KeyKeepsEpoch NonceState.start as := by
  refine Runs.StepsMeet.of_invariant (I := InUseCurrent) (fun s a s' hs => inUseCurrent_step hs)
    (fun s a hs _ => ?_) ⟨fun _ _ h => ?_, fun _ _ _ _ h => ?_⟩ h
  · cases a with
    | encrypt thread ref P =>
      intro d hd ctx hu e he hkey
      exact (hs.usable ref ctx hu e he hkey).trans (hs.pending thread d hd).symm
    | _ => trivial
  · cases h
  · cases h

end Safe

/-! ## Two runs -/

/-- HMAC-SHA256 of eight zero bytes, under sixteen bytes `1` and under sixteen bytes `2`. -/
def sampleHmac : Hmac := fun key _ =>
  if key = List.replicate 16 1 then
    ⟨[62, 154, 179, 151, 106, 23, 69, 183, 68, 20, 161, 60, 116, 118, 63, 42, 174, 100, 117, 92,
       150, 86, 111, 180, 112, 40, 51, 184, 51, 210, 91, 156], rfl⟩
  else
    ⟨[178, 225, 121, 105, 137, 75, 228, 82, 181, 116, 118, 128, 34, 177, 99, 249, 17, 155, 255,
       23, 48, 248, 2, 224, 199, 147, 40, 20, 250, 223, 8, 221], rfl⟩

def sampleSalt (thread : ℕ) : { bytes : List UInt8 // bytes.length = 16 } :=
  ⟨List.replicate 16 (UInt8.ofNat thread), List.length_replicate⟩

def firstPolicy : CryptoPolicy := { samplePolicy actionEncryptL3 with key := Key.repeated 1 }

def secondPolicy : CryptoPolicy :=
  { samplePolicy actionEncryptL3 with id := 8, dbId := 8, key := Key.repeated 2 }

/-- Two threads encrypt under one key. -/
def twoThreads : List NonceAction :=
  [.reload [firstPolicy] fun _ => true, .draw 0, .draw 1,
    .encrypt 1 (.policy 0) (sampleParams .gcm), .encrypt 0 (.policy 0) (sampleParams .gcm)]

theorem nonces_unique_twoThreads :
    ∃ t ∈ Runs.run (nonceStep sampleHmac sampleSalt) NonceState.start twoThreads,
      t.trace.length = 2 ∧ t.trace.Pairwise fun e e' => e.key = e'.key → e.nonce ≠ e'.nonce := by
  obtain ⟨t, ht, hlen, hdraws⟩ : ∃ t ∈ Runs.run (nonceStep sampleHmac sampleSalt)
      NonceState.start twoThreads, t.trace.length = 2 ∧ t.draws = 2 := by decide
  exact ⟨t, ht, hlen, nonces_unique ht (by decide) (by omega)⟩

/-- A policy is added while another one stays. -/
def addPolicy : List NonceAction :=
  [.reload [firstPolicy] fun _ => true, .draw 0, .encrypt 0 (.policy 0) (sampleParams .gcm),
    .reload [firstPolicy, secondPolicy] fun _ => true, .draw 0,
    .encrypt 0 (.policy 0) (sampleParams .gcm)]

/-- The counter starts again, and the policy that stays encrypts with the same nonce as before. -/
theorem nonce_reused_addPolicy :
    ∃ t ∈ Runs.run (nonceStep sampleHmac sampleSalt) NonceState.start addPolicy,
      t.draws = 2 ∧ ¬ t.trace.Pairwise fun e e' => e.key = e'.key → e.nonce ≠ e'.nonce := by
  decide

end NetEncryptor

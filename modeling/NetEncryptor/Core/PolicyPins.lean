import NetEncryptor.Base.Runs
import NetEncryptor.Core.Reload

/-!
# Pins across reloads

A pin names its policy by an index into the configuration that was in force when it was set.  A
reload that does not change the crypto settings keeps the pins, and one that changes them clears the
pins only if crypto is on afterwards.  What is left when crypto goes off is not followed as long as
it is off, and going on again is a change.
-/

namespace NetEncryptor

open Runs

/-! ## One entry for both directions -/

/-- The same addresses and ports, in either direction. -/
def SameConnection (t u : FlowTuple) : Prop :=
  u.connection = t.connection ∨ u.connection = t.swap.connection

instance (t u : FlowTuple) : Decidable (SameConnection t u) := inferInstanceAs (Decidable (_ ∨ _))

theorem pinKey_eq_or (t : FlowTuple) : t.pinKey = t.connection ∨ t.pinKey = t.swap.connection := by
  unfold FlowTuple.pinKey tcpPolicyPinNormalizeTuple
  split_ifs
  · exact .inr rfl
  · exact .inl rfl

/-- **An entry is that of one connection**, and both directions share it. -/
theorem pinKey_eq_iff {t u : FlowTuple} : u.pinKey = t.pinKey ↔ SameConnection t u := by
  constructor
  · intro h
    rcases pinKey_eq_or t with ht | ht <;> rcases pinKey_eq_or u with hu | hu <;> rw [ht, hu] at h
    · exact .inl h
    · right
      simp only [FlowTuple.connection, FlowTuple.swap, TcpConnection.mk.injEq] at h ⊢
      exact ⟨h.2.1, h.1, h.2.2.2, h.2.2.1⟩
    · exact .inr h
    · left
      simp only [FlowTuple.connection, FlowTuple.swap, TcpConnection.mk.injEq] at h ⊢
      exact ⟨h.2.1, h.1, h.2.2.2, h.2.2.1⟩
  · rintro (h | h)
    · unfold FlowTuple.pinKey
      rw [h]
    · rw [← pinKey_swap t]
      unfold FlowTuple.pinKey
      rw [h]

/-! ## Calls -/

/-- A call that uses the pins; `now` is what `tcp_policy_pin_now_sec` returns to it, `allocated`
whether `calloc` succeeds. -/
inductive PinCall
  | set (now : ℕ) (allocated : Bool) (t : FlowTuple) (policyPi : ℤ)
  | lookup (now : ℕ) (t : FlowTuple)
  | remove (t : FlowTuple)
  | gc (now : ℕ)
  | reload (hmac : Hmac) (getCtx : ℕ → Bool) (cfg : AppConfig)

/-- `tcp_policy_pin_set` where `calloc` can fail. -/
def Forwarder.setPin (fwd : Forwarder) (now : ℕ) (allocated : Bool) (t : FlowTuple)
    (policyPi : ℤ) : TcpPolicyPins :=
  if allocated = false ∧ ChainTable.find tcpPolicyPinHash fwd.pins t.pinKey = none then fwd.pins
  else tcpPolicyPinSet fwd.cryptoEnabled fwd.pins now t policyPi

/-- What `tcp_policy_pin_lookup` finds. -/
def Forwarder.lookupPin (fwd : Forwarder) (now : ℕ) (t : FlowTuple) : Option ℤ × TcpPolicyPins :=
  tcpPolicyPinLookup fwd.cryptoEnabled fwd.cfg fwd.runtime.ready fwd.pins now t

def PinCall.run (fwd : Forwarder) : PinCall → Forwarder
  | set now allocated t policyPi => { fwd with pins := fwd.setPin now allocated t policyPi }
  | lookup now t => { fwd with pins := (fwd.lookupPin now t).2 }
  | remove t => { fwd with pins := tcpPolicyPinRemove fwd.cryptoEnabled fwd.pins t }
  | gc now => { fwd with pins := tcpPolicyPinGc fwd.cryptoEnabled fwd.pins now }
  | reload hmac getCtx cfg => (forwarderReloadConfig hmac getCtx fwd cfg).getD fwd

/-- Every call returns. -/
def pinStep (fwd : Forwarder) (call : PinCall) : Option Forwarder := some (call.run fwd)

/-- The forwarder when `forwarder_init` has returned: the switch is that of the configuration, and
there are no pins. -/
def PinsStarted (fwd : Forwarder) : Prop :=
  fwd.cryptoEnabled = fwd.cfg.cryptoEnabled ∧ fwd.pins = ChainTable.empty

/-- A reload that calls `tcp_policy_pin_clear_all`. -/
def ClearsPins (fwd : Forwarder) (cfg : AppConfig) : Prop :=
  sameTopology fwd.cfg cfg ∧ cfg.cryptoEnabled = true ∧ cryptoRuntimeChanged fwd.cfg cfg

/-- The index is one that `tcp_policy_pin_set` takes. -/
def PinIndex (policyPi : ℤ) : Prop := 0 ≤ policyPi ∧ policyPi < maxCryptoPolicies

/-- The call pins the connection, by an index that names this policy in the configuration in
force. -/
def SetsPin (t : FlowTuple) (cp : CryptoPolicy) (fwd : Forwarder) (call : PinCall) : Prop :=
  ∃ now allocated u policyPi, call = .set now allocated u policyPi ∧ SameConnection t u ∧
    ∃ cp', atIndex? fwd.cfg.policies policyPi = some cp' ∧ sameCryptoPolicy cp' cp

/-- The call neither pins the connection again nor takes its pin away. -/
def KeepsPin (t : FlowTuple) (fwd : Forwarder) : PinCall → Prop
  | .set _ _ u policyPi => ¬ (SameConnection t u ∧ PinIndex policyPi)
  | .remove u => ¬ SameConnection t u
  | .reload _ _ cfg => ¬ ClearsPins fwd cfg
  | .lookup _ _ | .gc _ => True

/-! ## What a call does -/

section

variable {fwd : Forwarder} {t : FlowTuple} {pin : TcpPolicyPin}

theorem atIndex?_of_take {α : Type} {l l' : List α} {n : ℕ} (h : l.take n = l'.take n) {i : ℤ}
    (hi : i < n) : atIndex? l i = atIndex? l' i := by
  unfold atIndex?
  split_ifs with h₀
  · rw [← List.getElem?_take_of_lt (l := l) (show i.toNat < n by omega), h,
      List.getElem?_take_of_lt (by omega)]
  · rfl

/-- The pin of a connection afterwards is the one that the call sets, or the one that was there. -/
def PinFrom (fwd : Forwarder) (call : PinCall) (t : FlowTuple) (pin : TcpPolicyPin) : Prop :=
  (PinIndex pin.policyPi ∧ ∃ now allocated u, call = .set now allocated u pin.policyPi ∧
      SameConnection t u) ∨
    ∃ pin', ChainTable.find tcpPolicyPinHash fwd.pins t.pinKey = some pin' ∧
      pin'.policyPi = pin.policyPi ∧ KeepsPin t fwd call

theorem setPin_from {now : ℕ} {allocated : Bool} {u : FlowTuple} {policyPi : ℤ}
    (hon : fwd.cryptoEnabled = true)
    (h : ChainTable.find tcpPolicyPinHash (fwd.setPin now allocated u policyPi) t.pinKey =
      some pin) : PinFrom fwd (.set now allocated u policyPi) t pin := by
  unfold Forwarder.setPin tcpPolicyPinSet at h
  split_ifs at h with hmem hidx
  · refine .inr ⟨pin, h, rfl, fun hset => ?_⟩
    rw [pinKey_eq_iff.mpr hset.1, h] at hmem
    cases hmem.2
  · refine .inr ⟨pin, h, rfl, fun hset => ?_⟩
    rcases hidx with hoff | hneg | hbig
    · rw [hon] at hoff
      cases hoff
    · exact not_le.mpr hneg hset.2.1
    · exact not_lt.mpr hbig hset.2.2
  · by_cases hkey : t.pinKey = u.pinKey
    · rw [hkey, ChainTable.find_put_self] at h
      cases h
      rw [not_or, not_or, not_lt, not_le] at hidx
      exact .inl ⟨hidx.2, now, allocated, u, rfl, pinKey_eq_iff.mp hkey.symm⟩
    · rw [ChainTable.find_put_of_ne hkey] at h
      exact .inr ⟨pin, h, rfl, fun hset => hkey (pinKey_eq_iff.mpr hset.1).symm⟩

theorem lookupPin_from (hu : fwd.pins.Unique) {now : ℕ} {u : FlowTuple}
    (h : ChainTable.find tcpPolicyPinHash (fwd.lookupPin now u).2 t.pinKey = some pin) :
    PinFrom fwd (.lookup now u) t pin := by
  unfold Forwarder.lookupPin tcpPolicyPinLookup at h
  split_ifs at h with hoff
  · exact .inr ⟨pin, h, rfl, trivial⟩
  · cases hfind : ChainTable.find tcpPolicyPinHash fwd.pins u.pinKey with
    | none =>
      rw [hfind] at h
      exact .inr ⟨pin, h, rfl, trivial⟩
    | some pin' =>
      rw [hfind] at h
      simp only at h
      by_cases hkey : t.pinKey = u.pinKey
      · split_ifs at h with husable
        · rw [hkey, ChainTable.find_put_self] at h
          cases h
          exact .inr ⟨pin', hkey ▸ hfind, rfl, trivial⟩
        · rw [hkey, ChainTable.find_erase_self hu] at h
          cases h
      · split_ifs at h with husable
        · rw [ChainTable.find_put_of_ne hkey] at h
          exact .inr ⟨pin, h, rfl, trivial⟩
        · rw [ChainTable.find_erase_of_ne hkey] at h
          exact .inr ⟨pin, h, rfl, trivial⟩

theorem removePin_from (hu : fwd.pins.Unique) (hon : fwd.cryptoEnabled = true) {u : FlowTuple}
    (h : ChainTable.find tcpPolicyPinHash (tcpPolicyPinRemove fwd.cryptoEnabled fwd.pins u)
      t.pinKey = some pin) : PinFrom fwd (.remove u) t pin := by
  rw [tcpPolicyPinRemove, if_neg (by rw [hon]; decide)] at h
  by_cases hkey : t.pinKey = u.pinKey
  · rw [hkey, ChainTable.find_erase_self hu] at h
    cases h
  · rw [ChainTable.find_erase_of_ne hkey] at h
    exact .inr ⟨pin, h, rfl, fun hsame => hkey (pinKey_eq_iff.mpr hsame).symm⟩

theorem gcPins_from (hu : fwd.pins.Unique) {now : ℕ}
    (h : ChainTable.find tcpPolicyPinHash (tcpPolicyPinGc fwd.cryptoEnabled fwd.pins now)
      t.pinKey = some pin) : PinFrom fwd (.gc now) t pin := by
  unfold tcpPolicyPinGc at h
  split_ifs at h
  · exact .inr ⟨pin, h, rfl, trivial⟩
  · exact .inr ⟨pin, ChainTable.find_of_sweep hu h, rfl, trivial⟩

/-- **What a reload leaves of the pins**: nothing, or all of them, and then crypto is on only if it
was on before, with the same policies. -/
theorem reload_pins {hmac : Hmac} {getCtx : ℕ → Bool} {cfg : AppConfig}
    (hswitch : fwd.cryptoEnabled = fwd.cfg.cryptoEnabled) :
    let fwd' := PinCall.run fwd (.reload hmac getCtx cfg)
    fwd'.cryptoEnabled = fwd'.cfg.cryptoEnabled ∧
      (fwd'.pins = ChainTable.empty ∨
        fwd'.pins = fwd.pins ∧ ¬ ClearsPins fwd cfg ∧
          (fwd'.cryptoEnabled = true → fwd.cryptoEnabled = true ∧
            fwd'.cfg.policies.take maxCryptoPolicies =
              fwd.cfg.policies.take maxCryptoPolicies)) := by
  simp only [PinCall.run]
  by_cases htop : sameTopology fwd.cfg cfg
  · by_cases hkept : ¬ cryptoRuntimeChanged fwd.cfg cfg ∧ ¬ forwardingRuntimeChanged fwd.cfg cfg
    · rw [forwarderReloadConfig, if_neg (not_not.mpr htop), if_pos hkept]
      obtain ⟨hon, hpolicies⟩ := policies_of_not_cryptoRuntimeChanged hkept.1
      exact ⟨hswitch.trans hon, .inr ⟨rfl, fun h => hkept.1 h.2.2, fun h => ⟨h, hpolicies⟩⟩⟩
    · simp only [forwarderReloadConfig, if_neg (not_not.mpr htop), if_neg hkept]
      by_cases hclear : (setQueueCounts cfg).cryptoEnabled = true ∧ cryptoRuntimeChanged fwd.cfg cfg
      · rw [if_pos hclear]
        exact ⟨rfl, .inl rfl⟩
      · rw [if_neg hclear]
        refine ⟨rfl, .inr ⟨rfl, fun h => hclear h.2, fun hon => ?_⟩⟩
        obtain ⟨hon', hpolicies⟩ :=
          policies_of_not_cryptoRuntimeChanged fun h => hclear ⟨hon, h⟩
        exact ⟨hswitch.trans (hon'.trans hon), hpolicies⟩
  · rw [forwarderReloadConfig, if_pos htop]
    exact ⟨hswitch, .inr ⟨rfl, fun h => htop h.1, fun h => ⟨h, rfl⟩⟩⟩

end

/-! ## Histories -/

/-- Every pin that can be followed was set for its connection, since then not taken away, and its
index still names the policy that it named then. -/
structure PinInv (start : Forwarder) (calls : List PinCall) (fwd : Forwarder) : Prop where
  switch : fwd.cryptoEnabled = fwd.cfg.cryptoEnabled
  unique : fwd.pins.Unique
  pinned : fwd.cryptoEnabled = true → ∀ t pin,
    ChainTable.find tcpPolicyPinHash fwd.pins t.pinKey = some pin →
      PinIndex pin.policyPi ∧ ∀ cp, atIndex? fwd.cfg.policies pin.policyPi = some cp →
        Since pinStep (SetsPin t cp) (KeepsPin t) start calls

section

variable {start fwd : Forwarder} {calls : List PinCall}

theorem pinInv_start (h : PinsStarted start) : PinInv start [] start where
  switch := h.1
  unique := by
    rw [h.2]
    exact ChainTable.unique_empty
  pinned _ t pin hfind := by
    rw [h.2] at hfind
    cases hfind

theorem PinInv.since {call : PinCall} {fwd' : Forwarder} (hrun : run pinStep start calls = some fwd)
    (h : PinInv start calls fwd) (hon : fwd.cryptoEnabled = true)
    (hpolicies : fwd'.cfg.policies.take maxCryptoPolicies =
      fwd.cfg.policies.take maxCryptoPolicies) {t : FlowTuple} {pin : TcpPolicyPin}
    (hfrom : PinFrom fwd call t pin) :
    PinIndex pin.policyPi ∧ ∀ cp, atIndex? fwd'.cfg.policies pin.policyPi = some cp →
      Since pinStep (SetsPin t cp) (KeepsPin t) start (calls ++ [call]) := by
  rcases hfrom with ⟨hidx, now, allocated, u, rfl, hsame⟩ | ⟨pin', hfind, hpi, hkeeps⟩
  · refine ⟨hidx, fun cp hcp => .now hrun ⟨now, allocated, u, _, rfl, hsame, cp, ?_, rfl⟩ rfl⟩
    rw [← hcp]
    exact (atIndex?_of_take hpolicies hidx.2).symm
  · obtain ⟨hidx, hsince⟩ := h.pinned hon t pin' hfind
    rw [hpi] at hidx hsince
    refine ⟨hidx, fun cp hcp => (hsince cp ?_).later hrun hkeeps⟩
    rw [← hcp]
    exact (atIndex?_of_take hpolicies hidx.2).symm

theorem setPin_unique (h : fwd.pins.Unique) {now : ℕ} {allocated : Bool} {t : FlowTuple}
    {policyPi : ℤ} : (fwd.setPin now allocated t policyPi).Unique := by
  unfold Forwarder.setPin tcpPolicyPinSet
  split_ifs
  · exact h
  · exact h
  · exact h.put

theorem lookupPin_unique (h : fwd.pins.Unique) {now : ℕ} {t : FlowTuple} :
    (fwd.lookupPin now t).2.Unique := by
  unfold Forwarder.lookupPin tcpPolicyPinLookup
  split_ifs
  · exact h
  · split
    · exact h
    · split_ifs
      · exact h.put
      · exact h.erase

/-- **Every call** preserves the invariant. -/
theorem PinInv.step (hrun : run pinStep start calls = some fwd) (h : PinInv start calls fwd)
    (call : PinCall) : PinInv start (calls ++ [call]) (call.run fwd) := by
  cases call with
  | set now allocated t policyPi =>
    exact ⟨h.switch, setPin_unique h.unique, fun hon u pin hfind =>
      h.since hrun hon rfl (setPin_from hon hfind)⟩
  | lookup now t =>
    exact ⟨h.switch, lookupPin_unique h.unique, fun hon u pin hfind =>
      h.since hrun hon rfl (lookupPin_from h.unique hfind)⟩
  | remove t =>
    refine ⟨h.switch, ?_, fun hon u pin hfind =>
      h.since hrun hon rfl (removePin_from h.unique hon hfind)⟩
    simp only [PinCall.run, tcpPolicyPinRemove]
    split_ifs
    · exact h.unique
    · exact h.unique.erase
  | gc now =>
    refine ⟨h.switch, ?_, fun hon u pin hfind =>
      h.since hrun hon rfl (gcPins_from h.unique hfind)⟩
    simp only [PinCall.run, tcpPolicyPinGc]
    split_ifs
    · exact h.unique
    · exact h.unique.sweep
  | reload hmac getCtx cfg =>
    obtain ⟨hswitch, hpins⟩ := @reload_pins fwd hmac getCtx cfg h.switch
    rcases hpins with hnone | ⟨hkept, hclear, hon⟩
    · refine ⟨hswitch, hnone ▸ ChainTable.unique_empty, fun _ t pin hfind => ?_⟩
      rw [hnone] at hfind
      cases hfind
    · refine ⟨hswitch, hkept ▸ h.unique, fun hon' t pin hfind => ?_⟩
      rw [hkept] at hfind
      exact h.since hrun (hon hon').1 (hon hon').2 (.inr ⟨pin, hfind, rfl, hclear⟩)

theorem pinInv_run (hstart : PinsStarted start) (hrun : run pinStep start calls = some fwd) :
    PinInv start calls fwd := by
  refine history (pinInv_start hstart) (fun before fwd₁ call fwd₂ hrun₁ h hstep => ?_) hrun
  cases hstep
  exact h.step hrun₁ call

/-- **Pins do not outlive their policies.** A lookup that finds a policy finds the one that the
index of the latest pinning of the connection named in the configuration of that time, and since
then the pin was neither removed nor cleared. -/
theorem pin_names_policy (hstart : PinsStarted start) (hrun : run pinStep start calls = some fwd)
    {now : ℕ} {t : FlowTuple} {policyPi : ℤ} (hlookup : (fwd.lookupPin now t).1 = some policyPi) :
    ∃ cp, atIndex? fwd.cfg.policies policyPi = some cp ∧
      Since pinStep (SetsPin t cp) (KeepsPin t) start calls := by
  obtain ⟨-, cp, hcp, -⟩ := tcpPolicyPinLookup_usable hlookup
  unfold Forwarder.lookupPin tcpPolicyPinLookup at hlookup
  split_ifs at hlookup with hoff
  cases hfind : ChainTable.find tcpPolicyPinHash fwd.pins t.pinKey with
  | none =>
    rw [hfind] at hlookup
    cases hlookup
  | some pin =>
    rw [hfind] at hlookup
    simp only at hlookup
    split_ifs at hlookup
    cases hlookup
    exact ⟨cp, hcp, ((pinInv_run hstart hrun).pinned (Bool.eq_true_of_not_eq_false hoff) t pin
      hfind).2 cp hcp⟩

end

/-! ## A reload that keeps the pins -/

/-- A configuration with one policy, which bypasses. -/
def bypassConfig : AppConfig :=
  { AppConfig.empty with cryptoEnabled := true, policies := [samplePolicy actionBypass] }

/-- The same one with a profile. -/
def bypassProfileConfig : AppConfig :=
  { bypassConfig with profiles := [⟨1, "p", true, [], [], [0]⟩] }

/-- The connection is pinned, and a new profile comes. -/
def pinRun : List PinCall :=
  [.set 1 true ackFlow 0, .reload (fun _ _ => Key.zero) (fun _ => true) bypassProfileConfig]

/-- The forwarder before and after. -/
def pinStart : Forwarder := { plainForwarder bypassConfig with cryptoEnabled := true }

def pinEnd : Forwarder := pinRun.foldl PinCall.run pinStart

theorem pin_names_policy_reloaded :
    (pinEnd.lookupPin 2 ackFlow.swap).1 = some 0 ∧
      ∃ cp, atIndex? pinEnd.cfg.policies 0 = some cp ∧
        Since pinStep (SetsPin ackFlow.swap cp) (KeepsPin ackFlow.swap) pinStart pinRun := by
  have hlookup : (pinEnd.lookupPin 2 ackFlow.swap).1 = some 0 := by decide
  exact ⟨hlookup, pin_names_policy ⟨rfl, rfl⟩ rfl hlookup⟩

end NetEncryptor

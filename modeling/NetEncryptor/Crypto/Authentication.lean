import NetEncryptor.Crypto.Layer2
import NetEncryptor.Crypto.Layer4

/-!
# What GCM acceptance says

Each of the six decoders accepts a frame when its header tests pass and the loop over the keys ends
with success (`accepts_iff`).  Success means that the tag check accepted the ciphertext of the
frame, with two exceptions: an empty ciphertext is not checked at all, and a ciphertext that does
not fit the backup is no longer that of the frame when the second key is tried.
-/

namespace NetEncryptor

/-! ## The loop over the keys -/

section Loop

variable {evp : Evp} {P : CryptoParams} {ctx : PacketCryptoCtx} {nonce tag : List UInt8}
  {encOff encLen : ℕ} {verify : List UInt8 → Bool}

theorem tryKeys_fst_congr {backup backup' : Packet} (hb : ∀ j, encOff ≤ j → backup j = backup' j) :
    ∀ (slots : List KeySlot) (k : ℕ) (p q : Packet), (∀ j, encOff ≤ j → p j = q j) →
      (tryKeys evp P ctx nonce tag encOff encLen verify backup slots k p).1 =
        (tryKeys evp P ctx nonce tag encOff encLen verify backup' slots k q).1 := by
  intro slots
  induction slots with
  | nil => intro k p q _; rfl
  | cons slot slots ih =>
    intro k p q hpq
    have hr : ∀ j, encOff ≤ j → restoreBackup encOff encLen backup k p j =
        restoreBackup encOff encLen backup' k q j := by
      intro j hj
      unfold restoreBackup
      by_cases hk : 0 < k ∧ encLen ≤ backupSize
      · rw [if_pos hk, if_pos hk]
        by_cases hlt : j < encOff + encLen
        · rw [Buffer.copy_of_mem hj hlt, Buffer.copy_of_mem hj hlt]
          exact hb _ (by omega)
        · rw [Buffer.copy_of_ge (by omega), Buffer.copy_of_ge (by omega)]
          exact hpq j hj
      · rw [if_neg hk, if_neg hk]
        exact hpq j hj
    have hkey : tryKey evp P ctx slot nonce tag encOff encLen
        (restoreBackup encOff encLen backup k p) = tryKey evp P ctx slot nonce tag encOff encLen
        (restoreBackup encOff encLen backup' k q) := by
      unfold tryKey
      rw [Buffer.slice_congr fun j hj _ => hr j hj]
    unfold tryKeys
    simp only [hkey]
    split_ifs
    · rfl
    · refine ih _ _ _ fun j hj => ?_
      unfold Buffer.write
      rw [hr j hj]

/-- Every key is tried on the ciphertext of the frame, as long as it fits the backup or there is
only one key. -/
theorem exists_tryKey_of_tryKeys {backup : Packet} :
    ∀ (slots : List KeySlot) (k : ℕ) (p : Packet), encLen ≤ backupSize ∨ slots.length ≤ 1 →
      (restoreBackup encOff encLen backup k p).slice encOff encLen = backup.slice encOff encLen →
      (tryKeys evp P ctx nonce tag encOff encLen verify backup slots k p).1 = true →
      ∃ slot, (tryKey evp P ctx slot nonce tag encOff encLen backup).1 = true := by
  intro slots
  induction slots with
  | nil => intro k p _ _ h; cases h
  | cons slot slots ih =>
    intro k p hfit hslice h
    have hkey : tryKey evp P ctx slot nonce tag encOff encLen
        (restoreBackup encOff encLen backup k p) =
        tryKey evp P ctx slot nonce tag encOff encLen backup := by
      unfold tryKey; rw [hslice]
    unfold tryKeys at h
    simp only [hkey] at h
    split_ifs at h with hok
    · exact ⟨slot, (Bool.and_eq_true_iff.mp hok).1⟩
    · rcases hfit with hfit | hone
      · refine ih _ _ (.inl hfit) ?_ h
        unfold restoreBackup
        rw [if_pos ⟨by omega, hfit⟩, Buffer.slice_copy_self]
      · rw [List.length_cons] at hone
        rw [List.eq_nil_of_length_eq_zero (by omega : slots.length = 0)] at h
        cases h

theorem openTunnel_fst_congr {slots : List KeySlot} {p q : Packet} {pktLen nonceOff off : ℕ}
    (hle : nonceOff ≤ off) (hpq : ∀ j, nonceOff ≤ j → p j = q j) :
    (openTunnel evp P ctx slots verify p pktLen nonceOff off).1 =
      (openTunnel evp P ctx slots verify q pktLen nonceOff off).1 := by
  unfold openTunnel
  split_ifs
  · rfl
  · have hnonce : p.slice nonceOff P.nonceSize = q.slice nonceOff P.nonceSize :=
      Buffer.slice_congr fun j hj _ => hpq j hj
    have htag : p.slice (off + cipherLen P pktLen off) P.tagSize =
        q.slice (off + cipherLen P pktLen off) P.tagSize :=
      Buffer.slice_congr fun j hj _ => hpq j (by omega)
    simp only [hnonce, htag]
    exact tryKeys_fst_congr (fun j hj => hpq j (by omega)) _ _ _ _ fun j hj => hpq j (by omega)

end Loop

/-! ## The decoders -/

/-- The functions that decrypt what is received. -/
inductive Decoder
  | layer2
  | layer3
  | layer4
  | layer2Fragment
  | layer3Fragment
  | layer4Fragment
  deriving DecidableEq, Repr

namespace Decoder

def keys : Decoder → List KeySlot
  | layer2 => [.current]
  | _ => keyOrder

/-- The offsets of nonce and ciphertext in a frame that passes the decoder's header tests. -/
def cipherAt (d : Decoder) (P : CryptoParams) (ctx : PacketCryptoCtx) (packet : Packet)
    (pktLen : ℕ) : Option (ℕ × ℕ) :=
  match d with
  | layer2 =>
    match layer2DecryptHeader P ctx packet pktLen with
    | .error _ => none
    | .ok () => some (ethHeaderSize, l2EncStartOffset P)
  | layer3 =>
    match layer3DecryptHeader P ctx packet pktLen with
    | .error _ => none
    | .ok ihl => some (ethHeaderSize + ihl, ethHeaderSize + ihl + P.tunnelHdrSize)
  | layer4 =>
    match layer4DecryptHeader P ctx packet pktLen with
    | .error _ => none
    | .ok (l3Off, ihl) =>
      some (l3Off + ihl + l4WirePortLen, l3Off + ihl + l4WirePortLen + P.tunnelHdrSize)
  | layer2Fragment =>
    match layer2DecryptFragmentHeader P ctx packet pktLen with
    | none => none
    | some () => some (ethHeaderSize, l2FragEncStartOffset P)
  | layer3Fragment =>
    match layer3DecryptFragmentHeader P ctx packet pktLen with
    | none => none
    | some ihl =>
      some (ethHeaderSize + ihl, ethHeaderSize + ihl + P.tunnelHdrSize + fragTagSize)
  | layer4Fragment =>
    match layer4DecryptFragmentHeader P ctx packet pktLen with
    | none => none
    | some (l3Off, ihl) =>
      some (l3Off + ihl + l4WirePortLen,
        l3Off + ihl + l4WirePortLen + P.tunnelHdrSize + fragTagSize)

/-- The decoder of whole packets returns a length smaller than its input, that of fragments
returns a length. -/
def Accepts (d : Decoder) (evp : Evp) (P : CryptoParams) (ctx : PacketCryptoCtx) (packet : Packet)
    (pktLen : ℕ) : Prop :=
  match d with
  | layer2 => 0 ≤ (cryptoLayer2Decrypt evp P ctx packet pktLen).1 ∧
      (cryptoLayer2Decrypt evp P ctx packet pktLen).1 < pktLen
  | layer3 => 0 ≤ (cryptoLayer3Decrypt evp P ctx packet pktLen).1 ∧
      (cryptoLayer3Decrypt evp P ctx packet pktLen).1 < pktLen
  | layer4 => 0 ≤ (cryptoLayer4Decrypt evp P ctx packet pktLen).1 ∧
      (cryptoLayer4Decrypt evp P ctx packet pktLen).1 < pktLen
  | layer2Fragment => cryptoLayer2DecryptFragment evp P ctx packet pktLen ≠ none
  | layer3Fragment => cryptoLayer3DecryptFragment evp P ctx packet pktLen ≠ none
  | layer4Fragment => cryptoLayer4DecryptFragment evp P ctx packet pktLen ≠ none

end Decoder

section Accept

variable {evp : Evp} {P : CryptoParams} {ctx : PacketCryptoCtx} {packet : Packet} {pktLen : ℕ}

theorem layer2DecryptHeader_error {r : ℤ} (h : layer2DecryptHeader P ctx packet pktLen = .error r) :
    r = -1 ∨ r = pktLen := by
  unfold layer2DecryptHeader at h
  split_ifs at h <;> cases h <;> simp

theorem layer3DecryptHeader_error {r : ℤ} (h : layer3DecryptHeader P ctx packet pktLen = .error r) :
    r = -1 ∨ r = pktLen := by
  unfold layer3DecryptHeader at h
  split at h
  · cases h; exact .inl rfl
  split at h
  · cases h; exact .inr rfl
  split at h
  · cases h; exact .inr rfl
  · simp only at h
    split_ifs at h <;> cases h <;> simp

theorem layer4DecryptHeader_error {r : ℤ} (h : layer4DecryptHeader P ctx packet pktLen = .error r) :
    r = -1 ∨ r = pktLen := by
  unfold layer4DecryptHeader at h
  split at h
  · cases h; exact .inl rfl
  split at h
  · cases h; exact .inr rfl
  · simp only at h
    split_ifs at h <;> cases h <;> simp

theorem le_of_openTunnel {slots : List KeySlot} {verify : List UInt8 → Bool} {nonceOff encOff : ℕ}
    (h : (openTunnel evp P ctx slots verify packet pktLen nonceOff encOff).1 = true) :
    P.tagSize ≤ pktLen - encOff := by
  unfold openTunnel at h
  split_ifs at h with hlen
  omega

theorem le_of_layer3DecryptHeader {ihl : ℕ}
    (h : layer3DecryptHeader P ctx packet pktLen = .ok ihl) : 20 ≤ ihl := by
  unfold layer3DecryptHeader at h
  split at h
  · cases h
  split at h
  · cases h
  split at h
  · cases h
  · rename_i hihl
    simp only at h
    split_ifs at h
    cases h
    exact (ipv4HdrLenAt_eq_some_iff.mp hihl).2.1

theorem openTunnel_set_proto {slots : List KeySlot} {verify : List UInt8 → Bool} {ihl : ℕ}
    {x : UInt8} (hihl : 20 ≤ ihl) :
    (openTunnel evp P ctx slots verify (packet.set ipv4ProtoOff x) pktLen (ethHeaderSize + ihl)
        (ethHeaderSize + ihl + P.tunnelHdrSize)).1 =
      (openTunnel evp P ctx slots verify packet pktLen (ethHeaderSize + ihl)
        (ethHeaderSize + ihl + P.tunnelHdrSize)).1 := by
  refine openTunnel_fst_congr (by omega) fun j hj => Buffer.set_of_ne ?_
  have heth : ethHeaderSize = 14 := rfl
  have hproto : ipv4ProtoOff = 23 := rfl
  omega

theorem not_shorter_of_header_error {r : ℤ} (h : r = -1 ∨ r = pktLen) :
    ¬ (0 ≤ r ∧ r < pktLen) := by
  omega

theorem Decoder.layer2_accepts_iff (hm : P.mode = .gcm)
    (hh : layer2DecryptHeader P ctx packet pktLen = .ok ()) :
    Decoder.layer2.Accepts evp P ctx packet pktLen ↔
      (openTunnel evp P ctx [.current] (fun _ => true) packet pktLen ethHeaderSize
        (l2EncStartOffset P)).1 = true := by
  have htag : P.tagSize = 16 := CryptoParams.tagSize_of_gcm hm
  have hv : layer2Verify P = fun _ => true := by unfold layer2Verify; rw [hm]
  have heth : ethHeaderSize = 14 := rfl
  have hstart : l2EncStartOffset P = 14 + P.nonceSize := rfl
  unfold Accepts cryptoLayer2Decrypt
  simp only [hh, hv]
  cases ho : (openTunnel evp P ctx [.current] (fun _ => true) packet pktLen ethHeaderSize
      (l2EncStartOffset P)).1 with
  | false => simp
  | true =>
    have := le_of_openTunnel ho
    refine iff_of_true ?_ rfl
    simp only [if_true]
    split_ifs <;> simp only <;> unfold cipherLen <;> omega

theorem Decoder.layer3_accepts_iff (hm : P.mode = .gcm) {ihl : ℕ}
    (hh : layer3DecryptHeader P ctx packet pktLen = .ok ihl) :
    Decoder.layer3.Accepts evp P ctx packet pktLen ↔
      (openTunnel evp P ctx keyOrder (fun _ => true) packet pktLen (ethHeaderSize + ihl)
        (ethHeaderSize + ihl + P.tunnelHdrSize)).1 = true := by
  have htag : P.tagSize = 16 := CryptoParams.tagSize_of_gcm hm
  have hv : ∀ x, layer3Verify P x = fun _ => true := by intro x; unfold layer3Verify; rw [hm]
  have heth : ethHeaderSize = 14 := rfl
  have hihl := le_of_layer3DecryptHeader hh
  unfold Accepts cryptoLayer3Decrypt
  simp only [hh, hv]
  rw [openTunnel_set_proto (by omega)]
  cases ho : (openTunnel evp P ctx keyOrder (fun _ => true) packet pktLen (ethHeaderSize + ihl)
      (ethHeaderSize + ihl + P.tunnelHdrSize)).1 with
  | false => simp
  | true =>
    have := le_of_openTunnel ho
    refine iff_of_true ?_ rfl
    simp only [if_true]
    omega

theorem Decoder.layer4_accepts_iff (hm : P.mode = .gcm) {off : ℕ × ℕ}
    (hh : layer4DecryptHeader P ctx packet pktLen = .ok off) :
    Decoder.layer4.Accepts evp P ctx packet pktLen ↔
      (openTunnel evp P ctx keyOrder (fun _ => true) packet pktLen
        (off.1 + off.2 + l4WirePortLen) (off.1 + off.2 + l4WirePortLen + P.tunnelHdrSize)).1 =
          true := by
  have htag : P.tagSize = 16 := CryptoParams.tagSize_of_gcm hm
  unfold Accepts cryptoLayer4Decrypt
  simp only [hh]
  cases ho : (openTunnel evp P ctx keyOrder (fun _ => true) packet pktLen
      (off.1 + off.2 + l4WirePortLen) (off.1 + off.2 + l4WirePortLen + P.tunnelHdrSize)).1 with
  | false => simp
  | true =>
    have := le_of_openTunnel ho
    refine iff_of_true ?_ rfl
    simp only [if_true]
    unfold cipherLen
    omega

/-- **Acceptance.** In GCM mode a decoder accepts exactly the frames that pass its header tests and
whose ciphertext one of its keys opens. -/
theorem Decoder.accepts_iff (d : Decoder) (hm : P.mode = .gcm) :
    d.Accepts evp P ctx packet pktLen ↔
      ∃ n e, d.cipherAt P ctx packet pktLen = some (n, e) ∧
        (openTunnel evp P ctx d.keys (fun _ => true) packet pktLen n e).1 = true := by
  cases d with
  | layer2 =>
    cases hh : layer2DecryptHeader P ctx packet pktLen with
    | error r =>
      refine iff_of_false ?_ (by simp [cipherAt, hh])
      simp only [Accepts, cryptoLayer2Decrypt, hh]
      exact not_shorter_of_header_error (layer2DecryptHeader_error hh)
    | ok u =>
      rw [layer2_accepts_iff hm hh]
      simp [cipherAt, hh, keys]
  | layer3 =>
    cases hh : layer3DecryptHeader P ctx packet pktLen with
    | error r =>
      refine iff_of_false ?_ (by simp [cipherAt, hh])
      simp only [Accepts, cryptoLayer3Decrypt, hh]
      exact not_shorter_of_header_error (layer3DecryptHeader_error hh)
    | ok ihl =>
      rw [layer3_accepts_iff hm hh]
      simp [cipherAt, hh, keys]
  | layer4 =>
    cases hh : layer4DecryptHeader P ctx packet pktLen with
    | error r =>
      refine iff_of_false ?_ (by simp [cipherAt, hh])
      simp only [Accepts, cryptoLayer4Decrypt, hh]
      exact not_shorter_of_header_error (layer4DecryptHeader_error hh)
    | ok off =>
      rw [layer4_accepts_iff hm hh]
      simp [cipherAt, hh, keys]
  | layer2Fragment =>
    unfold Accepts cipherAt cryptoLayer2DecryptFragment
    cases layer2DecryptFragmentHeader P ctx packet pktLen with
    | none => simp
    | some u =>
      simp only [keys]
      split_ifs with ho <;> simp [ho]
  | layer3Fragment =>
    unfold Accepts cipherAt cryptoLayer3DecryptFragment
    cases layer3DecryptFragmentHeader P ctx packet pktLen with
    | none => simp
    | some ihl =>
      simp only [keys]
      split_ifs with ho <;> simp [ho]
  | layer4Fragment =>
    unfold Accepts cipherAt cryptoLayer4DecryptFragment
    cases layer4DecryptFragmentHeader P ctx packet pktLen with
    | none => simp
    | some off =>
      simp only [keys]
      split_ifs with ho <;> simp [ho]

end Accept

/-! ## Authentication -/

/-- One of the context's keys opens the ciphertext and the tag of the frame under its nonce. -/
def TagAccepted (evp : Evp) (P : CryptoParams) (ctx : PacketCryptoCtx) (packet : Packet)
    (pktLen nonceOff encOff : ℕ) : Prop :=
  ∃ slot, (evp.aesGcmOpen P.aesBits ((packetCryptoGetKey ctx slot).val.take P.aesBits.keySize)
    (packet.slice nonceOff P.nonceSize) (packet.slice encOff (cipherLen P pktLen encOff))
    (packet.slice (encOff + cipherLen P pktLen encOff) P.tagSize)).1 = true

namespace Decoder

/-- With an ideal AEAD, whatever its keys and tags are, the decoder accepts the frame only after
the tag check has accepted it. -/
def Authenticates (d : Decoder) (P : CryptoParams) (ctx : PacketCryptoCtx) (packet : Packet)
    (pktLen : ℕ) : Prop :=
  ∀ evp : Evp, evp.Lawful → evp.Ideal → d.Accepts evp P ctx packet pktLen →
    ∃ n e, d.cipherAt P ctx packet pktLen = some (n, e) ∧ TagAccepted evp P ctx packet pktLen n e

/-- The frame passes the header tests and has a tag, but its ciphertext is empty, or does not fit
the backup and there is a second key. -/
def CheckBypassed (d : Decoder) (P : CryptoParams) (ctx : PacketCryptoCtx) (packet : Packet)
    (pktLen : ℕ) : Prop :=
  ∃ n e, d.cipherAt P ctx packet pktLen = some (n, e) ∧
    (pktLen = e + gcmTagSize ∨ (d ≠ layer2 ∧ e + gcmTagSize + backupSize < pktLen))

end Decoder

section Authentication

variable {P : CryptoParams} {ctx : PacketCryptoCtx} {packet : Packet} {pktLen n e : ℕ}

theorem tagAccepted_of_tryKey {evp : Evp} {slot : KeySlot} (hm : P.mode = .gcm)
    (hne : cipherLen P pktLen e ≠ 0)
    (h : (tryKey evp P ctx slot (packet.slice n P.nonceSize)
      (packet.slice (e + cipherLen P pktLen e) P.tagSize) e (cipherLen P pktLen e) packet).1 = true) :
    TagAccepted evp P ctx packet pktLen n e := by
  refine ⟨slot, ?_⟩
  unfold tryKey decryptPayload at h
  rw [hm] at h
  simp only at h
  unfold cryptoAesGcmDecrypt at h
  rwa [if_neg (by rw [Buffer.length_slice]; exact hne)] at h

theorem tagAccepted_of_openTunnel {evp : Evp} {slots : List KeySlot} (hm : P.mode = .gcm)
    (hne : cipherLen P pktLen e ≠ 0) (hfit : cipherLen P pktLen e ≤ backupSize ∨ slots.length ≤ 1)
    (h : (openTunnel evp P ctx slots (fun _ => true) packet pktLen n e).1 = true) :
    TagAccepted evp P ctx packet pktLen n e := by
  unfold openTunnel at h
  split_ifs at h
  obtain ⟨slot, hslot⟩ := exists_tryKey_of_tryKeys slots 0 packet hfit
    (by rw [restoreBackup_zero]) h
  exact tagAccepted_of_tryKey hm hne hslot

theorem Decoder.authenticates_of_not_bypassed {d : Decoder} (hm : P.mode = .gcm)
    (h : ¬ d.CheckBypassed P ctx packet pktLen) : d.Authenticates P ctx packet pktLen := by
  intro evp _ _ hacc
  obtain ⟨n, e, hat, ho⟩ := (d.accepts_iff hm).mp hacc
  have htag : P.tagSize = 16 := CryptoParams.tagSize_of_gcm hm
  have hgcm : gcmTagSize = 16 := rfl
  have hle := le_of_openTunnel ho
  have hlen : ¬ pktLen = e + gcmTagSize := fun he => h ⟨n, e, hat, .inl he⟩
  refine ⟨n, e, hat, tagAccepted_of_openTunnel hm ?_ ?_ ho⟩
  · unfold cipherLen; omega
  · by_cases hd : d = layer2
    · subst hd; exact .inr le_rfl
    · have hlong : ¬ e + gcmTagSize + backupSize < pktLen := fun he => h ⟨n, e, hat, .inr ⟨hd, he⟩⟩
      refine .inl ?_
      unfold cipherLen
      omega

/-- Opens everything that comes with `tag`, except `cipher`. -/
def Evp.rejecting (cipher : List UInt8) (tag : { l : List UInt8 // l.length = 16 }) : Evp :=
  Evp.ofStream (fun _ _ _ _ => 1) (fun _ _ _ _ => 1) fun _ _ _ c =>
    if c = cipher then
      ⟨List.replicate 16 (if tag.val = List.replicate 16 0 then 1 else 0), List.length_replicate⟩
    else tag

section Rejecting

variable {cipher data : List UInt8} (tag : { l : List UInt8 // l.length = 16 })

theorem Evp.rejecting_self (cipher : List UInt8) (bits : AesBits) (key nonce : List UInt8) :
    ((Evp.rejecting cipher tag).aesGcmOpen bits key nonce cipher tag.val).1 = false := by
  unfold Evp.rejecting Evp.ofStream
  refine decide_eq_false ?_
  simp only [if_true]
  intro h
  split_ifs at h with h₀
  · exact absurd (h₀.symm.trans h) (by decide)
  · exact h₀ h

theorem Evp.rejecting_of_ne (hne : data ≠ cipher) (bits : AesBits) (key nonce : List UInt8) :
    ((Evp.rejecting cipher tag).aesGcmOpen bits key nonce data tag.val).1 = true := by
  unfold Evp.rejecting Evp.ofStream
  refine decide_eq_true ?_
  simp only [if_neg hne]

theorem xorStream_one_ne (h : data ≠ []) : Evp.xorStream (fun _ => 1) data ≠ data := by
  obtain ⟨x, xs, rfl⟩ := List.exists_cons_of_ne_nil h
  intro he
  have h₀ : x ^^^ 1 = x := by simpa [Evp.xorStream] using congrArg List.head? he
  have h₁ : x ^^^ (x ^^^ 1) = x ^^^ x := congrArg (x ^^^ ·) h₀
  rw [← UInt8.xor_assoc, UInt8.xor_self, UInt8.zero_xor] at h₁
  exact absurd h₁ (by decide)

end Rejecting

theorem Decoder.keys_eq_cons (d : Decoder) : ∃ slots, d.keys = .current :: slots := by
  cases d <;> exact ⟨_, rfl⟩

theorem Decoder.keys_of_ne {d : Decoder} (h : d ≠ layer2) : d.keys = [.current, .prev, .next] := by
  cases d with
  | layer2 => exact absurd rfl h
  | _ => rfl

theorem openTunnel_of_empty {evp : Evp} {slot : KeySlot} {slots : List KeySlot}
    (hm : P.mode = .gcm) (hlen : pktLen = e + gcmTagSize) :
    (openTunnel evp P ctx (slot :: slots) (fun _ => true) packet pktLen n e).1 = true := by
  have htag : P.tagSize = 16 := CryptoParams.tagSize_of_gcm hm
  have hgcm : gcmTagSize = 16 := rfl
  have henc : cipherLen P pktLen e = 0 := by unfold cipherLen; omega
  have hkey : ∀ nonce tag, tryKey evp P ctx slot nonce tag e 0 packet = (true, []) := by
    intro nonce tag
    unfold tryKey decryptPayload
    rw [hm]
    rfl
  unfold openTunnel
  rw [if_neg (by omega)]
  simp only [henc]
  exact congrArg Prod.fst (tryKeys_of_first (hkey _ _) rfl)

/-- A ciphertext longer than the backup is not restored after the first key has failed on it; the
second key then opens something else. -/
theorem openTunnel_of_long {tag : { l : List UInt8 // l.length = 16 }} {slot slot' : KeySlot}
    {slots : List KeySlot} (hm : P.mode = .gcm) (hlen : e + gcmTagSize + backupSize < pktLen)
    (htag : tag.val = packet.slice (e + cipherLen P pktLen e) P.tagSize) :
    (openTunnel (Evp.rejecting (packet.slice e (cipherLen P pktLen e)) tag) P ctx
      (slot :: slot' :: slots) (fun _ => true) packet pktLen n e).1 = true := by
  have hsize : P.tagSize = 16 := CryptoParams.tagSize_of_gcm hm
  have hgcm : gcmTagSize = 16 := rfl
  have hback : backupSize < cipherLen P pktLen e := by unfold cipherLen; omega
  unfold openTunnel
  rw [if_neg (by omega)]
  simp only [← htag]
  generalize hcipher : packet.slice e (cipherLen P pktLen e) = cipher
  have hcl : cipher.length = cipherLen P pktLen e := by rw [← hcipher, Buffer.length_slice]
  have hne : cipher ≠ [] := by rintro rfl; simp only [List.length_nil] at hcl; omega
  generalize hevp : Evp.rejecting cipher tag = evp
  -- the first key fails and leaves its output in the frame
  have hfirst : tryKey evp P ctx slot (packet.slice n P.nonceSize) tag.val e
      (cipherLen P pktLen e) packet = (false, Evp.xorStream (fun _ => 1) cipher) := by
    unfold tryKey decryptPayload cryptoAesGcmDecrypt
    rw [hm, hcipher]
    simp only
    rw [if_neg (by omega), ← hevp]
    exact Prod.ext (Evp.rejecting_self tag cipher _ _ _) rfl
  have hsecond : ∀ p : Packet,
      p.slice e (cipherLen P pktLen e) = Evp.xorStream (fun _ => 1) cipher →
      (tryKey evp P ctx slot' (packet.slice n P.nonceSize) tag.val e
        (cipherLen P pktLen e) p).1 = true := by
    intro p hp
    unfold tryKey decryptPayload cryptoAesGcmDecrypt
    rw [hm, hp]
    simp only [Evp.length_xorStream]
    rw [if_neg (by omega), ← hevp]
    exact Evp.rejecting_of_ne tag (xorStream_one_ne hne) _ _ _
  unfold tryKeys
  simp only [restoreBackup_zero, hfirst, Bool.false_and, Bool.false_eq_true, if_false]
  unfold tryKeys
  rw [restoreBackup_of_long hback]
  simp only [hsecond _ (Buffer.slice_write_self packet e (by simp [hcl])), Bool.and_true, if_true]

theorem Decoder.not_authenticates_of_bypassed {d : Decoder} (hm : P.mode = .gcm)
    (h : d.CheckBypassed P ctx packet pktLen) : ¬ d.Authenticates P ctx packet pktLen := by
  obtain ⟨n, e, hat, hlen⟩ := h
  intro hauth
  have hsize : P.tagSize = 16 := CryptoParams.tagSize_of_gcm hm
  let tag : { l : List UInt8 // l.length = 16 } :=
    ⟨packet.slice (e + cipherLen P pktLen e) P.tagSize, by rw [Buffer.length_slice, hsize]⟩
  have hopen : (openTunnel (Evp.rejecting (packet.slice e (cipherLen P pktLen e)) tag) P ctx d.keys
      (fun _ => true) packet pktLen n e).1 = true := by
    rcases hlen with hlen | ⟨hd, hlen⟩
    · obtain ⟨slots, hs⟩ := d.keys_eq_cons
      rw [hs]
      exact openTunnel_of_empty hm hlen
    · rw [keys_of_ne hd]
      exact openTunnel_of_long hm hlen rfl
  obtain ⟨n', e', hat', slot, hslot⟩ := hauth _ (Evp.lawful_ofStream _ _ _)
    (Evp.ideal_ofStream _ _ _) ((d.accepts_iff hm).mpr ⟨n, e, hat, hopen⟩)
  obtain ⟨rfl, rfl⟩ := Prod.mk.inj (Option.some.inj (hat.symm.trans hat'))
  have hrej := Evp.rejecting_self tag (packet.slice e (cipherLen P pktLen e)) P.aesBits
    ((packetCryptoGetKey ctx slot).val.take P.aesBits.keySize) (packet.slice n P.nonceSize)
  exact absurd (hrej.symm.trans hslot) (by decide)

/-- **Acceptance is authentication** except for the frames whose ciphertext is empty or, where
more than one key is tried, longer than the backup. -/
theorem Decoder.authenticates_iff (d : Decoder) (hm : P.mode = .gcm) :
    d.Authenticates P ctx packet pktLen ↔ ¬ d.CheckBypassed P ctx packet pktLen :=
  ⟨fun h hb => not_authenticates_of_bypassed hm hb h, authenticates_of_not_bypassed hm⟩

/-- An IPv4 header of the fake protocol with zeros behind it. -/
def fakeProtocolFrame : Packet :=
  packetOf [0, 0, 0, 0, 0, 0, 0, 0, 0, 0, 0, 0, 8, 0,
    0x45, 0, 0, 50, 0, 0, 0, 0, 64, 99, 0, 0, 10, 0, 0, 1, 10, 0, 0, 2]

theorem Decoder.authenticates_one_byte :
    Decoder.layer3.cipherAt (sampleParams .gcm) (sampleCtx Key.zero) fakeProtocolFrame 65 =
        some (34, 48) ∧
      Decoder.layer3.Authenticates (sampleParams .gcm) (sampleCtx Key.zero) fakeProtocolFrame 65 := by
  have hat : Decoder.layer3.cipherAt (sampleParams .gcm) (sampleCtx Key.zero) fakeProtocolFrame 65 =
      some (34, 48) := by decide
  refine ⟨hat, (Decoder.layer3.authenticates_iff rfl).mpr ?_⟩
  rintro ⟨n, e, hat', hlen⟩
  obtain ⟨rfl, rfl⟩ := Prod.mk.inj (Option.some.inj (hat.symm.trans hat'))
  revert hlen
  decide

/-- A frame that ends with the tag, right behind the tunnel header, is accepted whatever the tag
is. -/
theorem Decoder.not_authenticates_empty :
    ¬ Decoder.layer3.Authenticates (sampleParams .gcm) (sampleCtx Key.zero) fakeProtocolFrame 64 :=
  not_authenticates_of_bypassed rfl ⟨34, 48, by decide, .inl rfl⟩

end Authentication

end NetEncryptor

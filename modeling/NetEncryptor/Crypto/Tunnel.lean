import NetEncryptor.Crypto.Ipv4

/-!
# Tunnelled payloads

What the encoders and decoders of all three layers share.  `encapsulate` encrypts a range of the
frame in place, moves it up by the size of a tunnel header and appends the tag.  `openTunnel`
takes nonce, ciphertext and tag out of a frame and tries the context's keys on it (`tryKeys`),
restoring the ciphertext before each further key as long as it fits the 2048-byte backup.
-/

namespace NetEncryptor

/-- `sizeof(backup)`. -/
def backupSize : ℕ := 2048

def keyOrder : List KeySlot := [.current, .prev, .next]

section Keys

variable (evp : Evp) (P : CryptoParams) (ctx : PacketCryptoCtx)

/-- Decrypt `encLen` bytes at `encOff` in place with the key of one slot. -/
def tryKey (slot : KeySlot) (nonce tag : List UInt8) (encOff encLen : ℕ) (packet : Packet) :
    Bool × List UInt8 :=
  decryptPayload evp P (packetCryptoGetKey ctx slot) nonce (packet.slice encOff encLen) tag

/-- `if (k > 0 && has_backup) memcpy(work, backup, enc_len)`. -/
def restoreBackup (encOff encLen : ℕ) (backup : Packet) (k : ℕ) (packet : Packet) : Packet :=
  if 0 < k ∧ encLen ≤ backupSize then packet.copy encOff backup encOff encLen else packet

/-- The loop over the keys; `k` counts the rounds.  `verify` is the check of the plaintext that
some decoders make. -/
def tryKeys (nonce tag : List UInt8) (encOff encLen : ℕ) (verify : List UInt8 → Bool)
    (backup : Packet) : List KeySlot → ℕ → Packet → Bool × Packet
  | [], _, packet => (false, packet)
  | slot :: slots, k, packet =>
    let packet := restoreBackup encOff encLen backup k packet
    let r := tryKey evp P ctx slot nonce tag encOff encLen packet
    let packet := packet.write encOff r.2
    if r.1 && verify r.2 then (true, packet)
    else tryKeys nonce tag encOff encLen verify backup slots (k + 1) packet

/-- The ciphertext length of a frame of `pktLen` bytes whose ciphertext starts at `encOff`. -/
def cipherLen (pktLen encOff : ℕ) : ℕ := pktLen - encOff - P.tagSize

/-- Take nonce, ciphertext and tag out of a frame and try the keys on them. -/
def openTunnel (slots : List KeySlot) (verify : List UInt8 → Bool) (packet : Packet)
    (pktLen nonceOff encOff : ℕ) : Bool × Packet :=
  if pktLen - encOff < P.tagSize then (false, packet)
  else
    let encLen := cipherLen P pktLen encOff
    let nonce := packet.slice nonceOff P.nonceSize
    let tag := packet.slice (encOff + encLen) P.tagSize
    tryKeys evp P ctx nonce tag encOff encLen verify packet slots 0 packet

/-- Encrypt `len` bytes at `off` in place, move them up by a tunnel header, append the tag. -/
def encapsulate (key : Key) (nonce : List UInt8) (packet : Packet) (off len : ℕ) :
    Bool × Packet :=
  let r := encryptPayload evp P key nonce (packet.slice off len)
  let packet := packet.write off r.2.1
  if r.1 then
    let packet := packet.copy (off + P.tunnelHdrSize) packet off len
    (true, packet.write (off + P.tunnelHdrSize + len) r.2.2)
  else (false, packet)

/-- Encrypt `len` bytes at `off` where they stand and append the tag. -/
def sealInPlace (key : Key) (nonce : List UInt8) (packet : Packet) (off len : ℕ) : Bool × Packet :=
  let r := encryptPayload evp P key nonce (packet.slice off len)
  let packet := packet.write off r.2.1
  if r.1 then (true, packet.write (off + len) r.2.2) else (false, packet)

end Keys

/-! ## Encapsulation -/

section Encapsulate

variable {evp : Evp} {P : CryptoParams} {key : Key} {nonce : List UInt8} {packet : Packet}
  {off len : ℕ}

theorem encapsulate_fst :
    (encapsulate evp P key nonce packet off len).1 =
      (encryptPayload evp P key nonce (packet.slice off len)).1 := by
  unfold encapsulate
  cases h : (encryptPayload evp P key nonce (packet.slice off len)).1 <;> simp [h]

theorem encapsulate_of_lt {j : ℕ} (hj : j < off) :
    (encapsulate evp P key nonce packet off len).2 j = packet j := by
  unfold encapsulate
  cases h : (encryptPayload evp P key nonce (packet.slice off len)).1
  · simp only [h, Bool.false_eq_true, if_false]
    exact Buffer.write_of_lt hj
  · simp only [h, if_true]
    rw [Buffer.write_of_lt (by omega), Buffer.copy_of_lt (by omega), Buffer.write_of_lt hj]

theorem encapsulate_cipher (h : (encapsulate evp P key nonce packet off len).1 = true) :
    (encapsulate evp P key nonce packet off len).2.slice (off + P.tunnelHdrSize) len =
      (encryptPayload evp P key nonce (packet.slice off len)).2.1 := by
  rw [encapsulate_fst] at h
  unfold encapsulate
  simp only [h, if_true]
  have hl : (encryptPayload evp P key nonce (packet.slice off len)).2.1.length = len := by simp
  refine Eq.trans ?_ (Buffer.slice_write_self packet off hl)
  refine Buffer.slice_eq_slice_iff.mpr fun k hk => ?_
  rw [Buffer.write_of_lt (by omega), Buffer.copy_add hk]

theorem encapsulate_tag (h : (encapsulate evp P key nonce packet off len).1 = true) :
    (encapsulate evp P key nonce packet off len).2.slice (off + P.tunnelHdrSize + len) P.tagSize =
      (encryptPayload evp P key nonce (packet.slice off len)).2.2 := by
  rw [encapsulate_fst] at h
  unfold encapsulate
  simp only [h, if_true]
  exact Buffer.slice_write_self _ _ (by simp)

theorem sealInPlace_fst :
    (sealInPlace evp P key nonce packet off len).1 =
      (encryptPayload evp P key nonce (packet.slice off len)).1 := by
  unfold sealInPlace
  cases h : (encryptPayload evp P key nonce (packet.slice off len)).1 <;> simp [h]

theorem sealInPlace_of_lt {j : ℕ} (hj : j < off) :
    (sealInPlace evp P key nonce packet off len).2 j = packet j := by
  unfold sealInPlace
  cases h : (encryptPayload evp P key nonce (packet.slice off len)).1
  · simp only [h, Bool.false_eq_true, if_false]
    exact Buffer.write_of_lt hj
  · simp only [h, if_true]
    rw [Buffer.write_of_lt (by omega), Buffer.write_of_lt hj]

theorem sealInPlace_cipher (h : (sealInPlace evp P key nonce packet off len).1 = true) :
    (sealInPlace evp P key nonce packet off len).2.slice off len =
      (encryptPayload evp P key nonce (packet.slice off len)).2.1 := by
  rw [sealInPlace_fst] at h
  unfold sealInPlace
  simp only [h, if_true]
  have hl : (encryptPayload evp P key nonce (packet.slice off len)).2.1.length = len := by simp
  refine Eq.trans ?_ (Buffer.slice_write_self packet off hl)
  exact Buffer.slice_congr fun j _ hj => Buffer.write_of_lt hj

theorem sealInPlace_tag (h : (sealInPlace evp P key nonce packet off len).1 = true) :
    (sealInPlace evp P key nonce packet off len).2.slice (off + len) P.tagSize =
      (encryptPayload evp P key nonce (packet.slice off len)).2.2 := by
  rw [sealInPlace_fst] at h
  unfold sealInPlace
  simp only [h, if_true]
  exact Buffer.slice_write_self _ _ (by simp)

theorem sealInPlace_congr {q : Packet} {j : ℕ} (hplain : q.slice off len = packet.slice off len)
    (hj : q j = packet j) :
    (sealInPlace evp P key nonce q off len).2 j =
      (sealInPlace evp P key nonce packet off len).2 j := by
  unfold sealInPlace
  simp only [hplain]
  split_ifs
  · exact Buffer.write_congr (Buffer.write_congr hj)
  · exact Buffer.write_congr hj

end Encapsulate

/-! ## Tunnel headers -/

section Header

variable {packet : Packet} {off nonceSize : ℕ} {nonce : List UInt8} {policyId last : UInt8}

theorem tunnelHeader_of_lt {j : ℕ} (h : j < off) :
    cryptoWriteL3TunnelHeader packet off nonce nonceSize policyId last j = packet j := by
  unfold cryptoWriteL3TunnelHeader
  rw [Buffer.set_of_ne (by omega), Buffer.set_of_ne (by omega), Buffer.write_of_lt h]

theorem tunnelHeader_of_ge {j : ℕ} (hn : nonce.length ≤ nonceSize) (h : off + nonceSize + 2 ≤ j) :
    cryptoWriteL3TunnelHeader packet off nonce nonceSize policyId last j = packet j := by
  unfold cryptoWriteL3TunnelHeader
  rw [Buffer.set_of_ne (by omega), Buffer.set_of_ne (by omega), Buffer.write_of_ge (by omega)]

theorem tunnelHeader_nonce (hn : nonce.length = nonceSize) :
    (cryptoWriteL3TunnelHeader packet off nonce nonceSize policyId last).slice off nonceSize =
      nonce := by
  refine Eq.trans ?_ (Buffer.slice_write_self packet off hn)
  refine Buffer.slice_eq_slice_iff.mpr fun k hk => ?_
  unfold cryptoWriteL3TunnelHeader
  rw [Buffer.set_of_ne (by omega), Buffer.set_of_ne (by omega)]

theorem tunnelHeader_policy :
    cryptoWriteL3TunnelHeader packet off nonce nonceSize policyId last (off + nonceSize) =
      policyId := by
  unfold cryptoWriteL3TunnelHeader
  rw [Buffer.set_of_ne (by omega), Buffer.set_self]

theorem tunnelHeader_last :
    cryptoWriteL3TunnelHeader packet off nonce nonceSize policyId last (off + nonceSize + 1) =
      last := Buffer.set_self _ _ _

end Header

/-! ## Opening -/

section Open

variable {evp : Evp} {P : CryptoParams} {ctx : PacketCryptoCtx} {verify : List UInt8 → Bool}

theorem restoreBackup_of_lt {encOff encLen k j : ℕ} {backup packet : Packet} (hj : j < encOff) :
    restoreBackup encOff encLen backup k packet j = packet j := by
  unfold restoreBackup
  split_ifs
  · exact Buffer.copy_of_lt hj
  · rfl

@[simp] theorem restoreBackup_zero (encOff encLen : ℕ) (backup packet : Packet) :
    restoreBackup encOff encLen backup 0 packet = packet := if_neg (by omega)

theorem restoreBackup_of_long {encOff encLen k : ℕ} {backup packet : Packet}
    (h : backupSize < encLen) : restoreBackup encOff encLen backup k packet = packet :=
  if_neg (by omega)

theorem tryKeys_of_first {nonce tag plain : List UInt8} {encOff encLen : ℕ} {backup packet : Packet}
    {slot : KeySlot} {slots : List KeySlot}
    (h : tryKey evp P ctx slot nonce tag encOff encLen packet = (true, plain))
    (hv : verify plain = true) :
    tryKeys evp P ctx nonce tag encOff encLen verify backup (slot :: slots) 0 packet =
      (true, packet.write encOff plain) := by
  unfold tryKeys
  simp only [restoreBackup_zero, h, hv, Bool.and_self, if_true]

theorem tryKeys_of_lt {nonce tag : List UInt8} {encOff encLen : ℕ} {backup : Packet} {j : ℕ}
    (hj : j < encOff) : ∀ (slots : List KeySlot) (k : ℕ) (packet : Packet),
    (tryKeys evp P ctx nonce tag encOff encLen verify backup slots k packet).2 j = packet j := by
  intro slots
  induction slots with
  | nil => intro k packet; rfl
  | cons slot slots ih =>
    intro k packet
    unfold tryKeys
    simp only
    split_ifs
    · exact (Buffer.write_of_lt hj).trans (restoreBackup_of_lt hj)
    · rw [ih]
      exact (Buffer.write_of_lt hj).trans (restoreBackup_of_lt hj)

theorem openTunnel_of_lt {slots : List KeySlot} {packet : Packet} {pktLen nonceOff encOff j : ℕ}
    (hj : j < encOff) :
    (openTunnel evp P ctx slots verify packet pktLen nonceOff encOff).2 j = packet j := by
  unfold openTunnel
  split_ifs
  · rfl
  · exact tryKeys_of_lt hj _ _ _

theorem tryKeys_of_ge {nonce tag : List UInt8} {encOff encLen : ℕ} {backup : Packet} {j : ℕ}
    (hj : encOff + encLen ≤ j) : ∀ (slots : List KeySlot) (k : ℕ) (packet : Packet),
    (tryKeys evp P ctx nonce tag encOff encLen verify backup slots k packet).2 j = packet j := by
  have hrestore : ∀ (k : ℕ) (packet : Packet),
      restoreBackup encOff encLen backup k packet j = packet j := fun k packet => by
    unfold restoreBackup
    split_ifs
    · exact Buffer.copy_of_ge hj
    · rfl
  have hwrite : ∀ (slot : KeySlot) (packet : Packet), packet.write encOff
      (tryKey evp P ctx slot nonce tag encOff encLen packet).2 j = packet j := fun slot packet =>
    Buffer.write_of_ge (by unfold tryKey; simpa using hj)
  intro slots
  induction slots with
  | nil => intro k packet; rfl
  | cons slot slots ih =>
    intro k packet
    unfold tryKeys
    simp only
    split_ifs
    · exact (hwrite _ _).trans (hrestore _ _)
    · rw [ih]
      exact (hwrite _ _).trans (hrestore _ _)

theorem openTunnel_of_ge {slots : List KeySlot} {packet : Packet} {pktLen nonceOff encOff j : ℕ}
    (hj : encOff + cipherLen P pktLen encOff ≤ j) :
    (openTunnel evp P ctx slots verify packet pktLen nonceOff encOff).2 j = packet j := by
  unfold openTunnel
  split_ifs
  · rfl
  · exact tryKeys_of_ge hj _ _ _

/-- **Rejecting.** When every key rejects what the ciphertext can be, `I`, and leaves some `J` of
it, the loop fails and leaves some `J`. -/
theorem tryKeys_rejected {I J : List UInt8 → Prop} {nonce tag : List UInt8} {encOff encLen : ℕ}
    {backup : Packet} (hJI : ∀ data, J data → I data)
    (hbackup : I (backup.slice encOff encLen)) : ∀ (slots : List KeySlot),
    (∀ slot ∈ slots, ∀ data, data.length = encLen → I data →
      (decryptPayload evp P (packetCryptoGetKey ctx slot) nonce data tag).1 = false ∧
        J (decryptPayload evp P (packetCryptoGetKey ctx slot) nonce data tag).2) →
    ∀ (k : ℕ) (packet : Packet), I (packet.slice encOff encLen) →
      (slots = [] → J (packet.slice encOff encLen)) →
      (tryKeys evp P ctx nonce tag encOff encLen verify backup slots k packet).1 = false ∧
        J ((tryKeys evp P ctx nonce tag encOff encLen verify backup slots k packet).2.slice encOff
          encLen) := by
  intro slots
  induction slots with
  | nil => exact fun _ k packet _ hJ => ⟨rfl, hJ rfl⟩
  | cons slot slots ih =>
    intro hrej k packet hI _
    have hrestored : I ((restoreBackup encOff encLen backup k packet).slice encOff encLen) := by
      unfold restoreBackup
      split_ifs
      · rw [Buffer.slice_copy_self]; exact hbackup
      · exact hI
    obtain ⟨hfst, hsnd⟩ := hrej slot List.mem_cons_self _ (Buffer.length_slice _ _ _) hrestored
    have hJ : J (((restoreBackup encOff encLen backup k packet).write encOff
        (tryKey evp P ctx slot nonce tag encOff encLen
          (restoreBackup encOff encLen backup k packet)).2).slice encOff encLen) := by
      rw [Buffer.slice_write_self _ _ (by unfold tryKey; simp)]
      exact hsnd
    have hfail : (tryKey evp P ctx slot nonce tag encOff encLen
        (restoreBackup encOff encLen backup k packet)).1 = false := hfst
    unfold tryKeys
    simp only [hfail, Bool.false_and, Bool.false_eq_true, if_false]
    exact ih (fun slot' h => hrej slot' (List.mem_cons_of_mem _ h)) (k + 1) _ (hJI _ hJ) fun _ => hJ

theorem openTunnel_rejected (I J : List UInt8 → Prop) {slots : List KeySlot} {packet : Packet}
    {pktLen nonceOff encOff : ℕ} (hlen : P.tagSize ≤ pktLen - encOff) (hJI : ∀ data, J data → I data)
    (hI : I (packet.slice encOff (cipherLen P pktLen encOff))) (hslots : slots ≠ [])
    (hrej : ∀ slot ∈ slots, ∀ data, data.length = cipherLen P pktLen encOff → I data →
      let r := decryptPayload evp P (packetCryptoGetKey ctx slot) (packet.slice nonceOff P.nonceSize)
        data (packet.slice (encOff + cipherLen P pktLen encOff) P.tagSize)
      r.1 = false ∧ J r.2) :
    (openTunnel evp P ctx slots verify packet pktLen nonceOff encOff).1 = false ∧
      J ((openTunnel evp P ctx slots verify packet pktLen nonceOff encOff).2.slice encOff
        (cipherLen P pktLen encOff)) := by
  unfold openTunnel
  rw [if_neg (by omega)]
  exact tryKeys_rejected hJI hI slots hrej 0 packet hI fun h => absurd h hslots

theorem openTunnel_empty {slot : KeySlot} {slots : List KeySlot} {packet : Packet}
    {pktLen nonceOff encOff : ℕ} (hmode : P.mode = .gcm) (hlen : pktLen = encOff + P.tagSize)
    (hv : verify [] = true) :
    openTunnel evp P ctx (slot :: slots) verify packet pktLen nonceOff encOff = (true, packet) := by
  have henc : cipherLen P pktLen encOff = 0 := by unfold cipherLen; omega
  have hkey : ∀ nonce tag, tryKey evp P ctx slot nonce tag encOff 0 packet = (true, []) := by
    intro nonce tag
    unfold tryKey decryptPayload
    rw [hmode]
    exact if_pos rfl
  have hwrite : packet.write encOff [] = packet := by
    funext j
    by_cases hj : j < encOff
    · exact Buffer.write_of_lt hj
    · exact Buffer.write_of_ge (not_lt.mp hj)
  unfold openTunnel
  rw [if_neg (by omega)]
  simp only [henc]
  rw [tryKeys_of_first (hkey _ _) hv, hwrite]

/-- **Opening what was sealed.** A frame that holds the nonce, the ciphertext and the tag of
`plain` under the first key tried opens to `plain`. -/
theorem openTunnel_seal (hevp : evp.Lawful) {slot : KeySlot} {slots : List KeySlot}
    {packet : Packet} {pktLen nonceOff encOff : ℕ} {plain : List UInt8}
    (hlen : pktLen = encOff + plain.length + P.tagSize)
    (hok : (encryptPayload evp P (packetCryptoGetKey ctx slot)
      (packet.slice nonceOff P.nonceSize) plain).1 = true)
    (hct : packet.slice encOff plain.length = (encryptPayload evp P (packetCryptoGetKey ctx slot)
      (packet.slice nonceOff P.nonceSize) plain).2.1)
    (htag : packet.slice (encOff + plain.length) P.tagSize =
      (encryptPayload evp P (packetCryptoGetKey ctx slot)
        (packet.slice nonceOff P.nonceSize) plain).2.2)
    (hv : verify plain = true) :
    openTunnel evp P ctx (slot :: slots) verify packet pktLen nonceOff encOff =
      (true, packet.write encOff plain) := by
  have henc : cipherLen P pktLen encOff = plain.length := by unfold cipherLen; omega
  unfold openTunnel
  rw [if_neg (by omega)]
  simp only [henc]
  refine tryKeys_of_first ?_ hv
  unfold tryKey
  rw [hct, htag]
  exact decryptPayload_encryptPayload hevp hok

end Open

/-! ## Whole tunnels -/

/-- The frame `q` holds at `off` a tunnel header that ends in `last`, and behind it `plain`
encrypted under `key` and `nonce`. -/
structure TunnelAt (evp : Evp) (P : CryptoParams) (key : Key) (nonce plain : List UInt8)
    (last : UInt8) (q : Packet) (off : ℕ) : Prop where
  sealed : (encryptPayload evp P key nonce plain).1 = true
  nonce_eq : q.slice off P.nonceSize = nonce
  policy_eq : q (off + P.nonceSize) = P.policyId
  last_eq : q (off + P.nonceSize + 1) = last
  cipher_eq : q.slice (off + P.tunnelHdrSize) plain.length = (encryptPayload evp P key nonce plain).2.1
  tag_eq : q.slice (off + P.tunnelHdrSize + plain.length) P.tagSize =
    (encryptPayload evp P key nonce plain).2.2

section Tunnel

variable {evp : Evp} {P : CryptoParams} {key : Key} {nonce plain : List UInt8} {last : UInt8}
  {q q' : Packet} {off : ℕ}

theorem TunnelAt.congr (h : TunnelAt evp P key nonce plain last q off)
    (hq : ∀ j, off ≤ j → q' j = q j) : TunnelAt evp P key nonce plain last q' off where
  sealed := h.sealed
  nonce_eq := (Buffer.slice_congr fun j hj _ => hq j hj).trans h.nonce_eq
  policy_eq := (hq _ (by omega)).trans h.policy_eq
  last_eq := (hq _ (by omega)).trans h.last_eq
  cipher_eq := (Buffer.slice_congr fun j hj _ => hq j (by omega)).trans h.cipher_eq
  tag_eq := (Buffer.slice_congr fun j hj _ => hq j (by omega)).trans h.tag_eq

theorem tunnelAt_encapsulate {packet : Packet} {len : ℕ} (hn : nonce.length = P.nonceSize)
    (h : (encapsulate evp P key nonce packet off len).1 = true) :
    TunnelAt evp P key nonce (packet.slice off len) last
      (cryptoWriteL3TunnelHeader (encapsulate evp P key nonce packet off len).2 off nonce
        P.nonceSize P.policyId last) off where
  sealed := encapsulate_fst.symm.trans h
  nonce_eq := tunnelHeader_nonce hn
  policy_eq := tunnelHeader_policy
  last_eq := tunnelHeader_last
  cipher_eq := by
    rw [Buffer.length_slice, ← encapsulate_cipher h]
    exact Buffer.slice_congr fun j hj _ =>
      tunnelHeader_of_ge hn.le (by unfold CryptoParams.tunnelHdrSize at hj; omega)
  tag_eq := by
    rw [Buffer.length_slice, ← encapsulate_tag h]
    exact Buffer.slice_congr fun j hj _ =>
      tunnelHeader_of_ge hn.le (by unfold CryptoParams.tunnelHdrSize at hj; omega)

theorem TunnelAt.openTunnel {ctx : PacketCryptoCtx} {verify : List UInt8 → Bool} {slot : KeySlot}
    {slots : List KeySlot} {pktLen : ℕ} (hevp : evp.Lawful)
    (h : TunnelAt evp P (packetCryptoGetKey ctx slot) nonce plain last q off)
    (hlen : pktLen = off + P.tunnelHdrSize + plain.length + P.tagSize)
    (hv : verify plain = true) :
    openTunnel evp P ctx (slot :: slots) verify q pktLen off (off + P.tunnelHdrSize) =
      (true, q.write (off + P.tunnelHdrSize) plain) := by
  refine openTunnel_seal hevp hlen ?_ ?_ ?_ hv
  · rw [h.nonce_eq]; exact h.sealed
  · rw [h.nonce_eq]; exact h.cipher_eq
  · rw [h.nonce_eq]; exact h.tag_eq

end Tunnel

end NetEncryptor

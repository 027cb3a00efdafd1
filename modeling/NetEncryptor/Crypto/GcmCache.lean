import NetEncryptor.Base.Runs
import NetEncryptor.Crypto.PacketCrypto

/-!
# The GCM key cache

`crypto_aes_gcm_encrypt` and `crypto_aes_gcm_decrypt` keep an OpenSSL context each for a thread, and
key it again only when the key or the nonce length is not that of the last keying.  The rest of the
development has the calls as functions of key, nonce and data (`cryptoAesGcmEncrypt`,
`cryptoAesGcmDecrypt`); `gcmCache_agrees_iff` says when the cached calls are these functions.  What is
compared is the prefix of the key that the present AES size asks for, while the size that the
context was keyed for is not kept.
-/

namespace NetEncryptor

/-! ## OpenSSL contexts -/

/-- An `EVP_CIPHER_CTX` that is used for GCM.  The IV comes with every message. -/
structure EvpCipherCtx where
  cipher : Option AesBits
  ivLen : ℤ
  key : Option (List UInt8)

namespace EvpCipherCtx

/-- `EVP_CIPHER_CTX_new`. -/
def new : EvpCipherCtx := ⟨none, 0, none⟩

/-- An initialisation with a cipher alone: the context has no key, and the IV length of GCM. -/
def initCipher (bits : AesBits) (_ : EvpCipherCtx) : EvpCipherCtx := ⟨some bits, 12, none⟩

/-- `EVP_CTRL_GCM_SET_IVLEN`. -/
def setIvLen (n : ℤ) (ctx : EvpCipherCtx) : EvpCipherCtx := { ctx with ivLen := n }

def initKey (key : Key) (ctx : EvpCipherCtx) : EvpCipherCtx :=
  { ctx with key := ctx.cipher.map fun bits => key.val.take bits.keySize }

/-- What a context that is made for the call holds. -/
def fresh (bits : AesBits) (nonceLen : ℤ) (key : Key) : EvpCipherCtx :=
  ⟨some bits, nonceLen, some (key.val.take bits.keySize)⟩

end EvpCipherCtx

/-- What becomes of an OpenSSL call. -/
inductive EvpOutcome
  | ok
  | failed
  /-- It fails, and the context has lost its key. -/
  | lost (cipher : Option AesBits) (ivLen : ℤ)
  deriving DecidableEq

/-- Whether the call returns `1`, and the context afterwards. -/
def EvpOutcome.run (o : EvpOutcome) (call : EvpCipherCtx → EvpCipherCtx) (ctx : EvpCipherCtx) :
    Bool × EvpCipherCtx :=
  match o with
  | ok => (true, call ctx)
  | failed => (false, ctx)
  | lost cipher ivLen => (false, ⟨cipher, ivLen, none⟩)

structure GcmEnv where
  /-- `EVP_CIPHER_CTX_new` returns a context. -/
  newOk : Bool
  initCipher : EvpOutcome
  setIvLen : EvpOutcome
  initKey : EvpOutcome
  initNonce : EvpOutcome
  /-- The calls behind it: update, final and the tag's control. -/
  process : EvpOutcome

/-- A call: the parameters of the thread, the arguments, and the outcomes.  `tag` is what the tag
buffer holds; only `crypto_aes_gcm_decrypt` reads it. -/
structure GcmCall where
  params : CryptoParams
  key : Key
  nonce : Buffer UInt8
  nonceLen : ℤ
  data : List UInt8
  tag : { l : List UInt8 // l.length = 16 }
  env : GcmEnv

/-- `EVP_CTRL_GCM_SET_IVLEN` accepts positive lengths only. -/
def GcmCall.setIvLen (c : GcmCall) : EvpOutcome := if 0 < c.nonceLen then c.env.setIvLen else .failed

/-! ## The wrappers -/

/-- `tls_gcm_enc_ctx`, `tls_cached_key`, `tls_key_cached` and `tls_cached_nonce_len`, or their
counterparts for decryption. -/
structure GcmCache where
  ctx : Option EvpCipherCtx
  cachedKey : Key
  keyCached : Bool
  cachedNonceLen : ℤ

def GcmCache.start : GcmCache := ⟨none, Key.zero, false, 0⟩

/-- `memcpy` of `n` bytes of a key over another one. -/
def Key.overwrite (old key : Key) (n : ℕ) : Key :=
  ⟨key.val.take n ++ old.val.drop n, by
    rw [List.length_append, List.length_take, List.length_drop, key.property, old.property]
    omega⟩

def GcmCache.KeyChanged (s : GcmCache) (c : GcmCall) : Prop :=
  s.keyCached = false ∨
    s.cachedKey.val.take c.params.aesBits.keySize ≠ c.key.val.take c.params.aesBits.keySize ∨
    s.cachedNonceLen ≠ c.nonceLen

instance (s : GcmCache) (c : GcmCall) : Decidable (s.KeyChanged c) :=
  inferInstanceAs (Decidable (_ ∨ _))

/-- `get_gcm_enc_ctx` and `get_gcm_dec_ctx`. -/
def GcmCache.getCtx (s : GcmCache) (env : GcmEnv) : Option EvpCipherCtx :=
  match s.ctx with
  | some ctx => some ctx
  | none => if env.newOk then some .new else none

/-- Initialise the context for the message: the context, or `none` for `-1`, and the cache
afterwards. -/
def gcmInit (s : GcmCache) (ctx : EvpCipherCtx) (c : GcmCall) : Option EvpCipherCtx × GcmCache :=
  if s.KeyChanged c then
    let r := c.env.initCipher.run (.initCipher c.params.aesBits) ctx
    if r.1 = false then (none, { s with ctx := some r.2 })
    else
      let r := c.setIvLen.run (.setIvLen c.nonceLen) r.2
      if r.1 = false then (none, { s with ctx := some r.2 })
      else
        let r := c.env.initKey.run (.initKey c.key) r.2
        if r.1 = false then (none, { s with ctx := some r.2 })
        else
          (some r.2,
            { ctx := some r.2
              cachedKey := s.cachedKey.overwrite c.key c.params.aesBits.keySize
              keyCached := true
              cachedNonceLen := c.nonceLen })
  else
    let r := c.env.initNonce.run id ctx
    if r.1 = false then (none, { s with ctx := some r.2 })
    else (some r.2, { s with ctx := some r.2 })

/-- What the two wrappers do alike: the context that the data went through, if every OpenSSL call
succeeded, and the cache afterwards. -/
def gcmProcess (s : GcmCache) (c : GcmCall) : Option EvpCipherCtx × GcmCache :=
  match s.getCtx c.env with
  | none => (none, s)
  | some ctx =>
    match gcmInit s ctx c with
    | (none, s) => (none, s)
    | (some ctx, s) =>
      let r := c.env.process.run id ctx
      (if r.1 then some ctx else none, { s with ctx := some r.2 })

/-- Data and tag that a keyed context makes; without a key OpenSSL refuses the data. -/
def EvpCipherCtx.seal (evp : Evp) (ctx : EvpCipherCtx) (nonce : Buffer UInt8) (data : List UInt8) :
    Option (List UInt8 × List UInt8) :=
  match ctx.cipher, ctx.key with
  | some bits, some key =>
    let r := evp.aesGcmSeal bits key (nonce.slice 0 ctx.ivLen.toNat) data
    if r.1 then some r.2 else none
  | _, _ => none

/-- The data that a keyed context opens with the tag. -/
def EvpCipherCtx.open (evp : Evp) (ctx : EvpCipherCtx) (nonce : Buffer UInt8)
    (data tag : List UInt8) : Option (List UInt8) :=
  match ctx.cipher, ctx.key with
  | some bits, some key =>
    let r := evp.aesGcmOpen bits key (nonce.slice 0 ctx.ivLen.toNat) data tag
    if r.1 then some r.2 else none
  | _, _ => none

/-- `crypto_aes_gcm_encrypt`: data and tag for `0`, `none` for `-1`. -/
def GcmCache.cryptoAesGcmEncrypt (evp : Evp) (s : GcmCache) (c : GcmCall) :
    Option (List UInt8 × List UInt8) × GcmCache :=
  if c.data = [] then (some (c.data, c.tag), s)
  else
    let r := gcmProcess s c
    (r.1.bind fun ctx => ctx.seal evp c.nonce c.data, r.2)

def GcmCache.cryptoAesGcmDecrypt (evp : Evp) (s : GcmCache) (c : GcmCall) :
    Option (List UInt8) × GcmCache :=
  if c.data = [] then (some c.data, s)
  else
    let r := gcmProcess s c
    (r.1.bind fun ctx => ctx.open evp c.nonce c.data c.tag, r.2)

/-- What a call leaves, by whichever wrapper. -/
def gcmStep (s : GcmCache) (c : GcmCall) : Option GcmCache :=
  some (if c.data = [] then s else (gcmProcess s c).2)

/-! ## Agreement -/

/-- A call for data that returns `0` gives what a fresh context gives for it. -/
def EncryptAgrees (evp : Evp) (s : GcmCache) (c : GcmCall) : Prop :=
  c.data ≠ [] → ∀ r, (s.cryptoAesGcmEncrypt evp c).1 = some r →
    cryptoAesGcmEncrypt evp c.params c.key (c.nonce.slice 0 c.nonceLen.toNat) c.data = (true, r)

def DecryptAgrees (evp : Evp) (s : GcmCache) (c : GcmCall) : Prop :=
  c.data ≠ [] → ∀ r, (s.cryptoAesGcmDecrypt evp c).1 = some r →
    cryptoAesGcmDecrypt evp c.params c.key (c.nonce.slice 0 c.nonceLen.toNat) c.data c.tag = (true, r)

/-- A call for data that finds its key and nonce length cached, the context keyed and no failing
OpenSSL call has the AES size for which the context was keyed. -/
def SizeKept (s : GcmCache) (c : GcmCall) : Prop :=
  c.data ≠ [] → ¬ s.KeyChanged c → c.env.initNonce = .ok → c.env.process = .ok →
    ∀ ctx, s.ctx = some ctx → ctx.key ≠ none → ctx.cipher = some c.params.aesBits

/-- A context with a key has the nonce length of the cache and, up to the size of its cipher, the
cached key. -/
def GcmCache.Consistent (s : GcmCache) : Prop :=
  ∀ ctx, s.ctx = some ctx → ∀ key, ctx.key = some key → ∃ bits, ctx.cipher = some bits ∧
    key = s.cachedKey.val.take bits.keySize ∧ ctx.ivLen = s.cachedNonceLen

theorem GcmCache.consistent_start : GcmCache.start.Consistent := by
  intro ctx h
  cases h

section

variable {s : GcmCache} {c : GcmCall} {ctx ctx' : EvpCipherCtx}

theorem EvpOutcome.run_failed {o : EvpOutcome} {call : EvpCipherCtx → EvpCipherCtx}
    (h : (o.run call ctx).1 = false) :
    (o.run call ctx).2 = ctx ∨ (o.run call ctx).2.key = none := by
  cases o with
  | ok => cases h
  | failed => exact .inl rfl
  | lost cipher ivLen => exact .inr rfl

theorem EvpOutcome.run_ok {o : EvpOutcome} {call : EvpCipherCtx → EvpCipherCtx}
    (h : ¬ (o.run call ctx).1 = false) : o = .ok ∧ (o.run call ctx).2 = call ctx := by
  cases o with
  | ok => exact ⟨rfl, rfl⟩
  | failed => exact absurd rfl h
  | lost cipher ivLen => exact absurd rfl h

theorem GcmCache.consistent_of_key (h : ctx.key = none) :
    ({ s with ctx := some ctx } : GcmCache).Consistent := by
  rintro _ ⟨⟩ key hkey
  rw [h] at hkey
  cases hkey

theorem GcmCache.Consistent.run_failed {o : EvpOutcome} {call : EvpCipherCtx → EvpCipherCtx}
    (hs : ({ s with ctx := some ctx } : GcmCache).Consistent) (h : (o.run call ctx).1 = false) :
    ({ s with ctx := some (o.run call ctx).2 } : GcmCache).Consistent := by
  rcases EvpOutcome.run_failed h with h | h
  · rwa [h]
  · exact consistent_of_key h

theorem GcmCache.take_overwrite (old key : Key) (bits : AesBits) :
    (old.overwrite key bits.keySize).val.take bits.keySize = key.val.take bits.keySize := by
  have hlen : (key.val.take bits.keySize).length = bits.keySize := by
    rw [List.length_take, key.property]
    cases bits <;> rfl
  unfold Key.overwrite
  rw [List.take_append_of_le_length hlen.ge, List.take_of_length_le hlen.le]

/-- **The initialisation.** It keeps the cache consistent, and the context that it hands on is a fresh
one if the key has changed, and otherwise the old one. -/
theorem gcmInit_spec (hs : ({ s with ctx := some ctx } : GcmCache).Consistent) :
    (gcmInit s ctx c).2.Consistent ∧ ∀ ctx', (gcmInit s ctx c).1 = some ctx' →
      (gcmInit s ctx c).2.ctx = some ctx' ∧
        if s.KeyChanged c then ctx' = .fresh c.params.aesBits c.nonceLen c.key
        else c.env.initNonce = .ok ∧ ctx' = ctx := by
  by_cases hchanged : s.KeyChanged c
  · simp only [gcmInit, if_pos hchanged]
    split_ifs with hcipher hiv hkey
    · exact ⟨hs.run_failed hcipher, fun _ h => by cases h⟩
    all_goals obtain ⟨-, hctx⟩ := EvpOutcome.run_ok hcipher
    · refine ⟨GcmCache.Consistent.run_failed ?_ hiv, fun _ h => by cases h⟩
      exact GcmCache.consistent_of_key (by rw [hctx]; rfl)
    all_goals obtain ⟨-, hctx'⟩ := EvpOutcome.run_ok hiv
    · refine ⟨GcmCache.Consistent.run_failed ?_ hkey, fun _ h => by cases h⟩
      exact GcmCache.consistent_of_key (by rw [hctx', hctx]; rfl)
    · obtain ⟨-, hctx''⟩ := EvpOutcome.run_ok hkey
      have hfresh : _ = EvpCipherCtx.fresh c.params.aesBits c.nonceLen c.key :=
        hctx''.trans (by rw [hctx', hctx]; rfl)
      refine ⟨?_, fun ctx' h => ⟨h, (Option.some.inj h).symm.trans hfresh⟩⟩
      rw [hfresh]
      rintro _ ⟨⟩ key ⟨⟩
      exact ⟨c.params.aesBits, rfl, (GcmCache.take_overwrite _ _ _).symm, rfl⟩
  · simp only [gcmInit, if_neg hchanged]
    split_ifs with hnonce
    · exact ⟨hs.run_failed hnonce, fun _ h => by cases h⟩
    · obtain ⟨hok, hctx⟩ := EvpOutcome.run_ok hnonce
      rw [hctx]
      exact ⟨hs, fun ctx' h => ⟨h, hok, (Option.some.inj h).symm⟩⟩

theorem GcmCache.Consistent.getCtx (hs : s.Consistent) (h : s.getCtx c.env = some ctx) :
    ({ s with ctx := some ctx } : GcmCache).Consistent := by
  unfold GcmCache.getCtx at h
  cases hctx : s.ctx with
  | none =>
    rw [hctx] at h
    simp only at h
    split_ifs at h
    obtain rfl := (Option.some.inj h).symm
    exact consistent_of_key rfl
  | some ctx' =>
    rw [hctx] at h
    obtain rfl := Option.some.inj h
    intro ctx'' h'
    exact hs ctx'' (hctx.trans h')

/-- **A call** keeps the cache consistent, and the context that the data goes through is a fresh one,
or the one of the cache. -/
theorem gcmProcess_spec (hs : s.Consistent) :
    (gcmProcess s c).2.Consistent ∧ ∀ ctx', (gcmProcess s c).1 = some ctx' →
      if s.KeyChanged c then ctx' = .fresh c.params.aesBits c.nonceLen c.key
      else c.env.initNonce = .ok ∧ c.env.process = .ok ∧ (ctx' = .new ∨ s.ctx = some ctx') := by
  unfold gcmProcess
  cases hctx : s.getCtx c.env with
  | none => exact ⟨hs, fun _ h => by cases h⟩
  | some ctx =>
    obtain ⟨hconsistent, hspec⟩ := gcmInit_spec (c := c) (hs.getCtx hctx)
    have hold : ctx = .new ∨ s.ctx = some ctx := by
      unfold GcmCache.getCtx at hctx
      split at hctx
      · rename_i h
        exact .inr (h.trans hctx)
      · split_ifs at hctx
        exact .inl (Option.some.inj hctx).symm
    cases hinit : gcmInit s ctx c with
    | mk r s' =>
      rw [hinit] at hconsistent hspec
      simp only [hinit]
      cases r with
      | none => exact ⟨hconsistent, fun _ h => by cases h⟩
      | some ctx' =>
        obtain ⟨hctx', hcase⟩ := hspec ctx' rfl
        have hs' : ({ s' with ctx := some ctx' } : GcmCache).Consistent := by
          rw [← hctx']
          exact hconsistent
        simp only
        by_cases hok : (c.env.process.run id ctx').1 = false
        · refine ⟨hs'.run_failed hok, fun ctx'' h => ?_⟩
          rw [hok] at h
          cases h
        · obtain ⟨hprocess, hafter⟩ := EvpOutcome.run_ok hok
          rw [hafter, if_pos (by rwa [Bool.not_eq_false] at hok)]
          refine ⟨hs', fun ctx'' h => ?_⟩
          obtain rfl := Option.some.inj h
          split_ifs at hcase ⊢
          · exact hcase
          · exact ⟨hcase.1, hprocess, hcase.2 ▸ hold⟩

/-! ## One call -/

theorem gcmProcess_fresh (hs : s.Consistent) (hdata : c.data ≠ []) (hkept : SizeKept s c)
    (h : (gcmProcess s c).1 = some ctx) (hkey : ctx.key ≠ none) :
    ctx = .fresh c.params.aesBits c.nonceLen c.key := by
  have hcase := (gcmProcess_spec hs).2 ctx h
  by_cases hchanged : s.KeyChanged c
  · rwa [if_pos hchanged] at hcase
  · rw [if_neg hchanged] at hcase
    obtain ⟨hnonce, hprocess, rfl | hctx⟩ := hcase
    · exact absurd rfl hkey
    · have hcipher := hkept hdata hchanged hnonce hprocess ctx hctx hkey
      obtain ⟨key, hkey'⟩ := Option.ne_none_iff_exists'.mp hkey
      obtain ⟨bits, hbits, hprefix, hlen⟩ := hs ctx hctx key hkey'
      obtain rfl := Option.some.inj (hcipher.symm.trans hbits)
      simp only [GcmCache.KeyChanged, not_or, not_not] at hchanged
      obtain ⟨cipher, ivLen, key₀⟩ := ctx
      obtain rfl : key₀ = some key := hkey'
      obtain rfl : cipher = some c.params.aesBits := hcipher
      obtain rfl : ivLen = c.nonceLen := hlen.trans hchanged.2.2
      rw [EvpCipherCtx.fresh, hprefix, hchanged.2.1]

theorem gcmProcess_stale (hkept : ¬ SizeKept s c) (hs : s.Consistent) :
    c.data ≠ [] ∧ ∃ ctx bits key, (gcmProcess s c).1 = some ctx ∧ ctx.cipher = some bits ∧
      bits ≠ c.params.aesBits ∧ ctx.key = some key := by
  unfold SizeKept at hkept
  push Not at hkept
  obtain ⟨hdata, hchanged, hnonce, hprocess, ctx, hctx, hkey, hcipher⟩ := hkept
  obtain ⟨key, hkey'⟩ := Option.ne_none_iff_exists'.mp hkey
  obtain ⟨bits, hbits, -⟩ := hs ctx hctx key hkey'
  refine ⟨hdata, ctx, bits, key, ?_, hbits, fun h => hcipher (hbits.trans (congrArg some h)), hkey'⟩
  have hget : s.getCtx c.env = some ctx := by
    unfold GcmCache.getCtx
    rw [hctx]
  unfold gcmProcess
  simp only [hget, gcmInit, if_neg hchanged, hnonce, hprocess, EvpOutcome.run, id_eq, if_true,
    Bool.true_eq_false, if_false]

def otherTag (tag : { l : List UInt8 // l.length = 16 }) :
    { l : List UInt8 // l.length = 16 } :=
  if tag.val = List.replicate 16 0 then ⟨List.replicate 16 1, rfl⟩
  else ⟨List.replicate 16 0, length_zeroTag⟩

theorem otherTag_ne (tag : { l : List UInt8 // l.length = 16 }) :
    (otherTag tag).val ≠ tag.val := by
  unfold otherTag
  split_ifs with h
  · rw [h]
    decide
  · exact fun h' => h h'.symm

/-- A cipher whose tags tell the AES size. -/
def sizeTagEvp (bits : AesBits) (tag : { l : List UInt8 // l.length = 16 }) : Evp :=
  Evp.ofStream (fun _ _ _ _ => 0) (fun _ _ _ _ => 0) fun bits' _ _ _ =>
    if bits' = bits then tag else otherTag tag

theorem seal_eq_some_iff {evp : Evp} {nonce : Buffer UInt8} {data : List UInt8}
    {r : List UInt8 × List UInt8} :
    ctx.seal evp nonce data = some r ↔ ∃ bits key, ctx.cipher = some bits ∧ ctx.key = some key ∧
      evp.aesGcmSeal bits key (nonce.slice 0 ctx.ivLen.toNat) data = (true, r) := by
  obtain ⟨_ | bits, ivLen, _ | key⟩ := ctx
  · simp [EvpCipherCtx.seal]
  · simp [EvpCipherCtx.seal]
  · simp [EvpCipherCtx.seal]
  · simp [EvpCipherCtx.seal, Prod.ext_iff]

theorem open_eq_some_iff {evp : Evp} {nonce : Buffer UInt8} {data tag r : List UInt8} :
    ctx.open evp nonce data tag = some r ↔ ∃ bits key, ctx.cipher = some bits ∧
      ctx.key = some key ∧
      evp.aesGcmOpen bits key (nonce.slice 0 ctx.ivLen.toNat) data tag = (true, r) := by
  obtain ⟨_ | bits, ivLen, _ | key⟩ := ctx
  · simp [EvpCipherCtx.open]
  · simp [EvpCipherCtx.open]
  · simp [EvpCipherCtx.open]
  · simp [EvpCipherCtx.open, Prod.ext_iff]

theorem encrypt_eq_some_iff {evp : Evp} {r : List UInt8 × List UInt8} (hdata : c.data ≠ []) :
    (s.cryptoAesGcmEncrypt evp c).1 = some r ↔ ∃ ctx, (gcmProcess s c).1 = some ctx ∧
      ∃ bits key, ctx.cipher = some bits ∧ ctx.key = some key ∧
        evp.aesGcmSeal bits key (c.nonce.slice 0 ctx.ivLen.toNat) c.data = (true, r) := by
  simp only [← seal_eq_some_iff]
  rw [GcmCache.cryptoAesGcmEncrypt, if_neg hdata]
  exact Option.bind_eq_some_iff

theorem decrypt_eq_some_iff {evp : Evp} {r : List UInt8} (hdata : c.data ≠ []) :
    (s.cryptoAesGcmDecrypt evp c).1 = some r ↔ ∃ ctx, (gcmProcess s c).1 = some ctx ∧
      ∃ bits key, ctx.cipher = some bits ∧ ctx.key = some key ∧
        evp.aesGcmOpen bits key (c.nonce.slice 0 ctx.ivLen.toNat) c.data c.tag = (true, r) := by
  simp only [← open_eq_some_iff]
  rw [GcmCache.cryptoAesGcmDecrypt, if_neg hdata]
  exact Option.bind_eq_some_iff

theorem inUse_eq (hs : s.Consistent) (hdata : c.data ≠ []) (hkept : SizeKept s c)
    (hctx : (gcmProcess s c).1 = some ctx) {bits : AesBits} {key : List UInt8}
    (hcipher : ctx.cipher = some bits) (hkey : ctx.key = some key) :
    bits = c.params.aesBits ∧ key = c.key.val.take c.params.aesBits.keySize ∧
      ctx.ivLen = c.nonceLen := by
  have hfresh := gcmProcess_fresh hs hdata hkept hctx (by rw [hkey]; exact Option.some_ne_none key)
  subst hfresh
  exact ⟨(Option.some.inj hcipher).symm, (Option.some.inj hkey).symm, rfl⟩

/-- **Encrypting.** A call agrees with a fresh context, whatever the cipher is, exactly if it meets
the condition. -/
theorem encryptAgrees_iff (hs : s.Consistent) : (∀ evp, EncryptAgrees evp s c) ↔ SizeKept s c := by
  constructor
  · intro hagrees
    by_contra hnot
    obtain ⟨hdata, ctx, bits, key, hctx, hcipher, hne, hkey⟩ := gcmProcess_stale hnot hs
    have hseal : (sizeTagEvp bits c.tag).aesGcmSeal bits key (c.nonce.slice 0 ctx.ivLen.toNat)
        c.data = (true, Evp.xorStream (fun _ => 0) c.data, c.tag.val) := by
      simp [sizeTagEvp, Evp.ofStream]
    have heq := hagrees _ hdata _
      ((encrypt_eq_some_iff hdata).mpr ⟨ctx, hctx, bits, key, hcipher, hkey, hseal⟩)
    rw [cryptoAesGcmEncrypt, if_neg (mt List.length_eq_zero_iff.mp hdata)] at heq
    have htag := congrArg (fun r => r.2.2) heq
    simp only [sizeTagEvp, Evp.ofStream] at htag
    rw [if_neg hne.symm] at htag
    exact otherTag_ne _ htag
  · intro hkept evp hdata r h
    rw [cryptoAesGcmEncrypt, if_neg (mt List.length_eq_zero_iff.mp hdata)]
    obtain ⟨ctx, hctx, bits, key, hcipher, hkey, heq⟩ := (encrypt_eq_some_iff hdata).mp h
    obtain ⟨rfl, rfl, hlen⟩ := inUse_eq hs hdata hkept hctx hcipher hkey
    rwa [hlen] at heq

theorem decryptAgrees_iff (hs : s.Consistent) : (∀ evp, DecryptAgrees evp s c) ↔ SizeKept s c := by
  constructor
  · intro hagrees
    by_contra hnot
    obtain ⟨hdata, ctx, bits, key, hctx, hcipher, hne, hkey⟩ := gcmProcess_stale hnot hs
    have hopen : (sizeTagEvp bits c.tag).aesGcmOpen bits key (c.nonce.slice 0 ctx.ivLen.toNat)
        c.data c.tag = (true, Evp.xorStream (fun _ => 0) c.data) := by
      simp [sizeTagEvp, Evp.ofStream]
    have heq := hagrees _ hdata _
      ((decrypt_eq_some_iff hdata).mpr ⟨ctx, hctx, bits, key, hcipher, hkey, hopen⟩)
    rw [cryptoAesGcmDecrypt, if_neg (mt List.length_eq_zero_iff.mp hdata)] at heq
    have htag := congrArg Prod.fst heq
    simp only [sizeTagEvp, Evp.ofStream, decide_eq_true_eq] at htag
    rw [if_neg hne.symm] at htag
    exact otherTag_ne _ htag.symm
  · intro hkept evp hdata r h
    rw [cryptoAesGcmDecrypt, if_neg (mt List.length_eq_zero_iff.mp hdata)]
    obtain ⟨ctx, hctx, bits, key, hcipher, hkey, heq⟩ := (decrypt_eq_some_iff hdata).mp h
    obtain ⟨rfl, rfl, hlen⟩ := inUse_eq hs hdata hkept hctx hcipher hkey
    rwa [hlen] at heq

/-! ## Histories -/

/-- The cache after a call of `crypto_aes_gcm_encrypt`. -/
def encryptStep (evp : Evp) (s : GcmCache) (c : GcmCall) : Option GcmCache :=
  some (s.cryptoAesGcmEncrypt evp c).2

def decryptStep (evp : Evp) (s : GcmCache) (c : GcmCall) : Option GcmCache :=
  some (s.cryptoAesGcmDecrypt evp c).2

theorem encryptStep_eq (evp : Evp) : encryptStep evp = gcmStep := by
  funext s c
  unfold encryptStep gcmStep GcmCache.cryptoAesGcmEncrypt
  split_ifs <;> rfl

theorem decryptStep_eq (evp : Evp) : decryptStep evp = gcmStep := by
  funext s c
  unfold decryptStep gcmStep GcmCache.cryptoAesGcmDecrypt
  split_ifs <;> rfl

theorem gcmStep_consistent {s s' : GcmCache} {c : GcmCall} (hs : s.Consistent)
    (h : gcmStep s c = some s') : s'.Consistent := by
  obtain rfl := Option.some.inj h
  split_ifs
  · exact hs
  · exact (gcmProcess_spec hs).1

/-- **The key cache.** In a history of calls every one agrees with a fresh context, whatever the
cipher is, exactly if the AES size is kept wherever key and nonce length are. -/
theorem gcmCache_agrees_iff (calls : List GcmCall) :
    ((∀ evp, Runs.StepsMeet (encryptStep evp) (EncryptAgrees evp) .start calls) ↔
        Runs.StepsMeet gcmStep SizeKept .start calls) ∧
      ((∀ evp, Runs.StepsMeet (decryptStep evp) (DecryptAgrees evp) .start calls) ↔
        Runs.StepsMeet gcmStep SizeKept .start calls) := by
  simp only [encryptStep_eq, decryptStep_eq]
  rw [← Runs.stepsMeet_forall, ← Runs.stepsMeet_forall]
  have hstep := fun s c s' (hs : GcmCache.Consistent s) => @gcmStep_consistent s s' c hs
  exact ⟨Runs.stepsMeet_congr hstep (fun s c hs => encryptAgrees_iff hs) GcmCache.consistent_start,
    Runs.stepsMeet_congr hstep (fun s c hs => decryptAgrees_iff hs) GcmCache.consistent_start⟩

end

/-! ## A key under two AES sizes -/

/-- A call for one byte, in which no OpenSSL call fails. -/
def sampleGcmCall (bits : AesBits) : GcmCall where
  params := { sampleParams .gcm with aesBits := bits }
  key := Key.zero
  nonce _ := 0
  nonceLen := 12
  data := [0]
  tag := ⟨List.replicate 16 0, length_zeroTag⟩
  env := ⟨true, .ok, .ok, .ok, .ok, .ok⟩

/-- The zero key for AES-256 and then for AES-128: the second call finds its 16 bytes cached, and the
byte is sealed with AES-256. -/
theorem not_encryptAgrees_otherSize :
    ¬ Runs.StepsMeet (encryptStep (sizeTagEvp .aes256 ⟨List.replicate 16 0, rfl⟩))
      (EncryptAgrees (sizeTagEvp .aes256 ⟨List.replicate 16 0, rfl⟩)) .start
      [sampleGcmCall .aes256, sampleGcmCall .aes128] := by
  rintro ⟨-, hrest⟩
  have hagrees := (hrest _ rfl).1 (List.cons_ne_nil _ _) _ rfl
  have htag := congrArg (fun r => r.2.2) hagrees
  exact absurd htag (by decide)

end NetEncryptor

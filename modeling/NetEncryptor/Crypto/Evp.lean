import Mathlib.Data.List.Basic

/-!
# The AES calls of OpenSSL

`Evp` is the interface the program uses of libcrypto: in-place AES-CTR, and AES-GCM sealing and
opening with a detached 16-byte tag.  Each call says whether every `EVP_*` function in it returned
`1`, and what the data buffer holds afterwards; a failed opening may have overwritten it.  The
lengths are part of the interface.  What a correct AES promises besides is `Evp.Lawful`; an ideal
AEAD also opens nothing but what it has sealed (`Evp.Ideal`).

`Evp.ofStream` is a model of the interface: both modes are a key stream xored to the data, and
the tag is a function of the ciphertext.
-/

namespace NetEncryptor

/-- `g_aes_bits`, which is only read through `g_aes_bits == 256`. -/
inductive AesBits
  | aes128
  | aes256
  deriving DecidableEq, Repr

/-- `get_key_size`. -/
def AesBits.keySize : AesBits → ℕ
  | aes128 => 16
  | aes256 => 32

/-- `AES128_GCM_TAG_SIZE`. -/
def gcmTagSize : ℕ := 16

structure Evp where
  /-- Key, IV and data. -/
  aesCtr : AesBits → List UInt8 → List UInt8 → List UInt8 → Bool × List UInt8
  /-- Key, nonce and data; the data afterwards and the tag. -/
  aesGcmSeal : AesBits → List UInt8 → List UInt8 → List UInt8 → Bool × List UInt8 × List UInt8
  /-- Key, nonce, data and tag. -/
  aesGcmOpen : AesBits → List UInt8 → List UInt8 → List UInt8 → List UInt8 → Bool × List UInt8
  /-- What a tag buffer on the stack holds before it is written. -/
  staleTag : List UInt8
  length_aesCtr : ∀ bits key iv data, (aesCtr bits key iv data).2.length = data.length
  length_aesGcmSeal : ∀ bits key nonce data,
    (aesGcmSeal bits key nonce data).2.1.length = data.length
  length_aesGcmTag : ∀ bits key nonce data, (aesGcmSeal bits key nonce data).2.2.length = gcmTagSize
  length_aesGcmOpen : ∀ bits key nonce data tag,
    (aesGcmOpen bits key nonce data tag).2.length = data.length
  length_staleTag : staleTag.length = gcmTagSize

namespace Evp

/-- CTR is its own inverse under one key and IV, and opening undoes sealing. -/
structure Lawful (evp : Evp) : Prop where
  ctr_ctr : ∀ bits key iv data, (evp.aesCtr bits key iv data).1 = true →
    evp.aesCtr bits key iv (evp.aesCtr bits key iv data).2 = (true, data)
  open_seal : ∀ bits key nonce data, (evp.aesGcmSeal bits key nonce data).1 = true →
    evp.aesGcmOpen bits key nonce (evp.aesGcmSeal bits key nonce data).2.1
      (evp.aesGcmSeal bits key nonce data).2.2 = (true, data)

/-- What the tag check accepts has been sealed under the same key and nonce. -/
def Ideal (evp : Evp) : Prop :=
  ∀ bits key nonce data tag, (evp.aesGcmOpen bits key nonce data tag).1 = true →
    ∃ plain, evp.aesGcmSeal bits key nonce plain = (true, data, tag)

/-! ## Stream ciphers -/

/-- Xor a key stream to the data. -/
def xorStream (stream : ℕ → UInt8) (data : List UInt8) : List UInt8 :=
  data.mapIdx fun i x => x ^^^ stream i

@[simp] theorem length_xorStream (stream : ℕ → UInt8) (data : List UInt8) :
    (xorStream stream data).length = data.length := List.length_mapIdx

theorem xorStream_xorStream (stream : ℕ → UInt8) (data : List UInt8) :
    xorStream stream (xorStream stream data) = data := by
  unfold xorStream
  refine List.ext_getElem (by simp) fun i _ _ => ?_
  rw [List.getElem_mapIdx, List.getElem_mapIdx, UInt8.xor_assoc, UInt8.xor_self, UInt8.xor_zero]

/-- The interface over the key streams of the two modes and the tag of a ciphertext. -/
def ofStream (ctr gcm : AesBits → List UInt8 → List UInt8 → ℕ → UInt8)
    (tag : AesBits → List UInt8 → List UInt8 → List UInt8 → { l : List UInt8 // l.length = 16 }) :
    Evp where
  aesCtr bits key iv data := (true, xorStream (ctr bits key iv) data)
  aesGcmSeal bits key nonce data :=
    let sealed := xorStream (gcm bits key nonce) data
    (true, sealed, (tag bits key nonce sealed).val)
  aesGcmOpen bits key nonce data t :=
    (t = (tag bits key nonce data).val, xorStream (gcm bits key nonce) data)
  staleTag := List.replicate 16 0
  length_aesCtr _ _ _ _ := length_xorStream _ _
  length_aesGcmSeal _ _ _ _ := length_xorStream _ _
  length_aesGcmTag _ _ _ _ := (tag _ _ _ _).property
  length_aesGcmOpen _ _ _ _ _ := length_xorStream _ _
  length_staleTag := rfl

theorem lawful_ofStream (ctr gcm : AesBits → List UInt8 → List UInt8 → ℕ → UInt8)
    (tag : AesBits → List UInt8 → List UInt8 → List UInt8 → { l : List UInt8 // l.length = 16 }) :
    (ofStream ctr gcm tag).Lawful where
  ctr_ctr _ _ _ _ _ := Prod.ext rfl (xorStream_xorStream _ _)
  open_seal _ _ _ _ _ := Prod.ext (decide_eq_true rfl) (xorStream_xorStream _ _)

theorem ideal_ofStream (ctr gcm : AesBits → List UInt8 → List UInt8 → ℕ → UInt8)
    (tag : AesBits → List UInt8 → List UInt8 → List UInt8 → { l : List UInt8 // l.length = 16 }) :
    (ofStream ctr gcm tag).Ideal := by
  intro bits key nonce data t h
  have ht : t = (tag bits key nonce data).val := of_decide_eq_true h
  refine ⟨xorStream (gcm bits key nonce) data, ?_⟩
  unfold ofStream
  simp only [xorStream_xorStream, ht]

end Evp

end NetEncryptor

import NetEncryptor.Base.Buffer
import NetEncryptor.Base.OnesComplement

/-!
# Network words in a byte buffer

`be16` reads a 16-bit word in network order and `put16` stores one.  `onesWord` is the word a
one's complement sum sees at an offset: the last byte of an odd range counts as its high half.
`internetSum` is the unfolded sum of a range of bytes, and `internetSum_put16_zero` says how it
changes when one word of the range is replaced.
-/

namespace Buffer

open OnesComplement

def shift {α : Type*} (b : Buffer α) (off : ℕ) : Buffer α := fun i => b (off + i)

@[simp] theorem shift_apply {α : Type*} (b : Buffer α) (off i : ℕ) : b.shift off i = b (off + i) :=
  rfl

theorem shift_shift {α : Type*} (b : Buffer α) (m n : ℕ) :
    (b.shift m).shift n = b.shift (m + n) := by
  funext i
  rw [shift_apply, shift_apply, shift_apply, Nat.add_assoc]

theorem copy_shift {α : Type*} (dst src : Buffer α) (d off s n : ℕ) :
    dst.copy d (src.shift off) s n = dst.copy d src (off + s) n := by
  funext j
  unfold copy
  rw [shift_apply, Nat.add_assoc]

/-- `((uint16_t)b[i] << 8) | b[i + 1]`. -/
def be16 (b : Buffer UInt8) (i : ℕ) : ℕ := 256 * (b i).toNat + (b (i + 1)).toNat

/-- Store the low 16 bits of `v`, high byte first. -/
def put16 (b : Buffer UInt8) (i v : ℕ) : Buffer UInt8 :=
  (b.set i (UInt8.ofNat (v / 256))).set (i + 1) (UInt8.ofNat v)

theorem be16_lt (b : Buffer UInt8) (i : ℕ) : b.be16 i < 65536 := by
  have := (b i).toNat_lt
  have := (b (i + 1)).toNat_lt
  unfold be16
  omega

theorem be16_congr {b c : Buffer UInt8} {i : ℕ} (h : b i = c i) (h' : b (i + 1) = c (i + 1)) :
    b.be16 i = c.be16 i := by
  unfold be16; rw [h, h']

/-- Two buffers that differ in one word only do not both show their own word anywhere else. -/
theorem eq_of_be16_eq {b c : Buffer UInt8} {m i o : ℕ} (hi : m ≤ i) (ho : m ≤ o)
    (hsame : ∀ j ≥ m, j ≠ i → j ≠ i + 1 → b j = c j) (hne : b.be16 i ≠ c.be16 i)
    (hb : b.be16 o = b.be16 i) (hc : c.be16 o = c.be16 i) : o = i := by
  have hbyte := fun (d : Buffer UInt8) (j : ℕ) => (d j).toNat_lt
  unfold be16 at hne hb hc
  by_contra hoi
  rcases Nat.lt_trichotomy (o + 1) i with hlt | heq | hgt
  · have h₀ := hsame o ho hoi (by omega)
    have h₁ := hsame (o + 1) (by omega) (by omega) (by omega)
    rw [h₀, h₁] at hb
    omega
  · -- the word's low byte is its high byte, which is the byte before it
    subst heq
    have h₀ := hsame o ho hoi (by omega)
    rw [h₀] at hb
    have hb₁ := hbyte b (o + 1)
    have hc₁ := hbyte c (o + 1)
    have hb₂ := hbyte b (o + 1 + 1)
    have hc₂ := hbyte c (o + 1 + 1)
    have hbo : (b (o + 1)).toNat = (c o).toNat := by omega
    have hco : (c (o + 1)).toNat = (c o).toNat := by omega
    omega
  · by_cases hoi₁ : o = i + 1
    · -- its bytes are both the byte behind it
      subst hoi₁
      have h₂ := hsame (i + 1 + 1) (by omega) (by omega) (by omega)
      rw [h₂] at hb
      have hb₁ := hbyte b (i + 1)
      have hc₁ := hbyte c (i + 1)
      have hc₂ := hbyte c (i + 1 + 1)
      omega
    · have h₀ := hsame o ho hoi hoi₁
      have h₁ := hsame (o + 1) (by omega) (by omega) (by omega)
      rw [h₀, h₁] at hb
      omega

theorem put16_of_ne {b : Buffer UInt8} {i v j : ℕ} (h : j ≠ i) (h' : j ≠ i + 1) :
    b.put16 i v j = b j := by
  unfold put16; rw [set_of_ne h', set_of_ne h]

theorem put16_fst (b : Buffer UInt8) (i v : ℕ) : b.put16 i v i = UInt8.ofNat (v / 256) := by
  unfold put16; rw [set_of_ne (by omega), set_self]

theorem put16_snd (b : Buffer UInt8) (i v : ℕ) : b.put16 i v (i + 1) = UInt8.ofNat v :=
  set_self _ _ _

theorem put16_congr {b c : Buffer UInt8} {i v j : ℕ} (h : j ≠ i → j ≠ i + 1 → b j = c j) :
    b.put16 i v j = c.put16 i v j := by
  by_cases h₀ : j = i
  · rw [h₀, put16_fst, put16_fst]
  by_cases h₁ : j = i + 1
  · rw [h₁, put16_snd, put16_snd]
  rw [put16_of_ne h₀ h₁, put16_of_ne h₀ h₁]
  exact h h₀ h₁

@[simp] theorem be16_put16 (b : Buffer UInt8) (i v : ℕ) : (b.put16 i v).be16 i = v % 65536 := by
  unfold be16
  rw [put16_fst, put16_snd, UInt8.toNat_ofNat', UInt8.toNat_ofNat']
  omega

theorem put16_put16 (b : Buffer UInt8) (i v w : ℕ) : (b.put16 i v).put16 i w = b.put16 i w := by
  funext j
  by_cases h : j = i
  · subst h; rw [put16_fst, put16_fst]
  by_cases h' : j = i + 1
  · subst h'; rw [put16_snd, put16_snd]
  rw [put16_of_ne h h', put16_of_ne h h', put16_of_ne h h']

theorem shift_put16 (b : Buffer UInt8) (off i v : ℕ) :
    (b.put16 (off + i) v).shift off = (b.shift off).put16 i v := by
  funext j
  rw [shift_apply]
  by_cases h : j = i
  · subst h; rw [put16_fst, put16_fst]
  by_cases h' : j = i + 1
  · subst h'; exact (put16_snd b (off + i) v).trans (put16_snd _ i v).symm
  rw [put16_of_ne (by omega) (by omega), put16_of_ne h h', shift_apply]

theorem be16_put16_of_ne {b : Buffer UInt8} {i v j : ℕ} (h : j ≠ i) (h₁ : j + 1 ≠ i)
    (h₂ : j ≠ i + 1) : (b.put16 i v).be16 j = b.be16 j :=
  be16_congr (put16_of_ne h h₂) (put16_of_ne h₁ (by omega))

theorem be16_eq_iff {b c : Buffer UInt8} {i j : ℕ} :
    b.be16 i = c.be16 j ↔ b i = c j ∧ b (i + 1) = c (j + 1) := by
  have := (b (i + 1)).toNat_lt
  have := (c (j + 1)).toNat_lt
  unfold be16
  rw [← UInt8.toNat_inj, ← UInt8.toNat_inj]
  omega

/-! ## Internet checksums -/

/-- The word at offset `i` of a range of `len` bytes, padded with a zero byte. -/
def onesWord (b : Buffer UInt8) (len i : ℕ) : ℕ :=
  256 * (b i).toNat + if i + 1 < len then (b (i + 1)).toNat else 0

/-- The sum of the words of the first `len` bytes, carries not yet folded. -/
def internetSum (b : Buffer UInt8) (len : ℕ) : ℕ := sumWords (b.onesWord len) len

theorem onesWord_le (b : Buffer UInt8) (len i : ℕ) : b.onesWord len i ≤ 65535 := by
  have := (b i).toNat_lt
  have := (b (i + 1)).toNat_lt
  unfold onesWord
  split_ifs <;> omega

theorem onesWord_eq_be16 {b : Buffer UInt8} {len i : ℕ} (h : i + 1 < len) :
    b.onesWord len i = b.be16 i := by
  unfold onesWord be16; rw [if_pos h]

theorem internetSum_le (b : Buffer UInt8) (len : ℕ) :
    b.internetSum len ≤ 65535 * ((len + 1) / 2) := sumWords_le (b.onesWord_le len)

theorem be16_le_internetSum {b : Buffer UInt8} {len k : ℕ} (h : 2 * k + 1 < len) :
    b.be16 (2 * k) ≤ b.internetSum len := by
  rw [← onesWord_eq_be16 h]
  exact le_sumWords (by omega)

theorem internetSum_congr {b c : Buffer UInt8} {len : ℕ} (h : ∀ i < len, b i = c i) :
    b.internetSum len = c.internetSum len := by
  refine sumWords_congr fun k hk => ?_
  unfold onesWord
  rw [h _ hk]
  split_ifs with h'
  · rw [h _ h']
  · rfl

/-- **Replacing a word.** A range with its word at the even offset `2 * k` set to zero has a sum
smaller by that word. -/
theorem internetSum_put16_zero {b : Buffer UInt8} {len k : ℕ} (hk : 2 * k + 1 < len) :
    (b.put16 (2 * k) 0).internetSum len + b.be16 (2 * k) = b.internetSum len := by
  have h : ∀ j, j ≠ k → b.onesWord len (2 * j) = (b.put16 (2 * k) 0).onesWord len (2 * j) := by
    intro j hj
    unfold onesWord
    rw [put16_of_ne (by omega) (by omega), put16_of_ne (by omega) (by omega)]
  have := sumWords_update (show 2 * k < len by omega) h
  rw [onesWord_eq_be16 hk, onesWord_eq_be16 hk, be16_put16] at this
  unfold internetSum
  omega

end Buffer

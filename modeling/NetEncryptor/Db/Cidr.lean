import NetEncryptor.Base.CStrings
import NetEncryptor.Core.Flow
import NetEncryptor.Db.Load

/-!
# The addresses of a policy row

`src_ip` and `dst_ip` come from the database as one text, their items joined by commas.  A text that
cannot be split, or has too many items, counts as `ANY`; so does an item that cannot be parsed.  A
list that is inverted gets a `!` before each of its items.
-/

namespace NetEncryptor

open CStrings

/-! ## Parsing -/

def ipv4PrefixToMaskBe (prefixLen : ℤ) : UInt32 :=
  if prefixLen ≤ 0 then 0
  else if 32 ≤ prefixLen then htonl 0xffffffff
  else htonl (0xffffffff * 2 ^ (32 - prefixLen).toNat % 2 ^ 32)

def ipv4MaskBeIsContiguous (maskBe : UInt32) : Bool :=
  let m := UInt32.ofNat (ntohl maskBe)
  m == 0 || (~~~m &&& (~~~m + 1)) == 0

def sAddr (a b c d : ℕ) : UInt32 := UInt32.ofNat (a + 2 ^ 8 * b + 2 ^ 16 * c + 2 ^ 24 * d)

/-- `none` stands for `-1`. -/
def parseIpv4NetmaskBe (s : Str) : Option UInt32 :=
  match inetPton s with
  | none => none
  | some (a, b, c, d) =>
    if ipv4MaskBeIsContiguous (sAddr a b c d) then some (sAddr a b c d) else none

/-- `*netmask` for what stands behind the slash; `none` stands for `-1`. -/
def parseSuffix (suffix : Str) : Option UInt32 :=
  if suffix = [] then none
  else if '.' ∈ suffix then parseIpv4NetmaskBe suffix
  else
    let plen := strtol suffix
    if plen.2 ≠ [] ∨ plen.1 < 0 ∨ 32 < plen.1 then none else some (ipv4PrefixToMaskBe plen.1)

/-- `*netmask` and `*network` of `parse_ip_cidr`; `none` stands for `-1`. -/
def parseIpCidr (str : Str) : Option (UInt32 × UInt32) :=
  let buf := str.take 127
  match inetPton (skipBlanks (buf.takeWhile (· ≠ '/'))) with
  | none => none
  | some (a, b, c, d) =>
    let netmask :=
      match buf.dropWhile (· ≠ '/') with
      | [] => some (ipv4PrefixToMaskBe 32)
      | _ :: suffix => parseSuffix (skipBlanks suffix)
    netmask.map fun mask => (mask, sAddr a b c d &&& mask)

def strIsAny (v : Str) : Bool :=
  let v := skipBlanks v
  v == [] || v.map Char.toLower == ['a', 'n', 'y'] || v == ['*']

/-- `none` stands for `-1`. -/
def parseCidrAnyOrNegated (v : Str) : Option CidrItem :=
  if strIsAny v then some ⟨true, false, 0, 0⟩
  else
    match skipBlanks v with
    | '!' :: rest => (parseIpCidr (skipBlanks rest)).map fun r => ⟨false, true, r.2, r.1⟩
    | v => (parseIpCidr v).map fun r => ⟨false, false, r.2, r.1⟩

/-- The text in a buffer of 98 bytes. -/
def neCidrBufWithInvert (tok : Str) (invertDb : Bool) : Str :=
  if invertDb = true ∧ tok.head? ≠ some '!' then '!' :: tok.take 96 else tok.take 97

/-- An item with the inversion of its list. -/
def readCidr (invertDb : Bool) (tok : Str) : CidrItem :=
  (parseCidrAnyOrNegated (neCidrBufWithInvert tok invertDb)).getD ⟨true, false, 0, 0⟩

/-! ## Lists -/

def maxCidrListItems : ℕ := 32

def maxCidrItemLen : ℕ := 96

/-- The loop over the tokens, `count` of which have been stored. -/
def splitCidrTokens (maxOut : ℕ) : ℕ → List Str → Option (List Str)
  | _, [] => some []
  | count, tok :: toks =>
    if maxOut ≤ count then none
    else
      let tok := trimBlanks tok
      if tok = [] then none
      else (splitCidrTokens maxOut (count + 1) toks).map (tok.take (maxCidrItemLen - 1) :: ·)

/-- The items; `none` stands for `-1`. -/
def splitCidrList (input : Str) (maxOut : ℕ) : Option (List Str) :=
  let buf := trimBlanks (input.take 1023)
  if buf = [] then none
  else
    match splitCidrTokens maxOut 0 (strtok ',' buf) with
    | none => none
    | some items => if items = [] then none else some items

def neFillStrList (text : Str) (pqNull : Bool) (maxOut : ℕ) : List Str :=
  if pqNull = true ∨ text = [] then [['A', 'N', 'Y']]
  else (splitCidrList text maxOut).getD [['A', 'N', 'Y']]

/-- The items of an address column with its inversion flag. -/
def readCidrs (text : Str) (pqNull invertDb : Bool) : List CidrItem :=
  (neFillStrList text pqNull maxCidrListItems).map (readCidr invertDb)

/-! ## Well-formed CIDRs -/

structure Cidr where
  a : UInt8
  b : UInt8
  c : UInt8
  d : UInt8
  prefixLen : Fin 33
  deriving DecidableEq

namespace Cidr

/-- The notation `a.b.c.d/n`. -/
def text (cidr : Cidr) : Str :=
  dotted cidr.a.toNat cidr.b.toNat cidr.c.toNat cidr.d.toNat ++ '/' :: decimal cidr.prefixLen

def addr (cidr : Cidr) : UInt32 := sAddr cidr.a.toNat cidr.b.toNat cidr.c.toNat cidr.d.toNat

def Contains (cidr : Cidr) (ip : UInt32) : Prop :=
  ntohl ip / 2 ^ (32 - cidr.prefixLen.val) = ntohl cidr.addr / 2 ^ (32 - cidr.prefixLen.val)

instance (cidr : Cidr) (ip : UInt32) : Decidable (cidr.Contains ip) :=
  inferInstanceAs (Decidable (_ = _))

end Cidr

/-! ## Masks -/

theorem two_pow_mul_add_and {i a b a' b' : ℕ} (hb : b < 2 ^ i) (hb' : b' < 2 ^ i) :
    (2 ^ i * a + b) &&& (2 ^ i * a' + b') = 2 ^ i * (a &&& a') + (b &&& b') := by
  apply Nat.eq_of_testBit_eq
  intro j
  rw [Nat.testBit_and, Nat.testBit_two_pow_mul_add _ hb, Nat.testBit_two_pow_mul_add _ hb',
    Nat.testBit_two_pow_mul_add _ (Nat.and_lt_two_pow _ hb')]
  split_ifs
  · rw [Nat.testBit_and]
  · rw [Nat.testBit_and]

theorem ntohl_and (x y : UInt32) : ntohl (x &&& y) = ntohl x &&& ntohl y := by
  have hmod : ∀ n : ℕ, n % 256 < 2 ^ 8 := fun n => Nat.mod_lt _ (by decide)
  have hdiv : ∀ z : UInt32, z.toNat / 256 / 256 / 256 < 2 ^ 8 := fun z => by
    have := z.toNat_lt
    omega
  have hsplit : ∀ z : UInt32, ntohl z = 2 ^ 24 * (z.toNat % 256) + (2 ^ 16 * (z.toNat / 256 % 256) +
      (2 ^ 8 * (z.toNat / 256 / 256 % 256) + z.toNat / 256 / 256 / 256)) := fun z => by
    simp only [ntohl]
    omega
  have h₂ : ∀ z : UInt32, 2 ^ 8 * (z.toNat / 256 / 256 % 256) + z.toNat / 256 / 256 / 256 < 2 ^ 16 :=
    fun z => by
      have := hmod (z.toNat / 256 / 256)
      have := hdiv z
      omega
  have h₃ : ∀ z : UInt32, 2 ^ 16 * (z.toNat / 256 % 256) +
      (2 ^ 8 * (z.toNat / 256 / 256 % 256) + z.toNat / 256 / 256 / 256) < 2 ^ 24 := fun z => by
    have := hmod (z.toNat / 256)
    have := h₂ z
    omega
  have hand_mod : ∀ m n : ℕ, (m &&& n) % 256 = m % 256 &&& n % 256 := fun m n =>
    show (m &&& n) % 2 ^ 8 = m % 2 ^ 8 &&& n % 2 ^ 8 from Nat.and_mod_two_pow
  have hand_div : ∀ m n : ℕ, (m &&& n) / 256 = m / 256 &&& n / 256 := fun m n =>
    show (m &&& n) / 2 ^ 8 = m / 2 ^ 8 &&& n / 2 ^ 8 from Nat.and_div_two_pow
  rw [hsplit x, hsplit y, two_pow_mul_add_and (h₃ x) (h₃ y), two_pow_mul_add_and (h₂ x) (h₂ y),
    two_pow_mul_add_and (hdiv x) (hdiv y), hsplit (x &&& y), UInt32.toNat_and]
  simp only [hand_mod, hand_div]

theorem ntohl_prefixToMask : ∀ n : Fin 33,
    ntohl (ipv4PrefixToMaskBe n.val) = 2 ^ (32 - n.val) * (2 ^ n.val - 1) := by
  decide +kernel

/-- **Masking** with the mask of a prefix leaves the prefix. -/
theorem and_prefixMask_iff (n : Fin 33) (x y : UInt32) :
    x &&& ipv4PrefixToMaskBe n.val = y &&& ipv4PrefixToMaskBe n.val ↔
      ntohl x / 2 ^ (32 - n.val) = ntohl y / 2 ^ (32 - n.val) := by
  have hmask : ∀ z : UInt32, ntohl (z &&& ipv4PrefixToMaskBe n.val) =
      2 ^ (32 - n.val) * (ntohl z / 2 ^ (32 - n.val)) := fun z => by
    have hpos : 0 < 2 ^ (32 - n.val) := Nat.two_pow_pos _
    have hlt : ntohl z / 2 ^ (32 - n.val) < 2 ^ n.val := by
      rw [Nat.div_lt_iff_lt_mul hpos, ← Nat.pow_add]
      have hn : n.val + (32 - n.val) = 32 := by omega
      rw [hn]
      exact ntohl_lt z
    calc ntohl (z &&& ipv4PrefixToMaskBe n.val)
        = ntohl z &&& 2 ^ (32 - n.val) * (2 ^ n.val - 1) := by rw [ntohl_and, ntohl_prefixToMask]
      _ = (2 ^ (32 - n.val) * (ntohl z / 2 ^ (32 - n.val)) + ntohl z % 2 ^ (32 - n.val)) &&&
            (2 ^ (32 - n.val) * (2 ^ n.val - 1) + 0) := by rw [Nat.div_add_mod, Nat.add_zero]
      _ = 2 ^ (32 - n.val) * (ntohl z / 2 ^ (32 - n.val)) := by
        rw [two_pow_mul_add_and (Nat.mod_lt _ hpos) hpos, Nat.and_two_pow_sub_one_eq_mod,
          Nat.mod_eq_of_lt hlt, Nat.and_zero, Nat.add_zero]
  constructor
  · intro h
    have := congrArg ntohl h
    rw [hmask, hmask] at this
    exact Nat.eq_of_mul_eq_mul_left (Nat.two_pow_pos _) this
  · intro h
    apply ntohl_injective
    rw [hmask, hmask, h]

/-! ## Reading a well-formed CIDR -/

namespace Cidr

variable (cidr : Cidr)

theorem text_chars : (∀ x ∈ cidr.text, isDigit x = true ∨ x = '.' ∨ x = '/') ∧
    cidr.text.length < 20 := by
  obtain ⟨hchars, hlen, -⟩ :=
    dotted_chars cidr.a.toNat_lt cidr.b.toNat_lt cidr.c.toNat_lt cidr.d.toNat_lt
  have hprefix : cidr.prefixLen.val < 256 := by omega
  obtain ⟨-, hdigits, -, hlen'⟩ := decimal_octet _ hprefix
  rw [List.all_eq_true] at hdigits
  refine ⟨fun x hx => ?_, ?_⟩
  · rcases List.mem_append.mp hx with hx | hx
    · rcases hchars x hx with h | h
      · exact .inl h
      · exact .inr (.inl h)
    · rcases List.mem_cons.mp hx with h | h
      · exact .inr (.inr h)
      · exact .inl (hdigits x h)
  · rw [text, List.length_append, List.length_cons]
    omega

theorem slash_mem_text : '/' ∈ cidr.text := by simp [text]

theorem text_ne_nil : cidr.text ≠ [] := List.ne_nil_of_mem cidr.slash_mem_text

theorem not_mem_text {x : Char} (hx : isDigit x = false ∧ x ≠ '.' ∧ x ≠ '/') : x ∉ cidr.text := by
  intro hmem
  rcases cidr.text_chars.1 x hmem with h | h | h
  · rw [hx.1] at h
    cases h
  · exact hx.2.1 h
  · exact hx.2.2 h

theorem noBlank_text : NoBlank cidr.text := by
  intro x hx
  unfold isBlank
  rw [Bool.or_eq_false_iff, beq_eq_false_iff_ne, beq_eq_false_iff_ne]
  refine ⟨?_, ?_⟩
  · rintro rfl
    exact cidr.not_mem_text (by decide) hx
  · rintro rfl
    exact cidr.not_mem_text (by decide) hx

def mask : UInt32 := ipv4PrefixToMaskBe cidr.prefixLen.val

theorem parseSuffix_prefixLen : parseSuffix (decimal cidr.prefixLen) = some cidr.mask := by
  have hprefix : cidr.prefixLen.val < 256 := by omega
  obtain ⟨-, hdigits, hne, -⟩ := decimal_octet _ hprefix
  have hdot : '.' ∉ decimal cidr.prefixLen := not_mem_of_isDigit hdigits rfl
  have hle := cidr.prefixLen.isLt
  have hbounds : ¬ (([] : Str) ≠ [] ∨ (cidr.prefixLen.val : ℤ) < 0 ∨
      32 < (cidr.prefixLen.val : ℤ)) := by
    rintro (h | h | h)
    · exact h rfl
    · omega
    · omega
  unfold parseSuffix
  rw [if_neg hne, if_neg hdot, strtol_decimal _ hprefix]
  exact if_neg hbounds

/-- **Parsing** gives the mask and the network. -/
theorem parseIpCidr_text : parseIpCidr cidr.text = some (cidr.mask, cidr.addr &&& cidr.mask) := by
  obtain ⟨hchars, -, -⟩ :=
    dotted_chars cidr.a.toNat_lt cidr.b.toNat_lt cidr.c.toNat_lt cidr.d.toNat_lt
  have hslash : ∀ x ∈ dotted cidr.a.toNat cidr.b.toNat cidr.c.toNat cidr.d.toNat,
      decide (x ≠ '/') = true := fun x hx => by
    rw [decide_eq_true_eq]
    rintro rfl
    rcases hchars _ hx with h | h
    · cases h
    · cases h
  have hblank : NoBlank (dotted cidr.a.toNat cidr.b.toNat cidr.c.toNat cidr.d.toNat) := fun x hx =>
    cidr.noBlank_text x (List.mem_append_left _ hx)
  have hblank' : NoBlank (decimal cidr.prefixLen) := fun x hx =>
    cidr.noBlank_text x (List.mem_append_right _ (List.mem_cons_of_mem _ hx))
  have hlen := cidr.text_chars.2
  unfold parseIpCidr
  rw [List.take_of_length_le (by omega)]
  simp only [text]
  rw [List.takeWhile_append_of_pos hslash, List.dropWhile_append_of_pos hslash,
    List.takeWhile_cons_of_neg (by simp), List.dropWhile_cons_of_neg (by simp), List.append_nil,
    skipBlanks_of_noBlank hblank, inetPton_dotted cidr.a.toNat_lt cidr.b.toNat_lt cidr.c.toNat_lt
      cidr.d.toNat_lt]
  simp only [skipBlanks_of_noBlank hblank', parseSuffix_prefixLen]
  rfl

theorem strIsAny_of_slash {v : Str} (h : '/' ∈ skipBlanks v) : strIsAny v = false := by
  unfold strIsAny
  simp only [Bool.or_eq_false_iff, beq_eq_false_iff_ne]
  refine ⟨⟨List.ne_nil_of_mem h, fun heq => ?_⟩, fun heq => ?_⟩
  · have hlower : Char.toLower '/' ∈ (skipBlanks v).map Char.toLower := List.mem_map_of_mem h
    rw [heq] at hlower
    exact absurd hlower (by decide)
  · rw [heq] at h
    exact absurd h (by decide)

/-- The item that a well-formed CIDR is read as. -/
def item (invert : Bool) : CidrItem := ⟨false, invert, cidr.addr &&& cidr.mask, cidr.mask⟩

theorem neCidrBufWithInvert_text (invert : Bool) :
    neCidrBufWithInvert cidr.text invert = if invert then '!' :: cidr.text else cidr.text := by
  have hlen := cidr.text_chars.2
  have hhead : cidr.text.head? ≠ some '!' := fun h =>
    cidr.not_mem_text (by decide) (List.mem_of_mem_head? h)
  unfold neCidrBufWithInvert
  rw [List.take_of_length_le (by omega), List.take_of_length_le (by omega)]
  cases invert with
  | true => rw [if_pos ⟨rfl, hhead⟩, if_pos rfl]
  | false => rw [if_neg (fun h => by cases h.1), if_neg (by decide)]

/-- **Reading** a CIDR, inverted or not. -/
theorem readCidr_text (invert : Bool) : readCidr invert cidr.text = cidr.item invert := by
  have hblank := skipBlanks_of_noBlank cidr.noBlank_text
  have hslash := cidr.slash_mem_text
  unfold readCidr
  rw [neCidrBufWithInvert_text]
  unfold parseCidrAnyOrNegated
  cases invert with
  | true =>
    have hskip : skipBlanks ('!' :: cidr.text) = '!' :: cidr.text :=
      List.dropWhile_cons_of_neg (by decide)
    simp only [if_true]
    rw [strIsAny_of_slash (by rw [hskip]; exact List.mem_cons_of_mem _ hslash), hskip]
    simp only [Bool.false_eq_true, if_false, hblank, parseIpCidr_text]
    rfl
  | false =>
    simp only [Bool.false_eq_true, if_false]
    rw [strIsAny_of_slash (by rwa [hblank]), hblank]
    simp only [Bool.false_eq_true, if_false]
    split
    · rename_i rest heq
      exact absurd (heq ▸ List.mem_cons_self) (cidr.not_mem_text (by decide))
    · rw [parseIpCidr_text]
      rfl

/-- **The item's test** is whether the address is in the CIDR, or is not. -/
theorem cidrMatch_item (invert : Bool) (ip : UInt32) :
    cidrMatchWithNegate (cidr.item invert).any (cidr.item invert).negate ip (cidr.item invert).net
      (cidr.item invert).mask = true ↔ (cidr.Contains ip ↔ invert = false) := by
  have hcontains : (ip &&& cidr.mask == (cidr.addr &&& cidr.mask) &&& cidr.mask) = true ↔
      cidr.Contains ip := by
    rw [beq_iff_eq, UInt32.and_assoc, UInt32.and_self]
    exact and_prefixMask_iff cidr.prefixLen ip cidr.addr
  unfold cidrMatchWithNegate item
  cases invert with
  | true => simp [← hcontains]
  | false => simp [← hcontains]

end Cidr

end NetEncryptor

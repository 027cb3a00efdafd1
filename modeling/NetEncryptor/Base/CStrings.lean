import Mathlib.Data.List.DropRight
import Mathlib.Tactic.Common

/-!
# Strings of C

A string is the list of its characters, without the terminating zero.  `strtok`, `strtol` and
`inetPton` are those of the C library, as far as they are used on numbers and dotted addresses;
`strtok_joined` and `inetPton_dotted` say that they read what `joined` and `dotted` write.
-/

namespace CStrings

abbrev Str := List Char

/-! ## Blanks -/

def isBlank (c : Char) : Bool := c == ' ' || c == '\t'

def skipBlanks (s : Str) : Str := s.dropWhile isBlank

/-- Without the blanks at both ends. -/
def trimBlanks (s : Str) : Str := (skipBlanks s).rdropWhile isBlank

def NoBlank (s : Str) : Prop := ∀ c ∈ s, isBlank c = false

theorem skipBlanks_of_noBlank {s : Str} (h : NoBlank s) : skipBlanks s = s := by
  cases s with
  | nil => rfl
  | cons c s => exact List.dropWhile_cons_of_neg (by simp [h c List.mem_cons_self])

theorem trimBlanks_of_noBlank {s : Str} (h : NoBlank s) : trimBlanks s = s := by
  rw [trimBlanks, skipBlanks_of_noBlank h, List.rdropWhile_eq_self_iff]
  intro hne
  simp [h _ (List.getLast_mem hne)]

/-! ## Tokens -/

/-- The tokens that the calls of `strtok_r` return: the pieces between separators that are not
empty. -/
def strtok (sep : Char) (s : Str) : List Str := (s.splitOn sep).filter fun tok => !tok.isEmpty

/-- The pieces, with a separator between any two. -/
def joined (sep : Char) (pieces : List Str) : Str := [sep].intercalate pieces

section

variable {sep : Char} {s rest : Str} {pieces : List Str}

theorem joined_cons_cons (t u : Str) (pieces : List Str) :
    joined sep (t :: u :: pieces) = t ++ sep :: joined sep (u :: pieces) := by
  simp [joined, List.intercalate]

theorem joined_singleton (t : Str) : joined sep [t] = t := by simp [joined, List.intercalate]

theorem mem_joined {x : Char} (h : x ∈ joined sep pieces) : x = sep ∨ ∃ t ∈ pieces, x ∈ t := by
  induction pieces with
  | nil => simp [joined] at h
  | cons t pieces ih =>
    cases pieces with
    | nil =>
      rw [joined_singleton] at h
      exact .inr ⟨t, List.mem_cons_self, h⟩
    | cons u pieces =>
      rw [joined_cons_cons, List.mem_append, List.mem_cons] at h
      rcases h with h | h | h
      · exact .inr ⟨t, List.mem_cons_self, h⟩
      · exact .inl h
      · rcases ih h with h | ⟨v, hv, hx⟩
        · exact .inl h
        · exact .inr ⟨v, List.mem_cons_of_mem _ hv, hx⟩

theorem length_joined_le {len : ℕ} (h : ∀ t ∈ pieces, t.length < len) :
    (joined sep pieces).length ≤ pieces.length * len := by
  induction pieces with
  | nil => simp [joined]
  | cons t pieces ih =>
    have ht := h t List.mem_cons_self
    rw [List.length_cons, Nat.succ_mul]
    cases pieces with
    | nil =>
      rw [joined_singleton]
      omega
    | cons u pieces =>
      have := ih fun v hv => h v (List.mem_cons_of_mem _ hv)
      rw [joined_cons_cons, List.length_append, List.length_cons]
      omega

theorem joined_ne_nil (hne : pieces ≠ []) (h : ∀ t ∈ pieces, t ≠ []) : joined sep pieces ≠ [] := by
  cases pieces with
  | nil => exact absurd rfl hne
  | cons t pieces =>
    cases pieces with
    | nil =>
      rw [joined_singleton]
      exact h t List.mem_cons_self
    | cons u pieces => simp [joined_cons_cons]

theorem strtok_append (hne : s ≠ []) (hsep : sep ∉ s) :
    strtok sep (s ++ sep :: rest) = s :: strtok sep rest := by
  unfold strtok
  rw [List.splitOn_append_cons_self_of_not_mem hsep, List.filter_cons_of_pos (by simpa using hne)]

/-- **Splitting** what was joined. -/
theorem strtok_joined (hne : pieces ≠ []) (h : ∀ t ∈ pieces, t ≠ [] ∧ sep ∉ t) :
    strtok sep (joined sep pieces) = pieces := by
  unfold strtok joined
  rw [List.splitOn_intercalate sep (fun t ht => (h t ht).2) hne, List.filter_eq_self]
  intro t ht
  simpa using (h t ht).1

/-- The first pieces are split off even if the rest is cut short. -/
theorem strtok_take_joined {len : ℕ} : ∀ {pieces : List Str} {k room : ℕ},
    (∀ t ∈ pieces, t ≠ [] ∧ sep ∉ t ∧ t.length < len) → k ≤ pieces.length → k * len ≤ room →
      ∃ toks, strtok sep ((joined sep pieces).take room) = pieces.take k ++ toks := by
  intro pieces
  induction pieces with
  | nil =>
    intro k room _ hk _
    obtain rfl : k = 0 := Nat.le_zero.mp hk
    exact ⟨_, rfl⟩
  | cons t pieces ih =>
    intro k room h hk hroom
    cases k with
    | zero => exact ⟨_, rfl⟩
    | succ k =>
      obtain ⟨hne, hsep, hlen⟩ := h t List.mem_cons_self
      rw [Nat.succ_mul] at hroom
      cases pieces with
      | nil =>
        refine ⟨[], ?_⟩
        rw [joined_singleton, List.take_of_length_le (by omega), List.take_of_length_le (by simp)]
        have hone : strtok sep (joined sep [t]) = [t] :=
          strtok_joined (List.cons_ne_nil _ _) (by simpa using ⟨hne, hsep⟩)
        rw [← joined_singleton t, hone, joined_singleton, List.append_nil]
      | cons u pieces =>
        have hk' : k ≤ (u :: pieces).length := by simpa using hk
        have hroom' : k * len ≤ room - (t.length + 1) := by omega
        obtain ⟨toks, htoks⟩ := ih (fun v hv => h v (List.mem_cons_of_mem _ hv)) hk' hroom'
        refine ⟨toks, ?_⟩
        rw [joined_cons_cons, List.take_append, List.take_of_length_le (by omega),
          show room - t.length = (room - (t.length + 1)) + 1 by omega, List.take_succ_cons,
          strtok_append hne hsep, htoks, List.take_succ_cons, List.cons_append]

end

/-! ## Numbers -/

def isDigit (c : Char) : Bool := '0' ≤ c && c ≤ '9'

def ofDigits (s : Str) : ℕ := s.foldl (fun n c => 10 * n + (c.toNat - 48)) 0

def decimal (n : ℕ) : Str := Nat.toDigits 10 n

/-- Whether `isspace` finds white space. -/
def isSpace (c : Char) : Bool := c == ' ' || (9 ≤ c.toNat && c.toNat ≤ 13)

/-- The value of `strtol` to the base 10, and what stands behind the number. -/
def strtol (s : Str) : ℤ × Str :=
  let body := s.dropWhile isSpace
  let unsigned :=
    match body with
    | '-' :: t => t
    | '+' :: t => t
    | t => t
  let digits := unsigned.takeWhile isDigit
  if digits = [] then (0, s)
  else
    (if body.head? = some '-' then -(ofDigits digits : ℤ) else ofDigits digits,
      unsigned.dropWhile isDigit)

/-- A part of a dotted address: up to three digits without a leading zero, at most 255. -/
def octet? (s : Str) : Option ℕ :=
  if s ≠ [] ∧ s.length ≤ 3 ∧ s.all isDigit ∧ (s.head? = some '0' → s.length = 1) ∧ ofDigits s ≤ 255
  then some (ofDigits s) else none

/-- `inet_pton` for `AF_INET`: the four bytes of the address. -/
def inetPton (s : Str) : Option (ℕ × ℕ × ℕ × ℕ) :=
  match (s.splitOn '.').map octet? with
  | [some a, some b, some c, some d] => some (a, b, c, d)
  | _ => none

def dotted (a b c d : ℕ) : Str := joined '.' [decimal a, decimal b, decimal c, decimal d]

theorem decimal_octet : ∀ n < 256, octet? (decimal n) = some n ∧ (decimal n).all isDigit = true ∧
    decimal n ≠ [] ∧ (decimal n).length ≤ 3 := by
  decide +kernel

theorem strtol_decimal : ∀ n < 256, strtol (decimal n) = ((n : ℤ), []) := by
  decide +kernel

theorem not_mem_of_isDigit {s : Str} {c : Char} (h : s.all isDigit = true)
    (hc : isDigit c = false) : c ∉ s := by
  intro hmem
  rw [List.all_eq_true.mp h c hmem] at hc
  cases hc

section

variable {a b c d : ℕ}

/-- **Reading** a dotted address. -/
theorem inetPton_dotted (ha : a < 256) (hb : b < 256) (hc : c < 256) (hd : d < 256) :
    inetPton (dotted a b c d) = some (a, b, c, d) := by
  have hdot : ∀ t ∈ [decimal a, decimal b, decimal c, decimal d], '.' ∉ t := by
    simp only [List.mem_cons, List.not_mem_nil, or_false, forall_eq_or_imp, forall_eq]
    refine ⟨?_, ?_, ?_, ?_⟩
    · exact not_mem_of_isDigit (decimal_octet a ha).2.1 rfl
    · exact not_mem_of_isDigit (decimal_octet b hb).2.1 rfl
    · exact not_mem_of_isDigit (decimal_octet c hc).2.1 rfl
    · exact not_mem_of_isDigit (decimal_octet d hd).2.1 rfl
  unfold inetPton dotted joined
  rw [List.splitOn_intercalate '.' hdot (List.cons_ne_nil _ _)]
  simp only [List.map_cons, List.map_nil, (decimal_octet a ha).1, (decimal_octet b hb).1,
    (decimal_octet c hc).1, (decimal_octet d hd).1]

theorem dotted_chars (ha : a < 256) (hb : b < 256) (hc : c < 256) (hd : d < 256) :
    (∀ x ∈ dotted a b c d, isDigit x = true ∨ x = '.') ∧ (dotted a b c d).length ≤ 15 ∧
      dotted a b c d ≠ [] := by
  obtain ⟨-, hda, hna, hla⟩ := decimal_octet a ha
  obtain ⟨-, hdb, -, hlb⟩ := decimal_octet b hb
  obtain ⟨-, hdc, -, hlc⟩ := decimal_octet c hc
  obtain ⟨-, hdd, -, hld⟩ := decimal_octet d hd
  have heq : dotted a b c d =
      decimal a ++ '.' :: (decimal b ++ '.' :: (decimal c ++ '.' :: decimal d)) := by
    rw [dotted, joined_cons_cons, joined_cons_cons, joined_cons_cons, joined_singleton]
  rw [heq]
  refine ⟨fun x hx => ?_, ?_, by simp [hna]⟩
  · simp only [List.mem_append, List.mem_cons] at hx
    rw [List.all_eq_true] at hda hdb hdc hdd
    rcases hx with h | h | h | h | h | h | h
    · exact .inl (hda x h)
    · exact .inr h
    · exact .inl (hdb x h)
    · exact .inr h
    · exact .inl (hdc x h)
    · exact .inr h
    · exact .inl (hdd x h)
  · simp only [List.length_append, List.length_cons]
    omega

end

/-! ## Formatted input -/

def isXDigit (c : Char) : Bool := isDigit c || ('a' ≤ c && c ≤ 'f') || ('A' ≤ c && c ≤ 'F')

/-- The number that hexadecimal digits stand for. -/
def ofHex (s : Str) : ℕ :=
  s.foldl (fun n c => 16 * n +
    (if isDigit c then c.toNat - 48 else if 'a' ≤ c then c.toNat - 87 else c.toNat - 55)) 0

/-- What `%02x` prints of a byte. -/
def hex2 (b : UInt8) : Str := [Nat.digitChar (b.toNat / 16), Nat.digitChar (b.toNat % 16)]

/-- A number without sign and prefix behind white space, and what stands behind it. -/
def scanNumber (digit : Char → Bool) (value : Str → ℕ) (s : Str) : Option (ℕ × Str) :=
  let body := s.dropWhile isSpace
  if body.takeWhile digit = [] then none
  else some (value (body.takeWhile digit), body.dropWhile digit)

/-- `%u`, for a number that an `unsigned int` has. -/
def scanU : Str → Option (ℕ × Str) := scanNumber isDigit ofDigits

/-- `%x`, for a number that an `unsigned int` has. -/
def scanX : Str → Option (ℕ × Str) := scanNumber isXDigit ofHex

/-- `%d`, for a number that an `int` has. -/
def scanD (s : Str) : Option (ℤ × Str) :=
  match s.dropWhile isSpace with
  | '-' :: t => (scanDigits t).map fun r => (-(r.1 : ℤ), r.2)
  | '+' :: t => (scanDigits t).map fun r => ((r.1 : ℤ), r.2)
  | t => (scanDigits t).map fun r => ((r.1 : ℤ), r.2)
where
  scanDigits (t : Str) : Option (ℕ × Str) :=
    if t.takeWhile isDigit = [] then none
    else some (ofDigits (t.takeWhile isDigit), t.dropWhile isDigit)

/-- One `%x`, and as many more with a colon before them. -/
def scanHexes : ℕ → Str → Option (List ℕ × Str)
  | 0, s => (scanX s).map fun r => ([r.1], r.2)
  | n + 1, s =>
    match scanX s with
    | some (b, ':' :: rest) => (scanHexes n rest).map fun r => (b :: r.1, r.2)
    | _ => none

theorem ofDigits_decimal (n : ℕ) : ofDigits (decimal n) = n := Nat.ofDigitChars_ten_toDigits

theorem isDigit_of_mem_decimal {n : ℕ} {c : Char} (h : c ∈ decimal n) : isDigit c = true := by
  have := Nat.isDigit_of_mem_toDigits (by decide) (le_refl 10) h
  simp only [Char.isDigit, Bool.and_eq_true, decide_eq_true_eq] at this
  unfold isDigit
  rw [Bool.and_eq_true, decide_eq_true_eq, decide_eq_true_eq]
  exact this

theorem isSpace_eq_false_of_isXDigit {c : Char} (h : isXDigit c = true) : isSpace c = false := by
  have hge : 48 ≤ c.toNat := by
    simp only [isXDigit, isDigit, Bool.or_eq_true, Bool.and_eq_true, decide_eq_true_eq] at h
    rcases h with (h | h) | h
    · exact h.1
    · exact le_trans (by decide) (show ('a' : Char).toNat ≤ c.toNat from h.1)
    · exact le_trans (by decide) (show ('A' : Char).toNat ≤ c.toNat from h.1)
  unfold isSpace
  rw [Bool.or_eq_false_iff, Bool.and_eq_false_iff]
  refine ⟨?_, .inr (decide_eq_false (by omega))⟩
  rw [beq_eq_false_iff_ne]
  rintro rfl
  exact absurd hge (by decide)

/-- **Reading** digits up to something else. -/
theorem scanNumber_append (digit : Char → Bool) (value : Str → ℕ) (s : Str) {rest : Str}
    (hspace : ∀ c, digit c = true → isSpace c = false) (hne : s ≠ [])
    (hs : ∀ c ∈ s, digit c = true) (hrest : ∀ c ∈ rest.head?, digit c = false) :
    scanNumber digit value (s ++ rest) = some (value s, rest) := by
  have hbody : (s ++ rest).dropWhile isSpace = s ++ rest := by
    cases s with
    | nil => exact absurd rfl hne
    | cons c s =>
      exact List.dropWhile_cons_of_neg (by simp [hspace c (hs c List.mem_cons_self)])
  have htake : rest.takeWhile digit = [] := by
    cases rest with
    | nil => rfl
    | cons c rest => exact List.takeWhile_cons_of_neg (by simp [hrest c rfl])
  have hdrop : rest.dropWhile digit = rest := by
    cases rest with
    | nil => rfl
    | cons c rest => exact List.dropWhile_cons_of_neg (by simp [hrest c rfl])
  simp only [scanNumber, hbody, List.takeWhile_append_of_pos hs, List.dropWhile_append_of_pos hs,
    htake, hdrop, List.append_nil, if_neg hne]

theorem isDigit_ne {c : Char} (h : isDigit c = true) : isSpace c = false ∧ c ≠ '-' ∧ c ≠ '+' := by
  refine ⟨isSpace_eq_false_of_isXDigit (by rw [isXDigit, h]; rfl), ?_, ?_⟩
  · rintro rfl
    exact absurd h (by decide)
  · rintro rfl
    exact absurd h (by decide)

/-- **Reading** a number up to something else. -/
theorem scanD_decimal {n : ℕ} {rest : Str} (hrest : ∀ c ∈ rest.head?, isDigit c = false) :
    scanD (decimal n ++ rest) = some ((n : ℤ), rest) := by
  have hdigits : ∀ c ∈ decimal n, isDigit c = true := fun c hc => isDigit_of_mem_decimal hc
  have hscan : scanD.scanDigits (decimal n ++ rest) = some (n, rest) := by
    have htake : rest.takeWhile isDigit = [] := by
      cases rest with
      | nil => rfl
      | cons c rest => exact List.takeWhile_cons_of_neg (by simp [hrest c rfl])
    have hdrop : rest.dropWhile isDigit = rest := by
      cases rest with
      | nil => rfl
      | cons c rest => exact List.dropWhile_cons_of_neg (by simp [hrest c rfl])
    have hne : decimal n ≠ [] := Nat.toDigits_ne_nil
    rw [scanD.scanDigits, List.takeWhile_append_of_pos hdigits, List.dropWhile_append_of_pos hdigits,
      htake, hdrop, List.append_nil, if_neg hne, ofDigits_decimal]
  cases htext : decimal n with
  | nil => exact absurd htext Nat.toDigits_ne_nil
  | cons c s =>
    obtain ⟨hspace, hminus, hplus⟩ := isDigit_ne (hdigits c (by rw [htext]; exact List.mem_cons_self))
    have hbody : (c :: s ++ rest).dropWhile isSpace = c :: s ++ rest :=
      List.dropWhile_cons_of_neg (by simp [hspace])
    rw [htext] at hscan
    rw [scanD, hbody]
    split
    · rename_i heq
      exact absurd (List.cons_eq_cons.mp heq).1 hminus
    · rename_i heq
      exact absurd (List.cons_eq_cons.mp heq).1 hplus
    · rw [hscan, Option.map_some]

/-- What `%d` prints. -/
def intText (v : ℤ) : Str := if v < 0 then '-' :: decimal v.natAbs else decimal v.natAbs

theorem strtol_digits {s : Str} (hne : s ≠ []) (h : ∀ c ∈ s, isDigit c = true) :
    strtol s = ((ofDigits s : ℤ), []) := by
  cases s with
  | nil => exact absurd rfl hne
  | cons c s =>
    obtain ⟨hspace, hminus, hplus⟩ := isDigit_ne (h c List.mem_cons_self)
    have hbody : (c :: s).dropWhile isSpace = c :: s :=
      List.dropWhile_cons_of_neg (by simp [hspace])
    have htake : (c :: s).takeWhile isDigit = c :: s := List.takeWhile_eq_self_iff.mpr h
    have hdrop : (c :: s).dropWhile isDigit = [] := List.dropWhile_eq_nil_iff.mpr h
    simp [strtol, hbody, htake, hdrop, hminus, hplus]

/-- **Reading** an integer that was printed. -/
theorem strtol_intText (v : ℤ) : strtol (intText v) = (v, []) := by
  have hne : decimal v.natAbs ≠ [] := Nat.toDigits_ne_nil
  have hdigits : ∀ c ∈ decimal v.natAbs, isDigit c = true := fun c hc => isDigit_of_mem_decimal hc
  unfold intText
  split_ifs with hneg
  · have htake : (decimal v.natAbs).takeWhile isDigit = decimal v.natAbs :=
      List.takeWhile_eq_self_iff.mpr hdigits
    have hdrop : (decimal v.natAbs).dropWhile isDigit = [] := List.dropWhile_eq_nil_iff.mpr hdigits
    have hbody : ('-' :: decimal v.natAbs).dropWhile isSpace = '-' :: decimal v.natAbs := rfl
    simp only [strtol, hbody, htake, hdrop, if_neg hne, List.head?_cons, if_true, ofDigits_decimal,
      Prod.mk.injEq, and_true]
    omega
  · rw [strtol_digits hne hdigits, ofDigits_decimal, Prod.mk.injEq]
    exact ⟨by omega, rfl⟩

theorem hex2_spec : ∀ n < 256, ofHex (hex2 (UInt8.ofNat n)) = n ∧
    (hex2 (UInt8.ofNat n)).all isXDigit = true := by
  decide +kernel

theorem scanU_decimal {n : ℕ} {rest : Str} (hrest : ∀ c ∈ rest.head?, isDigit c = false) :
    scanU (decimal n ++ rest) = some (n, rest) := by
  have hspace : ∀ c, isDigit c = true → isSpace c = false := fun c hc =>
    isSpace_eq_false_of_isXDigit (by rw [isXDigit, hc]; rfl)
  have := scanNumber_append isDigit ofDigits (decimal n) hspace Nat.toDigits_ne_nil
    (fun c hc => isDigit_of_mem_decimal hc) hrest
  rw [ofDigits_decimal] at this
  exact this

theorem scanX_hex2 {b : UInt8} {rest : Str} (hrest : ∀ c ∈ rest.head?, isXDigit c = false) :
    scanX (hex2 b ++ rest) = some (b.toNat, rest) := by
  have hspec := hex2_spec b.toNat b.toNat_lt
  rw [UInt8.ofNat_toNat] at hspec
  have := scanNumber_append isXDigit ofHex (hex2 b) (fun _ => isSpace_eq_false_of_isXDigit)
    (List.cons_ne_nil _ _) (List.all_eq_true.mp hspec.2) hrest
  rw [hspec.1] at this
  exact this

/-- **Reading** bytes with colons between them. -/
theorem scanHexes_joined {rest : Str} (hrest : ∀ c ∈ rest.head?, isXDigit c = false) :
    ∀ (b : UInt8) (bs : List UInt8),
      scanHexes bs.length (joined ':' ((b :: bs).map hex2) ++ rest) =
        some ((b :: bs).map UInt8.toNat, rest) := by
  intro b bs
  induction bs generalizing b with
  | nil =>
    rw [List.map_singleton, joined_singleton, List.length_nil, scanHexes, scanX_hex2 hrest]
    rfl
  | cons b' bs ih =>
    have hcolon : ∀ c ∈ (':' :: (joined ':' ((b' :: bs).map hex2) ++ rest)).head?,
        isXDigit c = false := by
      rintro c hc
      cases hc
      rfl
    rw [List.map_cons, List.map_cons, joined_cons_cons, ← List.map_cons, List.append_assoc,
      List.cons_append, List.length_cons, scanHexes, scanX_hex2 hcolon]
    simp only
    rw [ih b']
    rfl

end CStrings

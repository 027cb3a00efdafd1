import NetEncryptor.Db.AddressLists

/-!
# The texts of a policy row

The database returns every column of `ne_policies` as a text.  `readPolicyRow` reads them as
`load_profiles_and_policies` does: a name that is not known counts as a number, a list that cannot be
split as `ANY`, and so does a range of ports that cannot be parsed.

`readPorts_text` says what a list of well-formed port ranges is read as.
-/

namespace NetEncryptor

open CStrings

/-! ## Parsing -/

/-- `strcasecmp` finds the texts equal; the second one is in lower case. -/
def equalsNoCase (v name : Str) : Bool := v.map Char.toLower == name

def atoi (s : Str) : ℤ := (strtol s).1

/-- `none` stands for `-1`. -/
def parsePortRange (v : Str) : Option PortItem :=
  if strIsAny v then some ⟨-1, -1⟩
  else
    match scanD v with
    | none => none
    | some (a, rest) =>
      let upper : Option ℤ :=
        match rest with
        | '-' :: rest => (scanD rest).map Prod.fst
        | _ => none
      match upper with
      | some b =>
        if 0 ≤ a ∧ a ≤ b ∧ b ≤ 65535 then some ⟨a, b⟩
        else if 0 ≤ a ∧ a ≤ 65535 then some ⟨a, a⟩ else none
      | none => if 0 ≤ a ∧ a ≤ 65535 then some ⟨a, a⟩ else none

def readPort (tok : Str) : PortItem := (parsePortRange tok).getD ⟨-1, -1⟩

/-- The items of a port column. -/
def readPorts (text : Str) (pqNull : Bool) : List PortItem :=
  (neFillStrList text pqNull maxCidrListItems).map readPort

def parseProtocolName (v : Option Str) : UInt8 :=
  match v with
  | none => policyProtoAny
  | some v =>
    if strIsAny v then policyProtoAny
    else if equalsNoCase v "tcp".toList then 6
    else if equalsNoCase v "udp".toList then 17
    else if equalsNoCase v "icmp".toList then 1
    else if equalsNoCase v "ospf".toList then 89
    else UInt8.ofNat (atoi v % 256).toNat

def parseActionName (v : Str) : ℤ :=
  if equalsNoCase v "bypass".toList then actionBypass
  else if equalsNoCase v "l2".toList ∨ equalsNoCase v "encrypt_l2".toList ∨
      equalsNoCase v "encrypt l2".toList then actionEncryptL2
  else if equalsNoCase v "l3".toList ∨ equalsNoCase v "encrypt_l3".toList ∨
      equalsNoCase v "encrypt l3".toList then actionEncryptL3
  else if equalsNoCase v "l4".toList ∨ equalsNoCase v "encrypt_l4".toList ∨
      equalsNoCase v "encrypt l4".toList then actionEncryptL4
  else atoi v

def neParseMethod (v : Option Str) : CryptoMode × AesBits :=
  match v with
  | none => (.gcm, .aes128)
  | some v =>
    if equalsNoCase v "aes-gcm-128".toList then (.gcm, .aes128)
    else if equalsNoCase v "aes-gcm-256".toList then (.gcm, .aes256)
    else if equalsNoCase v "aes-ctr-128".toList then (.ctr, .aes128)
    else if equalsNoCase v "aes-ctr-256".toList then (.ctr, .aes256)
    else (.gcm, .aes128)

/-! ## Rows -/

/-- The columns of the query, `none` where it is null. -/
structure PolicyTexts where
  id : Str
  priority : Str
  action : Str
  proto : Option Str
  srcIp : Str
  invertSrcIp : Str
  dstIp : Str
  invertDstIp : Str
  srcPort : Str
  dstPort : Str
  method : Option Str
  encryptionKey : Option Str
  nonce : Option Str

theorem readPorts_ne_nil (text : Str) (pqNull : Bool) : readPorts text pqNull ≠ [] := by
  have h := readCidrs_ne_nil text pqNull false
  unfold readCidrs at h
  rw [Ne, List.map_eq_nil_iff] at h
  unfold readPorts
  rwa [Ne, List.map_eq_nil_iff]

/-- The columns of a row as numbers, items and key.  `fillKey` is `ne_fill_policy_key`. -/
def readPolicyRow (fillKey : Option Str → ℕ → Key) (c : PolicyTexts) : PolicyRow where
  id := atoi c.id
  priority := atoi c.priority
  action := parseActionName c.action
  protocol := parseProtocolName c.proto
  srcItems := readCidrs c.srcIp false (c.invertSrcIp == "t".toList)
  dstItems := readCidrs c.dstIp false (c.invertDstIp == "t".toList)
  srcPortItems := readPorts c.srcPort false
  dstPortItems := readPorts c.dstPort false
  cryptoMode := (neParseMethod c.method).1
  aesBits := (neParseMethod c.method).2
  nonce := c.nonce.map atoi
  key := fillKey c.encryptionKey (neParseMethod c.method).2.keySize
  items_ne := ⟨readCidrs_ne_nil _ _ _, readCidrs_ne_nil _ _ _, readPorts_ne_nil _ _,
    readPorts_ne_nil _ _⟩

/-! ## Well-formed port ranges -/

inductive PortRange where
  | port (p : Fin 65536)
  | range (lo hi : Fin 65536) (h : lo ≤ hi)

namespace PortRange

/-- The notation `p` or `lo-hi`. -/
def text : PortRange → Str
  | port p => decimal p
  | range lo hi _ => decimal lo ++ '-' :: decimal hi

def Contains : PortRange → ℕ → Prop
  | port p, n => n = p
  | range lo hi _, n => lo ≤ n ∧ n ≤ hi

instance (r : PortRange) (n : ℕ) : Decidable (r.Contains n) :=
  match r with
  | port p => inferInstanceAs (Decidable (n = p))
  | range lo hi _ => inferInstanceAs (Decidable (lo ≤ n ∧ n ≤ hi))

def item : PortRange → PortItem
  | port p => ⟨(p : ℕ), (p : ℕ)⟩
  | range lo hi _ => ⟨(lo : ℕ), (hi : ℕ)⟩

variable (r : PortRange)

theorem toLower_of_isDigit {c : Char} (h : isDigit c = true) : c.toLower = c := by
  rw [isDigit, Bool.and_eq_true, decide_eq_true_eq, decide_eq_true_eq] at h
  have hupper : ¬ (c.val ≥ 'A'.val ∧ c.val ≤ 'Z'.val) := fun hupper => by
    have hle : 'A'.val ≤ '9'.val := UInt32.le_trans hupper.1 h.2
    exact absurd hle (by decide)
  exact dif_neg hupper

theorem length_decimal_lt (p : Fin 65536) : (decimal p).length < 6 := by
  have h : (decimal (p : ℕ)).length ≤ 5 :=
    (Nat.length_toDigits_le_iff (by decide) (by decide)).mpr (by omega)
  omega

theorem text_chars : (∀ x ∈ r.text, isDigit x = true ∨ x = '-') ∧ r.text.length < 20 := by
  have hdigit : ∀ {n : ℕ} {x : Char}, x ∈ decimal n → isDigit x = true := isDigit_of_mem_decimal
  cases r with
  | port p =>
    have hlen := length_decimal_lt p
    exact ⟨fun x hx => .inl (hdigit hx), by rw [text]; omega⟩
  | range lo hi h =>
    have hlo := length_decimal_lt lo
    have hhi := length_decimal_lt hi
    refine ⟨fun x hx => ?_, ?_⟩
    · rcases List.mem_append.mp hx with hx | hx
      · exact .inl (hdigit hx)
      · exact (List.mem_cons.mp hx).symm.imp_left hdigit
    · rw [text, List.length_append, List.length_cons]
      omega

theorem head_text : ∃ c s, r.text = c :: s ∧ isDigit c = true := by
  have hhead : ∀ n rest, ∃ c s, decimal n ++ rest = c :: s ∧ isDigit c = true := by
    intro n rest
    cases htext : decimal n with
    | nil => exact absurd htext Nat.toDigits_ne_nil
    | cons c s =>
      exact ⟨c, s ++ rest, rfl, isDigit_of_mem_decimal (n := n) (by rw [htext]; exact List.mem_cons_self)⟩
  cases r with
  | port p =>
    have := hhead p []
    rwa [List.append_nil] at this
  | range lo hi h => exact hhead lo _

theorem listItem_text : ListItem r.text where
  ne_nil := by
    obtain ⟨c, s, h, -⟩ := r.head_text
    rw [h]
    exact List.cons_ne_nil _ _
  comma h := by
    rcases r.text_chars.1 _ h with h | h
    · exact absurd h (by decide)
    · exact absurd h (by decide)
  noBlank x hx := by
    unfold isBlank
    rw [Bool.or_eq_false_iff, beq_eq_false_iff_ne, beq_eq_false_iff_ne]
    refine ⟨?_, ?_⟩
    · rintro rfl
      rcases r.text_chars.1 _ hx with h | h
      · exact absurd h (by decide)
      · exact absurd h (by decide)
    · rintro rfl
      rcases r.text_chars.1 _ hx with h | h
      · exact absurd h (by decide)
      · exact absurd h (by decide)
  length := r.text_chars.2

theorem strIsAny_text : strIsAny r.text = false := by
  obtain ⟨c, s, htext, hc⟩ := r.head_text
  have hskip : skipBlanks r.text = c :: s := by
    rw [skipBlanks_of_noBlank r.listItem_text.noBlank, htext]
  have hlower : c.toLower ≠ 'a' := by
    rw [toLower_of_isDigit hc]
    rintro rfl
    exact absurd hc (by decide)
  simp only [strIsAny, hskip, List.map_cons, Bool.or_eq_false_iff, beq_eq_false_iff_ne]
  refine ⟨⟨List.cons_ne_nil _ _, fun h => hlower (List.cons_eq_cons.mp h).1⟩, fun h => ?_⟩
  rw [(List.cons_eq_cons.mp h).1] at hc
  exact absurd hc (by decide)

/-- **Parsing** a port range. -/
theorem parsePortRange_text : parsePortRange r.text = some r.item := by
  rw [parsePortRange, strIsAny_text]
  cases r with
  | port p =>
    have hscan := @scanD_decimal p [] nofun
    rw [List.append_nil] at hscan
    simp only [text, hscan]
    rw [if_neg (by decide), if_pos (by omega)]
    rfl
  | range lo hi h =>
    have hle : (lo : ℕ) ≤ hi := h
    have hsign : ∀ c ∈ ('-' :: decimal hi).head?, isDigit c = false := by
      intro c hc
      cases hc
      rfl
    have hscan := @scanD_decimal lo _ hsign
    have hscan₂ := @scanD_decimal hi [] nofun
    rw [List.append_nil] at hscan₂
    simp only [text, hscan, hscan₂, Option.map_some]
    rw [if_neg (by decide), if_pos (by omega)]
    rfl

end PortRange

/-- The text of a list, as `array_to_string` joins it. -/
def portListText (ranges : List PortRange) : Str := joined ',' (ranges.map PortRange.text)

/-- **What a list is read as**: its items, or the item that means any. -/
theorem readPorts_text {ranges : List PortRange} (hne : ranges ≠ []) :
    readPorts (portListText ranges) false =
      if ranges.length ≤ maxCidrListItems then ranges.map PortRange.item else [⟨-1, -1⟩] := by
  have hitems : ∀ t ∈ ranges.map PortRange.text, ListItem t := by
    intro t ht
    obtain ⟨r, -, rfl⟩ := List.mem_map.mp ht
    exact r.listItem_text
  rw [readPorts, portListText, neFillStrList_joined (by simpa using hne) hitems, List.length_map]
  split_ifs
  · rw [List.map_map]
    apply List.map_congr_left
    intro r _
    rw [Function.comp_apply, readPort, r.parsePortRange_text, Option.getD_some]
  · rfl

end NetEncryptor

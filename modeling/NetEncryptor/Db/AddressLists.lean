import NetEncryptor.Db.Cidr
import NetEncryptor.Db.WireId

/-!
# The addresses that a policy row means

A list of CIDRs means the addresses that belong to one of them, an inverted list the others.
`addressMeaning_iff` says which lists keep this meaning when a row is expanded into policies.  Each
item becomes a policy with the inversion of its list, so the policies of an inverted list accept
together what some CIDR of the list lacks.  A list with more items than there is room for becomes
the one item that accepts every address.
-/

namespace NetEncryptor

open CStrings

/-! ## Lists of texts -/

/-- A text that a list keeps as it is. -/
structure ListItem (t : Str) : Prop where
  ne_nil : t ≠ []
  comma : ',' ∉ t
  noBlank : NoBlank t
  length : t.length < 20

section

variable {items : List Str}

theorem splitCidrTokens_items {maxOut count : ℕ} (hitems : ∀ t ∈ items, ListItem t)
    (h : count + items.length ≤ maxOut) : splitCidrTokens maxOut count items = some items := by
  induction items generalizing count with
  | nil => rfl
  | cons t items ih =>
    obtain ⟨ht, hrest⟩ := List.forall_mem_cons.mp hitems
    rw [List.length_cons] at h
    have hlen := ht.length
    rw [splitCidrTokens, if_neg (by omega)]
    simp only [trimBlanks_of_noBlank ht.noBlank]
    rw [if_neg ht.ne_nil, ih hrest (by omega), Option.map_some,
      List.take_of_length_le (by rw [maxCidrItemLen]; omega)]

theorem splitCidrTokens_overflow {maxOut count : ℕ} {toks : List Str}
    (hitems : ∀ t ∈ items, ListItem t) (h : maxOut < count + items.length)
    (hcount : count ≤ maxOut) : splitCidrTokens maxOut count (items ++ toks) = none := by
  induction items generalizing count with
  | nil =>
    rw [List.length_nil] at h
    omega
  | cons t items ih =>
    obtain ⟨ht, hrest⟩ := List.forall_mem_cons.mp hitems
    rw [List.length_cons] at h
    rw [List.cons_append, splitCidrTokens]
    split_ifs with hfull
    · rfl
    · simp only [trimBlanks_of_noBlank ht.noBlank]
      rw [if_neg ht.ne_nil, ih hrest (by omega) (by omega), Option.map_none]

theorem joined_items_ne_nil (hne : items ≠ []) (hitems : ∀ t ∈ items, ListItem t) :
    joined ',' items ≠ [] :=
  joined_ne_nil hne fun t ht => (hitems t ht).ne_nil

theorem splitCidrList_eq (hne : items ≠ []) (hitems : ∀ t ∈ items, ListItem t) (maxOut : ℕ) :
    splitCidrList (joined ',' items) maxOut =
      match splitCidrTokens maxOut 0 (strtok ',' ((joined ',' items).take 1023)) with
      | none => none
      | some items => if items = [] then none else some items := by
  have hblank : NoBlank ((joined ',' items).take 1023) := by
    intro x hx
    rcases mem_joined (List.mem_of_mem_take hx) with rfl | ⟨t, ht, hxt⟩
    · rfl
    · exact (hitems t ht).noBlank x hxt
  simp only [splitCidrList]
  rw [trimBlanks_of_noBlank hblank]
  exact if_neg (by simpa using joined_items_ne_nil hne hitems)

/-- **Splitting** a list that fits. -/
theorem splitCidrList_joined (hne : items ≠ []) (hitems : ∀ t ∈ items, ListItem t)
    (h : items.length ≤ maxCidrListItems) :
    splitCidrList (joined ',' items) maxCidrListItems = some items := by
  have hlen : (joined ',' items).length ≤ items.length * 20 :=
    length_joined_le fun t ht => (hitems t ht).length
  have htoks : strtok ',' (joined ',' items) = items :=
    strtok_joined hne fun t ht => ⟨(hitems t ht).ne_nil, (hitems t ht).comma⟩
  have hsplit : splitCidrTokens maxCidrListItems 0 items = some items :=
    splitCidrTokens_items hitems (by omega)
  rw [maxCidrListItems] at h
  rw [splitCidrList_eq hne hitems, List.take_of_length_le (by omega), htoks, hsplit]
  exact if_neg hne

/-- **Splitting** a list that does not fit. -/
theorem splitCidrList_overflow (hitems : ∀ t ∈ items, ListItem t)
    (h : maxCidrListItems < items.length) :
    splitCidrList (joined ',' items) maxCidrListItems = none := by
  have hne : items ≠ [] := List.ne_nil_of_length_pos (by omega)
  have hroom : maxCidrListItems.succ * 20 ≤ 1023 := by decide
  obtain ⟨toks, htoks⟩ := strtok_take_joined
    (fun t ht => ⟨(hitems t ht).ne_nil, (hitems t ht).comma, (hitems t ht).length⟩) h hroom
  have htake : (items.take maxCidrListItems.succ).length = maxCidrListItems.succ :=
    List.length_take_of_le h
  rw [splitCidrList_eq hne hitems, htoks,
    splitCidrTokens_overflow (fun t ht => hitems t (List.mem_of_mem_take ht)) (by omega) (by omega)]

/-- **What a column is read as**: its items, or the item that means any. -/
theorem neFillStrList_joined (hne : items ≠ []) (hitems : ∀ t ∈ items, ListItem t) :
    neFillStrList (joined ',' items) false maxCidrListItems =
      if items.length ≤ maxCidrListItems then items else [['A', 'N', 'Y']] := by
  have hfill : ¬ (false = true ∨ joined ',' items = []) := by
    simpa using joined_items_ne_nil hne hitems
  rw [neFillStrList, if_neg hfill]
  split_ifs with hlen
  · rw [splitCidrList_joined hne hitems hlen, Option.getD_some]
  · rw [splitCidrList_overflow hitems (by omega), Option.getD_none]

end

/-! ## Lists of CIDRs -/

/-- The text of a list, as `array_to_string` joins it. -/
def cidrListText (cidrs : List Cidr) : Str := joined ',' (cidrs.map Cidr.text)

theorem Cidr.listItem_text (cidr : Cidr) : ListItem cidr.text where
  ne_nil := cidr.text_ne_nil
  comma := cidr.not_mem_text (by decide)
  noBlank := cidr.noBlank_text
  length := cidr.text_chars.2

section

variable {cidrs : List Cidr} {invert : Bool}

theorem listItem_texts (cidrs : List Cidr) : ∀ t ∈ cidrs.map Cidr.text, ListItem t := by
  intro t ht
  obtain ⟨cidr, -, rfl⟩ := List.mem_map.mp ht
  exact cidr.listItem_text

theorem readCidrs_text (hne : cidrs ≠ []) (invert : Bool) :
    readCidrs (cidrListText cidrs) false invert =
      if cidrs.length ≤ maxCidrListItems then cidrs.map (Cidr.item · invert)
      else [⟨true, false, 0, 0⟩] := by
  rw [readCidrs, cidrListText, neFillStrList_joined (by simpa using hne) (listItem_texts cidrs),
    List.length_map]
  split_ifs with hlen
  · rw [List.map_map]
    apply List.map_congr_left
    intro cidr _
    exact cidr.readCidr_text invert
  · cases invert with
    | true => rfl
    | false => rfl

theorem splitCidrList_ne_nil {input : Str} {maxOut : ℕ} {items : List Str}
    (h : splitCidrList input maxOut = some items) : items ≠ [] := by
  simp only [splitCidrList] at h
  split_ifs at h
  split at h
  · cases h
  · split_ifs at h with hitems
    cases h
    exact hitems

theorem readCidrs_ne_nil (text : Str) (pqNull invert : Bool) : readCidrs text pqNull invert ≠ [] := by
  unfold readCidrs neFillStrList
  rw [Ne, List.map_eq_nil_iff]
  split_ifs
  · exact not_false
  · cases hsplit : splitCidrList text maxCidrListItems with
    | none => exact List.cons_ne_nil _ _
    | some items => exact splitCidrList_ne_nil hsplit

end

/-! ## The policies of a row -/

/-- The policies that a row adds to the `before` policies there are; `none` stands for `-1`. -/
def rowPolicies (w : WireIds) (before : ℕ) (row : PolicyRow) : Option (List CryptoPolicy) :=
  match policyBase w row with
  | none => none
  | some (base, _) =>
    if maxCryptoPolicies < before + (expandRow base row).length then none
    else some (expandRow base row)

theorem loadPolicyRows_rowPolicies (w : WireIds) (policies : List CryptoPolicy) (row : PolicyRow)
    (rows : List PolicyRow) :
    (rowPolicies w policies.length row = none ∧
        loadPolicyRows w policies (row :: rows) = none) ∨
      ∃ w' more, rowPolicies w policies.length row = some more ∧
        loadPolicyRows w policies (row :: rows) = loadPolicyRows w' (policies ++ more) rows := by
  unfold rowPolicies
  rw [loadPolicyRows]
  cases hbase : policyBase w row with
  | none => exact .inl ⟨rfl, rfl⟩
  | some r =>
    obtain ⟨base, w'⟩ := r
    simp only [List.length_append]
    split_ifs
    · exact .inl ⟨rfl, rfl⟩
    · exact .inr ⟨w', _, rfl, rfl⟩

/-- The row encrypts, its key has no wire id, and there is none left. -/
def NoWireId (w : WireIds) (row : PolicyRow) : Prop :=
  row.action ≠ actionBypass ∧ w.find row.key row.aesBits.keySize = none ∧
    ∀ id, 1 ≤ id → id ≤ 255 → w.used id = true

theorem neWireIdForEncryptKey_eq_none_iff {w : WireIds} {key : Key} {keyLen : ℕ} {dbId : ℤ} :
    neWireIdForEncryptKey w key keyLen dbId = none ↔
      w.find key keyLen = none ∧ ∀ id, 1 ≤ id → id ≤ 255 → w.used id = true := by
  unfold neWireIdForEncryptKey allocWirePolicyId
  cases w.find key keyLen with
  | some e => simp
  | none =>
    have hclaim := @IdPool.claim_eq_none_iff 255 w.used dbId
    rw [← hclaim]
    cases IdPool.claim 255 w.used dbId with
    | none => simp
    | some id => simp

theorem policyBase_eq_none_iff {w : WireIds} {row : PolicyRow} :
    policyBase w row = none ↔ NoWireId w row := by
  unfold policyBase NoWireId
  have hid := @neWireIdForEncryptKey_eq_none_iff w row.key row.aesBits.keySize row.id
  rw [← hid]
  split_ifs with haction
  · simp [haction]
  · cases neWireIdForEncryptKey w row.key row.aesBits.keySize row.id with
    | none => simp [haction]
    | some r => simp

/-! ## Columns -/

/-- `src_ip` and `dst_ip`. -/
inductive AddressColumn where
  | srcIp
  | dstIp
  deriving DecidableEq

namespace AddressColumn

def fill (col : AddressColumn) (row : PolicyRow) (text : Str) (invert : Bool) : PolicyRow :=
  match col with
  | srcIp =>
    { row with
      srcItems := readCidrs text false invert
      items_ne := ⟨readCidrs_ne_nil _ _ _, row.items_ne.2⟩ }
  | dstIp =>
    { row with
      dstItems := readCidrs text false invert
      items_ne := ⟨row.items_ne.1, readCidrs_ne_nil _ _ _, row.items_ne.2.2⟩ }

/-- The test of the policy on this address. -/
def accepts (col : AddressColumn) (cp : CryptoPolicy) (ip : UInt32) : Bool :=
  match col with
  | srcIp => cidrMatchWithNegate cp.srcAny cp.srcNegate ip cp.srcNet cp.srcMask
  | dstIp => cidrMatchWithNegate cp.dstAny cp.dstNegate ip cp.dstNet cp.dstMask

/-- How many policies each item of the column becomes. -/
def otherChoices (col : AddressColumn) (row : PolicyRow) : ℕ :=
  match col with
  | srcIp => row.dstItems.length * row.srcPortItems.length * row.dstPortItems.length
  | dstIp => row.srcItems.length * row.srcPortItems.length * row.dstPortItems.length

section

variable {col : AddressColumn} {base : CryptoPolicy} {row : PolicyRow} {text : Str} {invert : Bool}
  {ip : UInt32}

/-- **Expanding a row** gives a policy that accepts the address for each item that does. -/
theorem exists_mem_expandRow_fill :
    (∃ cp ∈ expandRow base (col.fill row text invert), col.accepts cp ip = true) ↔
      ∃ item ∈ readCidrs text false invert,
        cidrMatchWithNegate item.any item.negate ip item.net item.mask = true := by
  obtain ⟨hsrc, hdst, hsp, hdp⟩ := row.items_ne
  obtain ⟨src, hsrc⟩ := List.exists_mem_of_ne_nil _ hsrc
  obtain ⟨dst, hdst⟩ := List.exists_mem_of_ne_nil _ hdst
  obtain ⟨sp, hsp⟩ := List.exists_mem_of_ne_nil _ hsp
  obtain ⟨dp, hdp⟩ := List.exists_mem_of_ne_nil _ hdp
  cases col with
  | srcIp =>
    simp only [expandRow, fill, accepts, List.mem_flatMap, List.mem_map]
    constructor
    · rintro ⟨cp, ⟨item, hitem, _, _, _, _, _, _, rfl⟩, hip⟩
      exact ⟨item, hitem, hip⟩
    · rintro ⟨item, hitem, hip⟩
      exact ⟨_, ⟨item, hitem, dst, hdst, sp, hsp, dp, hdp, rfl⟩, hip⟩
  | dstIp =>
    simp only [expandRow, fill, accepts, List.mem_flatMap, List.mem_map]
    constructor
    · rintro ⟨cp, ⟨_, _, item, hitem, _, _, _, _, rfl⟩, hip⟩
      exact ⟨item, hitem, hip⟩
    · rintro ⟨item, hitem, hip⟩
      exact ⟨_, ⟨src, hsrc, item, hitem, sp, hsp, dp, hdp, rfl⟩, hip⟩

theorem length_expandRow : (expandRow base row).length =
    row.srcItems.length * (row.dstItems.length *
      (row.srcPortItems.length * row.dstPortItems.length)) := by
  simp [expandRow, List.length_flatMap]

theorem length_expandRow_fill : (expandRow base (col.fill row text invert)).length =
    (readCidrs text false invert).length * col.otherChoices row := by
  rw [length_expandRow]
  cases col with
  | srcIp =>
    simp only [fill, otherChoices]
    rw [Nat.mul_assoc row.dstItems.length]
  | dstIp =>
    simp only [fill, otherChoices]
    rw [Nat.mul_left_comm, Nat.mul_assoc row.srcItems.length]

end

end AddressColumn

/-! ## Meaning -/

/-- The addresses of a list: those in one of its CIDRs, or the others. -/
def ListAccepts (cidrs : List Cidr) (invert : Bool) (ip : UInt32) : Prop :=
  (∃ cidr ∈ cidrs, cidr.Contains ip) ↔ invert = false

/-- The row is not loaded, or its policies accept together what the list of the column accepts. -/
def AddressMeaning (col : AddressColumn) (w : WireIds) (before : ℕ) (row : PolicyRow)
    (cidrs : List Cidr) (invert : Bool) : Prop :=
  match rowPolicies w before (col.fill row (cidrListText cidrs) invert) with
  | none => True
  | some policies =>
    ∀ ip, (∃ cp ∈ policies, col.accepts cp ip = true) ↔ ListAccepts cidrs invert ip

/-- How many items a list of CIDRs is read as. -/
def itemCount (cidrs : List Cidr) : ℕ := if cidrs.length ≤ maxCidrListItems then cidrs.length else 1

section

variable {cidrs : List Cidr} {invert : Bool}

/-- What the items of a list accept together is what the list accepts. -/
def ItemsAccept (cidrs : List Cidr) (invert : Bool) : Prop :=
  ∀ ip, (∃ item ∈ readCidrs (cidrListText cidrs) false invert,
    cidrMatchWithNegate item.any item.negate ip item.net item.mask = true) ↔
      ListAccepts cidrs invert ip

theorem itemsAccept_iff_of_le (hne : cidrs ≠ []) (h : cidrs.length ≤ maxCidrListItems) :
    ItemsAccept cidrs invert ↔
      invert = false ∨ ∀ c ∈ cidrs, ∀ c' ∈ cidrs, ∀ ip, c.Contains ip → c'.Contains ip := by
  have hitems : ∀ ip, (∃ item ∈ readCidrs (cidrListText cidrs) false invert,
      cidrMatchWithNegate item.any item.negate ip item.net item.mask = true) ↔
        ∃ cidr ∈ cidrs, cidr.Contains ip ↔ invert = false := fun ip => by
    rw [readCidrs_text hne, if_pos h]
    constructor
    · rintro ⟨item, hitem, hip⟩
      obtain ⟨cidr, hcidr, rfl⟩ := List.mem_map.mp hitem
      exact ⟨cidr, hcidr, (cidr.cidrMatch_item invert ip).mp hip⟩
    · rintro ⟨cidr, hcidr, hip⟩
      exact ⟨_, List.mem_map_of_mem hcidr, (cidr.cidrMatch_item invert ip).mpr hip⟩
  simp only [ItemsAccept, ListAccepts, hitems]
  cases invert with
  | false => simp
  | true =>
    simp only [Bool.true_eq_false, iff_false, false_or]
    constructor
    · intro hall c hc c' hc' ip hip
      by_contra hnot
      exact (hall ip).mp ⟨c', hc', hnot⟩ ⟨c, hc, hip⟩
    · intro hsame ip
      obtain ⟨c, hc⟩ := List.exists_mem_of_ne_nil _ hne
      refine ⟨?_, fun hnone => ⟨c, hc, fun hip => hnone ⟨c, hc, hip⟩⟩⟩
      rintro ⟨c₁, hc₁, hnot⟩ ⟨c₂, hc₂, hip⟩
      exact hnot (hsame c₂ hc₂ c₁ hc₁ ip hip)

theorem itemsAccept_iff_of_lt (h : maxCidrListItems < cidrs.length) :
    ItemsAccept cidrs invert ↔ invert = false ∧ ∀ ip, ∃ cidr ∈ cidrs, cidr.Contains ip := by
  have hne : cidrs ≠ [] := List.ne_nil_of_length_pos (by omega)
  have hitems : ∀ ip, ∃ item ∈ readCidrs (cidrListText cidrs) false invert,
      cidrMatchWithNegate item.any item.negate ip item.net item.mask = true := fun ip => by
    rw [readCidrs_text hne, if_neg (by omega)]
    exact ⟨_, List.mem_singleton_self _, rfl⟩
  simp only [ItemsAccept, ListAccepts, hitems, true_iff]
  cases invert with
  | false => simp
  | true =>
    simp only [Bool.true_eq_false, iff_false, false_and]
    intro hall
    obtain ⟨c, hc⟩ := List.exists_mem_of_ne_nil _ hne
    exact hall c.addr ⟨c, hc, rfl⟩

theorem length_readCidrs_text (hne : cidrs ≠ []) :
    (readCidrs (cidrListText cidrs) false invert).length = itemCount cidrs := by
  rw [readCidrs_text hne, itemCount]
  split_ifs
  · exact List.length_map _
  · rfl

theorem addressMeaning_iff_items {col : AddressColumn} {w : WireIds} {before : ℕ} {row : PolicyRow}
    (hne : cidrs ≠ []) : AddressMeaning col w before row cidrs invert ↔
      (NoWireId w row ∨ maxCryptoPolicies < before + itemCount cidrs * col.otherChoices row) ∨
        ItemsAccept cidrs invert := by
  have hid : NoWireId w (col.fill row (cidrListText cidrs) invert) ↔ NoWireId w row := by
    cases col with
    | srcIp => rfl
    | dstIp => rfl
  rw [← hid, ← policyBase_eq_none_iff, AddressMeaning, rowPolicies]
  cases policyBase w (col.fill row (cidrListText cidrs) invert) with
  | none => simp
  | some r =>
    simp only [AddressColumn.length_expandRow_fill, length_readCidrs_text hne]
    by_cases hover : maxCryptoPolicies < before + itemCount cidrs * col.otherChoices row
    · simp [hover]
    · simp only [hover, if_false, AddressColumn.exists_mem_expandRow_fill, reduceCtorEq, false_or]
      rfl

end

/-- **The address meaning** of a column is kept exactly if the row cannot be loaded, or its list
has at most 32 items and is not inverted, unless they all contain the same addresses, or its list
is longer, not inverted, and contains every address. -/
theorem addressMeaning_iff (col : AddressColumn) (w : WireIds) (before : ℕ) (row : PolicyRow)
    (cidrs : List Cidr) (invert : Bool) (hne : cidrs ≠ []) :
    AddressMeaning col w before row cidrs invert ↔
      (NoWireId w row ∨ maxCryptoPolicies < before + itemCount cidrs * col.otherChoices row) ∨
      (cidrs.length ≤ maxCidrListItems ∧
        (invert = false ∨ ∀ c ∈ cidrs, ∀ c' ∈ cidrs, ∀ ip, c.Contains ip → c'.Contains ip)) ∨
      (maxCidrListItems < cidrs.length ∧ invert = false ∧
        ∀ ip, ∃ cidr ∈ cidrs, cidr.Contains ip) := by
  rw [addressMeaning_iff_items hne]
  apply or_congr_right
  by_cases hlen : cidrs.length ≤ maxCidrListItems
  · have hnot : ¬ maxCidrListItems < cidrs.length := by omega
    simp only [itemsAccept_iff_of_le hne hlen, hlen, hnot, true_and, false_and, or_false]
  · have hlt : maxCidrListItems < cidrs.length := by omega
    simp only [itemsAccept_iff_of_lt hlt, hlen, hlt, false_and, true_and, false_or]

/-! ## An inverted list of two networks -/

/-- `10.0.0.0/8` and `192.168.0.0/16`. -/
def twoNetworks : List Cidr := [⟨10, 0, 0, 0, 8⟩, ⟨192, 168, 0, 0, 16⟩]

/-- A row that bypasses everything. -/
def bypassAllRow : PolicyRow := { sampleRow 1 actionBypass Key.zero with protocol := 255 }

theorem addressMeaning_iff_twoNetworks :
    AddressMeaning .srcIp WireIds.start 0 bypassAllRow twoNetworks false :=
  (addressMeaning_iff .srcIp WireIds.start 0 bypassAllRow twoNetworks false (List.cons_ne_nil _ _)).mpr
    (.inr (.inl ⟨by decide, .inl rfl⟩))

/-- **Inverted**, the list accepts `10.0.0.0`, which it contains. -/
theorem not_addressMeaning_twoNetworks :
    ¬ AddressMeaning .srcIp WireIds.start 0 bypassAllRow twoNetworks true := by
  have hne : twoNetworks ≠ [] := List.cons_ne_nil _ _
  rw [addressMeaning_iff_items hne, itemsAccept_iff_of_le hne (by decide)]
  rintro ((h | h) | h | h)
  · exact h.1 rfl
  · exact absurd h (by decide)
  · cases h
  · have := h _ List.mem_cons_self _ (List.mem_cons_of_mem _ List.mem_cons_self) (sAddr 10 0 0 0)
    exact absurd (this (by decide)) (by decide)

end NetEncryptor

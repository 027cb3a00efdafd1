import NetEncryptor.Base.CStrings
import NetEncryptor.Base.ProbeTable
import NetEncryptor.Core.Flow

/-!
# The ARP cache

Addresses with their MAC addresses in a table with open addressing, in which the address `0` marks
an empty entry, and the text file that keeps them from one start to the next.  `arpCache_map` says
that the cache is a map, and stays the same one when it is saved and loaded.
-/

namespace NetEncryptor

open CStrings

def arpCacheSize : ℕ := 2048

/-- `struct arp_entry`, but for the time of the insertion, which nothing reads. -/
structure ArpEntry where
  ip : UInt32
  mac : Mac
  deriving DecidableEq

/-- The entries of `struct arp_cache`, and `persist_dirty`. -/
structure ArpCache where
  entries : Buffer ArpEntry
  persistDirty : Bool

/-- A zeroed `struct arp_cache`. -/
def ArpCache.init : ArpCache where
  entries _ := ⟨0, Mac.zero⟩
  persistDirty := false

def arpHash (ip : UInt32) : UInt32 :=
  let x := ip ^^^ ip >>> 16
  let x := x * 0x7feb352d
  let x := x ^^^ x >>> 15
  let x := x * 0x846ca68b
  x ^^^ x >>> 16

/-- `idx`. -/
def arpIdx (h : UInt32) (i : ℕ) : ℕ := ((h + UInt32.ofNat i) &&& 2047).toNat

def arpLookupLoop (c : ArpCache) (ip h : UInt32) : List ℕ → Option Mac
  | [] => none
  | i :: is =>
    let e := c.entries (arpIdx h i)
    if e.ip = 0 then none else if e.ip = ip then some e.mac else arpLookupLoop c ip h is

/-- `mac_out`, if `1` is returned. -/
def arpCacheLookup (c : ArpCache) (ip : UInt32) : Option Mac :=
  arpLookupLoop c ip (arpHash ip) (List.range arpCacheSize)

def arpInsertLoop (c : ArpCache) (ip : UInt32) (mac : Mac) (h : UInt32) : List ℕ → ArpCache
  | [] => c
  | i :: is =>
    let idx := arpIdx h i
    if (c.entries idx).ip = 0 ∨ (c.entries idx).ip = ip then
      { entries := c.entries.set idx ⟨ip, mac⟩, persistDirty := true }
    else arpInsertLoop c ip mac h is

def arpCacheInsert (c : ArpCache) (ip : UInt32) (mac : Mac) : ArpCache :=
  arpInsertLoop c ip mac (arpHash ip) (List.range arpCacheSize)

/-! ## The file -/

def arpLine (e : ArpEntry) : Str :=
  decimal (ntohl e.ip) ++ ' ' :: (joined ':' (e.mac.val.map hex2) ++ ['\n'])

def arpSaved (c : ArpCache) : List ArpEntry :=
  ((List.range arpCacheSize).map c.entries).filter fun e => e.ip ≠ 0

/-- The text of the file, unless it stays as it is, and the cache afterwards; for a file that can be
opened. -/
def arpCacheSave (c : ArpCache) : Option Str × ArpCache :=
  if c.persistDirty = false then (none, c)
  else (some ((arpSaved c).flatMap arpLine), { c with persistDirty := false })

/-- `(uint8_t)b0` and so on. -/
def macOf (bytes : List ℕ) : Mac :=
  ⟨(List.range 6).map fun i => UInt8.ofNat (bytes.getD i 0), by rw [List.length_map]; rfl⟩

/-- The `fscanf` of a line: the address, the six bytes and what stands behind them, if all seven
numbers are there. -/
def arpScan (s : Str) : Option (ℕ × List ℕ × Str) :=
  match scanU s with
  | none => none
  | some (ipHost, rest) =>
    (scanHexes 5 (rest.dropWhile isSpace)).map fun r => (ipHost, r.1, r.2.dropWhile isSpace)

/-- The loop of `arp_cache_load`; every round takes a character at least. -/
def arpLoadLoop : ℕ → ArpCache → Str → ArpCache
  | 0, c, _ => c
  | fuel + 1, c, s =>
    match arpScan s with
    | none => c
    | some (ipHost, bytes, rest) =>
      arpLoadLoop fuel (arpCacheInsert c (htonl ipHost) (macOf bytes)) rest

/-- `none` for a file that is not there. -/
def arpCacheLoad (c : ArpCache) : Option Str → ArpCache
  | none => c
  | some text => { arpLoadLoop text.length c text with persistDirty := false }

/-! ## The table behind it -/

/-- The hash of the table. -/
def arpKey (ip : UInt32) : ℕ := (arpHash ip).toNat

/-- The cache as a table of slots. -/
def ArpCache.slots (c : ArpCache) : ProbeTable UInt32 Mac := fun j =>
  if (c.entries j).ip = 0 then none else some ((c.entries j).ip, (c.entries j).mac)

theorem slots_dirty (c : ArpCache) (dirty : Bool) :
    ({ c with persistDirty := dirty } : ArpCache).slots = c.slots := rfl

theorem slots_init : ArpCache.init.slots = ProbeTable.empty := rfl

section

variable {c : ArpCache} {ip : UInt32} {mac : Mac} {i : ℕ}

theorem arpIdx_eq (hi : i < arpCacheSize) :
    arpIdx (arpHash ip) i = ProbeTable.place arpCacheSize arpKey ip i := by
  have hi' : i < 4294967296 := lt_trans hi (by decide)
  have hmask : (2047 : UInt32).toNat = 2 ^ 11 - 1 := rfl
  unfold arpIdx ProbeTable.place arpKey arpCacheSize
  rw [UInt32.toNat_and, hmask, Nat.and_two_pow_sub_one_eq_mod, UInt32.toNat_add,
    UInt32.toNat_ofNat_of_lt' hi', Nat.mod_mod_of_dvd _ (by decide)]

theorem ends_slots {j : ℕ} :
    ProbeTable.Ends ip (c.slots j) ↔ (c.entries j).ip = 0 ∨ (c.entries j).ip = ip := by
  unfold ProbeTable.Ends ArpCache.slots
  split_ifs with hzero
  · simp [hzero]
  · simp [hzero]

theorem arpLookupLoop_eq (hip : ip ≠ 0) :
    ∀ is : List ℕ, (∀ i ∈ is, i < arpCacheSize) →
      arpLookupLoop c ip (arpHash ip) is =
        (is.find? fun i => decide (ProbeTable.Ends ip
            (c.slots (ProbeTable.place arpCacheSize arpKey ip i)))).bind fun i =>
          (c.slots (ProbeTable.place arpCacheSize arpKey ip i)).map Prod.snd := by
  intro is
  induction is with
  | nil => intro _; rfl
  | cons i is ih =>
    intro his
    have hidx := @arpIdx_eq ip i (his i List.mem_cons_self)
    rw [arpLookupLoop, List.find?_cons]
    simp only [hidx, ends_slots]
    by_cases hzero : (c.entries (ProbeTable.place arpCacheSize arpKey ip i)).ip = 0
    · simp [hzero, ArpCache.slots]
    · by_cases hsame : (c.entries (ProbeTable.place arpCacheSize arpKey ip i)).ip = ip
      · simp [hsame, hip, ArpCache.slots]
      · simp only [hzero, hsame, if_false, or_self, decide_false]
        have := ih fun i' hi' => his i' (List.mem_cons_of_mem _ hi')
        simpa only [ends_slots] using this

theorem arpCacheLookup_eq (hip : ip ≠ 0) :
    arpCacheLookup c ip = ProbeTable.find arpCacheSize arpKey c.slots ip :=
  arpLookupLoop_eq hip _ fun _ => List.mem_range.mp

theorem arpInsertLoop_eq : ∀ is : List ℕ, (∀ i ∈ is, i < arpCacheSize) →
    arpInsertLoop c ip mac (arpHash ip) is =
      match is.find? fun i => decide (ProbeTable.Ends ip
          (c.slots (ProbeTable.place arpCacheSize arpKey ip i))) with
      | none => c
      | some i =>
        { entries := c.entries.set (ProbeTable.place arpCacheSize arpKey ip i) ⟨ip, mac⟩
          persistDirty := true } := by
  intro is
  induction is with
  | nil => intro _; rfl
  | cons i is ih =>
    intro his
    have hidx := @arpIdx_eq ip i (his i List.mem_cons_self)
    rw [arpInsertLoop, List.find?_cons]
    simp only [hidx, ends_slots]
    split_ifs with hends
    · simp only [hends, decide_true]
    · simp only [hends, decide_false]
      have := ih fun i' hi' => his i' (List.mem_cons_of_mem _ hi')
      simpa only [ends_slots] using this

theorem arpCacheInsert_eq : arpCacheInsert c ip mac =
    match ProbeTable.probe arpCacheSize arpKey c.slots ip with
    | none => c
    | some i =>
      { entries := c.entries.set (ProbeTable.place arpCacheSize arpKey ip i) ⟨ip, mac⟩
        persistDirty := true } := by
  unfold arpCacheInsert ProbeTable.probe
  rw [arpInsertLoop_eq _ fun i hi => List.mem_range.mp hi]

theorem slots_set {j : ℕ} (hip : ip ≠ 0) {dirty : Bool} :
    (ArpCache.mk (c.entries.set j ⟨ip, mac⟩) dirty).slots = c.slots.set j (some (ip, mac)) := by
  funext j'
  unfold ArpCache.slots
  by_cases hj : j' = j
  · subst hj
    simp only [Buffer.set_self, if_neg hip]
  · simp only [Buffer.set_of_ne hj]

/-- **An insertion** is one into the table; that of the address `0` is none. -/
theorem slots_insert : (arpCacheInsert c ip mac).slots =
    if ip = 0 then c.slots else ProbeTable.insert arpCacheSize arpKey c.slots ip mac := by
  rw [arpCacheInsert_eq]
  cases hprobe : ProbeTable.probe arpCacheSize arpKey c.slots ip with
  | none =>
    simp only [ProbeTable.insert_of_none hprobe, ite_self]
  | some i =>
    simp only [ProbeTable.insert_of_probe hprobe]
    split_ifs with hip
    · subst hip
      have hends := ends_slots.mp (ProbeTable.probe_eq_some_iff.mp hprobe).2.1
      rw [or_self] at hends
      funext j
      unfold ArpCache.slots
      by_cases hj : j = ProbeTable.place arpCacheSize arpKey 0 i
      · subst hj
        simp only [Buffer.set_self, if_true, hends]
      · simp only [Buffer.set_of_ne hj]
    · exact slots_set hip

theorem arpCacheInsert_clean (h : (arpCacheInsert c ip mac).persistDirty = false) :
    arpCacheInsert c ip mac = c := by
  rw [arpCacheInsert_eq] at h ⊢
  cases hprobe : ProbeTable.probe arpCacheSize arpKey c.slots ip with
  | none => rfl
  | some i =>
    rw [hprobe] at h
    cases h

theorem arpLookupLoop_zero (h : UInt32) (is : List ℕ) : arpLookupLoop c 0 h is = none := by
  induction is with
  | nil => rfl
  | cons i is ih =>
    rw [arpLookupLoop]
    simp only [ih]
    split_ifs
    · rfl
    · rfl

theorem arpCacheLookup_zero : arpCacheLookup c 0 = none := arpLookupLoop_zero _ _

end

/-! ## The text -/

theorem ntohl_ntohl (x : UInt32) : ntohl (UInt32.ofNat (ntohl x)) = x.toNat := by
  have hx := x.toNat_lt
  have swap : ∀ a b c d : ℕ, a < 256 → b < 256 → c < 256 → d < 256 →
      ∀ m, m = 2 ^ 24 * a + 2 ^ 16 * b + 2 ^ 8 * c + d →
        m % 256 = d ∧ m / 256 % 256 = c ∧ m / 256 / 256 % 256 = b ∧ m / 256 / 256 / 256 = a := by
    intro a b c d _ _ _ _ m hm
    refine ⟨?_, ?_, ?_, ?_⟩ <;> omega
  have hof := UInt32.toNat_ofNat_of_lt' (ntohl_lt x)
  generalize UInt32.ofNat (ntohl x) = y at hof ⊢
  simp only [ntohl] at hof ⊢
  obtain ⟨h₀, h₁, h₂, h₃⟩ := swap _ _ _ _ (Nat.mod_lt _ (by omega)) (Nat.mod_lt _ (by omega))
    (Nat.mod_lt _ (by omega)) (by omega) _ hof
  rw [h₀, h₁, h₂, h₃]
  omega

theorem htonl_ntohl (x : UInt32) : htonl (ntohl x) = x := by
  rw [htonl, ntohl_ntohl, UInt32.ofNat_toNat]

theorem macOf_toNat (mac : Mac) : macOf (mac.val.map UInt8.toNat) = mac := by
  have hlen : mac.val.length = 6 := mac.property
  refine Subtype.ext (List.ext_getElem ?_ fun i h₁ h₂ => ?_)
  · rw [macOf, List.length_map, List.length_range, hlen]
  · simp only [macOf, List.getElem_map, List.getElem_range, List.getD_eq_getElem?_getD,
      List.getElem?_eq_getElem h₂, Option.map_some, Option.getD_some, UInt8.ofNat_toNat,
      List.getElem?_map]

theorem isSpace_head_decimal (n : ℕ) (s : Str) : ∀ c ∈ (decimal n ++ s).head?, isSpace c = false := by
  intro c hc
  have hne : decimal n ≠ [] := Nat.toDigits_ne_nil
  rw [List.head?_append_of_ne_nil _ hne] at hc
  have hdigit := isDigit_of_mem_decimal (List.mem_of_mem_head? hc)
  exact isSpace_eq_false_of_isXDigit (by rw [isXDigit, hdigit]; rfl)

theorem dropWhile_lines (es : List ArpEntry) :
    (es.flatMap arpLine).dropWhile isSpace = es.flatMap arpLine := by
  cases es with
  | nil => rfl
  | cons e es =>
    have hhead := isSpace_head_decimal (ntohl e.ip)
      (' ' :: (joined ':' (e.mac.val.map hex2) ++ ['\n']) ++ es.flatMap arpLine)
    rw [List.flatMap_cons, arpLine, List.append_assoc]
    generalize decimal (ntohl e.ip) ++ _ = s at hhead ⊢
    cases s with
    | nil => rfl
    | cons c s => exact List.dropWhile_cons_of_neg (by simp [hhead c rfl])

theorem newline_head (es : List ArpEntry) :
    ∀ c ∈ ('\n' :: es.flatMap arpLine).head?, isXDigit c = false := by
  intro c hc
  cases hc
  rfl

theorem dropWhile_joined_hex2 (b : UInt8) (bs : List UInt8) (s : Str) :
    (joined ':' ((b :: bs).map hex2) ++ s).dropWhile isSpace =
      joined ':' ((b :: bs).map hex2) ++ s := by
  obtain ⟨t, ht⟩ : ∃ t, joined ':' ((b :: bs).map hex2) = hex2 b ++ t := by
    cases bs with
    | nil => exact ⟨[], by rw [List.map_singleton, joined_singleton, List.append_nil]⟩
    | cons b' bs => exact ⟨_, by rw [List.map_cons, List.map_cons, joined_cons_cons]⟩
  have hdigits := (hex2_spec b.toNat b.toNat_lt).2
  rw [UInt8.ofNat_toNat, List.all_eq_true] at hdigits
  have hfirst := isSpace_eq_false_of_isXDigit (hdigits _ List.mem_cons_self)
  rw [ht, hex2, List.cons_append, List.cons_append]
  exact List.dropWhile_cons_of_neg (by simp [hfirst])

/-- **Reading a line.** -/
theorem arpScan_line (e : ArpEntry) (es : List ArpEntry) :
    arpScan ((e :: es).flatMap arpLine) =
      some (ntohl e.ip, e.mac.val.map UInt8.toNat, es.flatMap arpLine) := by
  obtain ⟨b, bs, hmac⟩ : ∃ b bs, e.mac.val = b :: bs := by
    cases hval : e.mac.val with
    | nil => simpa [hval] using e.mac.property
    | cons b bs => exact ⟨b, bs, rfl⟩
  have hbs : bs.length = 5 := by
    have := e.mac.property
    rw [hmac, List.length_cons] at this
    omega
  rw [List.flatMap_cons, arpLine, hmac]
  simp only [List.append_assoc, List.cons_append, List.nil_append]
  unfold arpScan
  rw [scanU_decimal (by rintro c hc; cases hc; rfl)]
  have hspace : (' ' :: (joined ':' ((b :: bs).map hex2) ++ '\n' :: es.flatMap arpLine)).dropWhile
      isSpace = joined ':' ((b :: bs).map hex2) ++ '\n' :: es.flatMap arpLine := by
    rw [List.dropWhile_cons_of_pos (by rfl)]
    exact dropWhile_joined_hex2 b bs _
  have hhexes := scanHexes_joined (newline_head es) b bs
  rw [hbs] at hhexes
  simp only [hspace, hhexes, Option.map_some]
  rw [List.dropWhile_cons_of_pos (by rfl), dropWhile_lines]

theorem length_le_lines (es : List ArpEntry) : es.length ≤ (es.flatMap arpLine).length := by
  induction es with
  | nil => exact Nat.le_refl 0
  | cons e es ih =>
    rw [List.flatMap_cons, List.length_append, List.length_cons, arpLine, List.length_append,
      List.length_cons]
    omega

/-- **Reading the file.** -/
theorem arpLoadLoop_lines (es : List ArpEntry) : ∀ (fuel : ℕ) (c : ArpCache), es.length ≤ fuel →
    arpLoadLoop fuel c (es.flatMap arpLine) = es.foldl (fun c e => arpCacheInsert c e.ip e.mac) c := by
  induction es with
  | nil =>
    intro fuel c _
    cases fuel with
    | zero => rfl
    | succ fuel => rfl
  | cons e es ih =>
    intro fuel c hfuel
    cases fuel with
    | zero => simp at hfuel
    | succ fuel =>
      rw [List.length_cons, Nat.add_le_add_iff_right] at hfuel
      rw [arpLoadLoop, arpScan_line]
      simp only [htonl_ntohl, macOf_toNat]
      rw [ih fuel _ hfuel, List.foldl_cons]

/-! ## Insertions -/

theorem slots_foldl_insert (es : List ArpEntry) : ∀ c : ArpCache, (∀ e ∈ es, e.ip ≠ 0) →
    (es.foldl (fun c e => arpCacheInsert c e.ip e.mac) c).slots =
      ProbeTable.insertAll arpCacheSize arpKey c.slots (es.map fun e => (e.ip, e.mac)) := by
  induction es with
  | nil => intro c _; rfl
  | cons e es ih =>
    intro c hne
    rw [List.foldl_cons, ih _ fun e' he' => hne e' (List.mem_cons_of_mem _ he'), slots_insert,
      if_neg (hne e List.mem_cons_self), List.map_cons, ProbeTable.insertAll_cons]

theorem entries_slots (c : ArpCache) :
    ProbeTable.entries arpCacheSize c.slots = (arpSaved c).map fun e => (e.ip, e.mac) := by
  unfold ProbeTable.entries arpSaved
  induction List.range arpCacheSize with
  | nil => rfl
  | cons j js ih =>
    rw [List.filterMap_cons, ih, List.map_cons, List.filter_cons]
    unfold ArpCache.slots
    by_cases hzero : (c.entries j).ip = 0
    · simp [hzero]
    · simp [hzero]

inductive ArpCall
  | insert (ip : UInt32) (mac : Mac)
  | lookup (ip : UInt32)

def ArpCall.run (c : ArpCache) : ArpCall → ArpCache
  | insert ip mac => arpCacheInsert c ip mac
  | lookup _ => c

def inserted (calls : List ArpCall) : List (UInt32 × Mac) :=
  calls.filterMap fun
    | .insert ip mac => if ip = 0 then none else some (ip, mac)
    | .lookup _ => none

theorem slots_run (calls : List ArpCall) : ∀ c : ArpCache, (calls.foldl ArpCall.run c).slots =
    ProbeTable.insertAll arpCacheSize arpKey c.slots (inserted calls) := by
  induction calls with
  | nil => intro c; rfl
  | cons call calls ih =>
    intro c
    rw [List.foldl_cons, ih]
    unfold inserted
    rw [List.filterMap_cons]
    cases call with
    | lookup ip => rfl
    | insert ip mac =>
      simp only [ArpCall.run, slots_insert]
      split_ifs with hip
      · rfl
      · rw [ProbeTable.insertAll_cons]

theorem run_clean (calls : List ArpCall)
    (h : (calls.foldl ArpCall.run ArpCache.init).persistDirty = false) :
    calls.foldl ArpCall.run ArpCache.init = ArpCache.init := by
  induction calls using List.reverseRecOn with
  | nil => rfl
  | append_singleton calls call ih =>
    rw [List.foldl_append, List.foldl_cons, List.foldl_nil] at h ⊢
    cases call with
    | lookup ip => exact ih h
    | insert ip mac =>
      simp only [ArpCall.run] at h ⊢
      have hclean := arpCacheInsert_clean h
      rw [hclean] at h ⊢
      exact ih h

/-- **Saving and loading** keeps the slots' entries. -/
theorem slots_load_save {c : ArpCache} (h : c.persistDirty = true) :
    (arpCacheLoad ArpCache.init (arpCacheSave c).1).slots =
      ProbeTable.insertAll arpCacheSize arpKey ProbeTable.empty
        (ProbeTable.entries arpCacheSize c.slots) := by
  have hne : ∀ e ∈ arpSaved c, e.ip ≠ 0 := fun e he => by
    simpa using (List.mem_filter.mp he).2
  rw [arpCacheSave, if_neg (by rw [h]; decide), entries_slots]
  simp only [arpCacheLoad]
  rw [slots_dirty, arpLoadLoop_lines _ _ _ (length_le_lines _), slots_foldl_insert _ _ hne,
    slots_init]

/-- **The ARP cache is a map**, and the same map after it has been saved and loaded.  A cache that
nothing was put into is not saved: then no file of an earlier run is there to be loaded. -/
theorem arpCache_map (calls : List ArpCall)
    (hcard : ((inserted calls).map Prod.fst).toFinset.card ≤ arpCacheSize) :
    (∀ ip ≠ 0, arpCacheLookup (calls.foldl ArpCall.run ArpCache.init) ip =
      ProbeTable.latest ip (inserted calls)) ∧
    ∀ ip, arpCacheLookup (arpCacheLoad ArpCache.init
        (arpCacheSave (calls.foldl ArpCall.run ArpCache.init)).1) ip =
      arpCacheLookup (calls.foldl ArpCall.run ArpCache.init) ip := by
  have hslots := slots_run calls ArpCache.init
  rw [slots_init] at hslots
  have hkeys : ∀ e ∈ inserted calls, e.1 ∈ ((inserted calls).map Prod.fst).toFinset :=
    fun e he => List.mem_toFinset.mpr (List.mem_map_of_mem he)
  obtain ⟨hchained, -, hfind⟩ := ProbeTable.find_insertAll hcard hkeys
  rw [← hslots] at hchained hfind
  refine ⟨fun ip hip => by rw [arpCacheLookup_eq hip, hfind ip], fun ip => ?_⟩
  by_cases hip : ip = 0
  · rw [hip, arpCacheLookup_zero, arpCacheLookup_zero]
  cases hdirty : (calls.foldl ArpCall.run ArpCache.init).persistDirty with
  | false =>
    rw [run_clean calls hdirty]
    rfl
  | true =>
    rw [arpCacheLookup_eq hip, arpCacheLookup_eq hip, slots_load_save hdirty]
    exact ProbeTable.find_copy hchained ip

/-- An address that moves to another peer, and one that stays. -/
def sampleArpCalls : List ArpCall :=
  [.insert 0x0100000a ⟨[2, 0, 0, 0, 0, 1], rfl⟩, .insert 0x0200000a ⟨[2, 0, 0, 0, 0, 3], rfl⟩,
    .lookup 0x0100000a, .insert 0x0100000a ⟨[2, 0, 0, 0, 0, 0xab], rfl⟩]

theorem arpCache_map_movedPeer :
    arpCacheLookup (sampleArpCalls.foldl ArpCall.run ArpCache.init) 0x0100000a =
        some ⟨[2, 0, 0, 0, 0, 0xab], rfl⟩ ∧
      arpCacheLookup (arpCacheLoad ArpCache.init
          (arpCacheSave (sampleArpCalls.foldl ArpCall.run ArpCache.init)).1) 0x0100000a =
        some ⟨[2, 0, 0, 0, 0, 0xab], rfl⟩ := by
  obtain ⟨hlookup, hload⟩ := arpCache_map sampleArpCalls (by decide)
  have hfound := hlookup 0x0100000a (by decide)
  exact ⟨hfound, (hload 0x0100000a).trans hfound⟩

end NetEncryptor

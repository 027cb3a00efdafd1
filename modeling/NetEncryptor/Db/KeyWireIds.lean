import NetEncryptor.Base.MemoTable
import NetEncryptor.Base.Runs
import NetEncryptor.Db.WireId

/-!
# Wire ids follow keys

While the rows of a profile are loaded, `key_wire_map` gives every key one wire id.  The map has
room for 64 keys; a key that comes when it is full gets an id, but is not recorded, and gets another
one when it comes again.  A load is a run of calls of `ne_wire_id_for_encrypt_key`; it is a history
of a table with 64 places (`WireIdLoad.ok_of_run`), from which `lawful_iff` says when a load gives
every key one id.
-/

namespace NetEncryptor

open MemoTable

/-- The arguments of a call of `ne_wire_id_for_encrypt_key`. -/
structure WireIdCall where
  key : Key
  keyLen : ℕ
  dbPolicyId : ℤ
  keyLen_eq : keyLen = 16 ∨ keyLen = 32

/-- What the keys of two calls are compared by. -/
structure KeyIdent where
  keyLen : ℕ
  bytes : List UInt8
  deriving DecidableEq

def WireIdCall.ident (c : WireIdCall) : KeyIdent := ⟨c.keyLen, c.key.val.take c.keyLen⟩

def KeyWireEntry.ident (e : KeyWireEntry) : KeyIdent := ⟨e.keyLen, e.key⟩

/-- The maps, and the keys of the calls so far with their wire ids. -/
structure WireIdLoad where
  wireIds : WireIds
  trace : List (KeyIdent × ℕ)

def WireIdLoad.start : WireIdLoad := ⟨WireIds.start, []⟩

/-- One call; `none` when it returns `-1`. -/
def WireIdLoad.call (s : WireIdLoad) (c : WireIdCall) : Option WireIdLoad :=
  match neWireIdForEncryptKey s.wireIds c.key c.keyLen c.dbPolicyId with
  | none => none
  | some (id, w) => some ⟨w, s.trace ++ [(c.ident, id)]⟩

/-- Calls with one key get one id, calls with different keys get different ones, and all of them
are in range. -/
structure Lawful (trace : List (KeyIdent × ℕ)) : Prop where
  same : Same trace
  apart : ∀ a ∈ trace, ∀ b ∈ trace, a.1 ≠ b.1 → a.2 ≠ b.2
  range : ∀ a ∈ trace, 1 ≤ a.2 ∧ a.2 ≤ 255

/-! ## The calls of a load -/

theorem AesBits.keySize_eq (bits : AesBits) : bits.keySize = 16 ∨ bits.keySize = 32 := by
  cases bits <;> decide

/-- The call for a row that encrypts. -/
def PolicyRow.call (row : PolicyRow) : WireIdCall where
  key := row.key
  keyLen := row.aesBits.keySize
  dbPolicyId := row.id
  keyLen_eq := row.aesBits.keySize_eq

def callsOf (rows : List PolicyRow) : List WireIdCall :=
  (rows.filter fun row => row.action != actionBypass).map PolicyRow.call

theorem wireIdsAfter_eq_run : ∀ {rows : List PolicyRow} {s : WireIdLoad},
    wireIdsAfter s.wireIds rows =
      (Runs.run WireIdLoad.call s (callsOf rows)).map WireIdLoad.wireIds := by
  intro rows
  induction rows with
  | nil => exact fun {s} => rfl
  | cons row rows ih =>
    intro s
    rw [wireIdsAfter, policyBase]
    by_cases hrow : row.action = actionBypass
    · have hcalls : callsOf (row :: rows) = callsOf rows := by
        simp [callsOf, hrow]
      rw [if_pos hrow, hcalls]
      exact ih
    · have hcalls : callsOf (row :: rows) = row.call :: callsOf rows := by
        simp [callsOf, hrow]
      have hid : neWireIdForEncryptKey s.wireIds row.key row.aesBits.keySize row.id =
          neWireIdForEncryptKey s.wireIds row.call.key row.call.keyLen row.call.dbPolicyId := rfl
      rw [if_neg hrow, hcalls, Runs.run, WireIdLoad.call, hid]
      cases neWireIdForEncryptKey s.wireIds row.call.key row.call.keyLen row.call.dbPolicyId with
      | none => rfl
      | some r => exact @ih ⟨r.2, s.trace ++ [(row.call.ident, r.1)]⟩

/-! ## A call as a step of the table -/

section

variable {s s' : WireIdLoad} {c : WireIdCall} {calls : List WireIdCall}

/-- The entries of the map are in the table, the ids in use are those of the trace, and in range. -/
structure WireIdLoad.Ok (s : WireIdLoad) : Prop where
  trace : Trace neKeyWireMapMax s.trace
  keys : s.wireIds.map.map KeyWireEntry.ident = firsts neKeyWireMapMax (s.trace.map Prod.fst)
  entries : ∀ e ∈ s.wireIds.map, (e.ident, e.wireId) ∈ s.trace
  used : ∀ a ∈ s.trace, s.wireIds.used a.2 = true
  range : ∀ a ∈ s.trace, 1 ≤ a.2 ∧ a.2 ≤ 255

theorem WireIdLoad.ok_start : WireIdLoad.start.Ok where
  trace := .nil
  keys := rfl
  entries e he := by cases he
  used a ha := by cases ha
  range a ha := by cases ha

theorem WireIds.ident_of_find {w : WireIds} {e : KeyWireEntry}
    (h : w.find c.key c.keyLen = some e) : e.ident = c.ident := by
  have he := List.find?_some h
  obtain ⟨hlen, hkey⟩ := of_decide_eq_true he
  rw [KeyWireEntry.ident, hlen, hkey, WireIdCall.ident]

theorem WireIds.ident_ne_of_find {w : WireIds} (h : w.find c.key c.keyLen = none) :
    c.ident ∉ w.map.map KeyWireEntry.ident := by
  intro hmem
  obtain ⟨e, he, hident⟩ := List.mem_map.mp hmem
  have hnot := List.find?_eq_none.mp h e he
  obtain ⟨hlen, hkey⟩ := KeyIdent.mk.inj hident
  exact hnot (decide_eq_true ⟨hlen, hkey⟩)

theorem WireIdLoad.Ok.call (h : s.Ok) (hcall : s.call c = some s') : s'.Ok := by
  unfold WireIdLoad.call at hcall
  split at hcall
  · cases hcall
  rename_i id w hid
  cases hcall
  rcases neWireIdForEncryptKey_eq_some hid with
    ⟨e, he, hfind, rfl, rfl⟩ | ⟨hfind, hclaim, hused, hmap⟩
  · have hident := WireIds.ident_of_find hfind
    have hentry : (c.ident, e.wireId) ∈ s.trace := hident ▸ h.entries e he
    have hkey : c.ident ∈ firsts neKeyWireMapMax (s.trace.map Prod.fst) := by
      rw [← h.keys, ← hident]
      exact List.mem_map_of_mem he
    refine ⟨.known h.trace hkey hentry, ?_, fun e he => List.mem_append_left _ (h.entries e he),
      fun a ha => h.used a (mem_of_mem_concat hentry ha),
      fun a ha => h.range a (mem_of_mem_concat hentry ha)⟩
    rw [List.map_append, List.map_singleton, firsts_concat, note_of_mem hkey]
    exact h.keys
  · obtain ⟨hlo, hhi, hfree⟩ := IdPool.claim_spec hclaim
    have hkey : c.ident ∉ firsts neKeyWireMapMax (s.trace.map Prod.fst) := by
      rw [← h.keys]
      exact WireIds.ident_ne_of_find hfind
    have hfresh : ∀ a ∈ s.trace, a.2 ≠ id := by
      intro a ha heq
      have := h.used a ha
      rw [heq, hfree] at this
      cases this
    have hlen : (firsts neKeyWireMapMax (s.trace.map Prod.fst)).length = s.wireIds.map.length := by
      rw [← h.keys, List.length_map]
    have hnew (a : KeyIdent × ℕ) (ha : a ∈ s.trace ++ [(c.ident, id)]) :
        a ∈ s.trace ∨ a.2 = id := by
      rcases List.mem_append.mp ha with ha | ha
      · exact .inl ha
      · exact .inr (congrArg Prod.snd (List.mem_singleton.mp ha))
    refine ⟨.fresh h.trace hkey hfresh, ?_, fun e he => ?_, fun a ha => ?_, fun a ha => ?_⟩
    · rw [List.map_append, List.map_singleton, firsts_concat, note, hlen, hmap, ← h.keys]
      rw [← h.keys] at hkey
      split_ifs with hroom hfull hfull
      · exact absurd hfull (not_or.mpr ⟨hkey, by omega⟩)
      · rw [List.map_append]
        rfl
      · rfl
      · exact absurd (.inr (by omega)) hfull
    · simp only [hmap] at he
      split_ifs at he
      · rcases List.mem_append.mp he with he | he
        · exact List.mem_append_left _ (h.entries e he)
        · rw [List.mem_singleton.mp he]
          exact List.mem_append_right _ List.mem_cons_self
      · exact List.mem_append_left _ (h.entries e he)
    · simp only [hused]
      by_cases hid : a.2 = id
      · rw [hid, Buffer.set_self]
      · rw [Buffer.set_of_ne hid]
        exact h.used a ((hnew a ha).resolve_right hid)
    · rcases hnew a ha with ha | hid
      · exact h.range a ha
      · rw [hid]
        exact ⟨hlo, hhi⟩

theorem WireIdLoad.map_fst_trace (h : Runs.run WireIdLoad.call s calls = some s') :
    s'.trace.map Prod.fst = s.trace.map Prod.fst ++ calls.map WireIdCall.ident := by
  induction calls generalizing s with
  | nil =>
    cases h
    rw [List.map_nil, List.append_nil]
  | cons c calls ih =>
    obtain ⟨s₁, hcall, hrest⟩ := Runs.run_cons.mp h
    unfold WireIdLoad.call at hcall
    split at hcall
    · cases hcall
    cases hcall
    rw [ih hrest, List.map_append, List.append_assoc]
    rfl

/-- **A load** without `-1` is a history of a table with 64 places. -/
theorem WireIdLoad.ok_of_run (h : Runs.run WireIdLoad.call .start calls = some s) : s.Ok :=
  Runs.invariant_run (fun _ _ _ hok hcall => hok.call hcall) WireIdLoad.ok_start h

/-- **Wire ids follow keys** exactly if every key that is used twice is among the first 64 different
ones. -/
theorem lawful_iff (h : Runs.run WireIdLoad.call .start calls = some s) :
    Lawful s.trace ↔ ∀ k, 2 ≤ (calls.map WireIdCall.ident).count k →
      k ∈ firsts neKeyWireMapMax (calls.map WireIdCall.ident) := by
  have hok := WireIdLoad.ok_of_run h
  have hkeys : s.trace.map Prod.fst = calls.map WireIdCall.ident := WireIdLoad.map_fst_trace h
  have hsame := hok.trace.same_iff
  rw [hkeys] at hsame
  constructor
  · intro hlawful
    exact hsame.mp hlawful.same
  · intro hcount
    exact ⟨hsame.mpr hcount, hok.trace.apart, hok.range⟩

end

/-- A key of 16 bytes that are all `i`. -/
def shortKeyCall (i : ℕ) (dbPolicyId : ℤ) : WireIdCall where
  key := Key.repeated (UInt8.ofNat i)
  keyLen := 16
  dbPolicyId := dbPolicyId
  keyLen_eq := .inl rfl

theorem lawful_iff_twice :
    ∃ s, Runs.run WireIdLoad.call .start
        [shortKeyCall 1 7, shortKeyCall 1 8, shortKeyCall 2 7] = some s ∧
      s.trace.map Prod.snd = [7, 7, 1] ∧ Lawful s.trace := by
  have hrun : (Runs.run WireIdLoad.call .start
      [shortKeyCall 1 7, shortKeyCall 1 8, shortKeyCall 2 7]).map
        (fun s => s.trace.map Prod.snd) = some [7, 7, 1] := by decide
  obtain ⟨s, hs, hids⟩ := Option.map_eq_some_iff.mp hrun
  refine ⟨s, hs, hids, (lawful_iff hs).mpr fun k hcount => ?_⟩
  have hall : ∀ k ∈ [shortKeyCall 1 7, shortKeyCall 1 8, shortKeyCall 2 7].map WireIdCall.ident,
      k ∈ firsts neKeyWireMapMax ([shortKeyCall 1 7, shortKeyCall 1 8, shortKeyCall 2 7].map
        WireIdCall.ident) := by decide
  exact hall k (List.count_pos_iff.mp (by omega))

/-- The calls for 65 keys, and for the last one again. -/
def fullMapCalls : List WireIdCall :=
  ((List.range' 1 65).map fun i : ℕ => shortKeyCall i i) ++ [shortKeyCall 65 66]

/-- The key that came when the map was full has the id 65 first and then 66. -/
theorem not_lawful_fullMap :
    ∃ s, Runs.run WireIdLoad.call .start fullMapCalls = some s ∧ ¬ Lawful s.trace := by
  have hrun : (Runs.run WireIdLoad.call .start fullMapCalls).map WireIdLoad.trace =
      some ((fullMapCalls.map WireIdCall.ident).zip (List.range' 1 66)) := by decide +kernel
  obtain ⟨s, hs, htrace⟩ := Option.map_eq_some_iff.mp hrun
  refine ⟨s, hs, fun h => ?_⟩
  have hsame := h.same ((shortKeyCall 65 65).ident, 65) (by rw [htrace]; decide +kernel)
    ((shortKeyCall 65 66).ident, 66) (by rw [htrace]; decide +kernel) rfl
  exact absurd hsame (by decide)

end NetEncryptor

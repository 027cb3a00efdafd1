import Mathlib.Data.Nat.ModEq
import NetEncryptor.Base.Buffer

/-!
# Rings of two parties

A ring of `n` places into which one party writes and from which another one reads, with a free
running 32-bit counter for each: the entries between the two counters are the queue of the ring.
The counters wrap, and nobody notices as `n` divides `2 ^ 32`.

A party has a copy of both counters.  Its own copy is ahead of the shared counter by the entries that
it has in hand; the copy of the other counter is behind, as the other party goes on at any time.
`WriterOk` and `ReaderOk` say so for the two parties, and every step of either party keeps both.
-/

structure SharedRing (α : Type*) where
  producer : UInt32
  consumer : UInt32
  slots : Buffer α

namespace SharedRing

variable {α : Type*}

/-! ## Counters -/

/-- How far the counter `a` is ahead of `b`. -/
def gap (a b : UInt32) : ℕ := (a - b).toNat

theorem gap_eq (a b : UInt32) : gap a b = (a.toNat + 2 ^ 32 - b.toNat) % 2 ^ 32 := by
  have := b.toNat_lt
  rw [gap, UInt32.toNat_sub]
  congr 1
  omega

theorem gap_lt (a b : UInt32) : gap a b < 2 ^ 32 := (a - b).toNat_lt

@[simp] theorem gap_self (a : UInt32) : gap a a = 0 := by simp [gap]

theorem gap_add_left {a b k : UInt32} (h : gap a b + k.toNat < 2 ^ 32) :
    gap (a + k) b = gap a b + k.toNat := by
  rw [gap_eq] at h ⊢
  rw [gap_eq, UInt32.toNat_add]
  have := a.toNat_lt
  have := b.toNat_lt
  omega

theorem gap_add_right {a b k : UInt32} (h : k.toNat ≤ gap a b) :
    gap a (b + k) = gap a b - k.toNat := by
  rw [gap_eq] at h ⊢
  rw [gap_eq, UInt32.toNat_add]
  have := a.toNat_lt
  have := b.toNat_lt
  omega

theorem gap_add_gap {a b c : UInt32} (h : gap a b + gap b c < 2 ^ 32) :
    gap a b + gap b c = gap a c := by
  rw [gap_eq, gap_eq] at h ⊢
  rw [gap_eq]
  have := a.toNat_lt
  have := b.toNat_lt
  have := c.toNat_lt
  omega

/-- The place of an entry does not depend on how often its counter has wrapped. -/
theorem toNat_add_mod {n : ℕ} (hn : n ∣ 2 ^ 32) (a k : UInt32) :
    (a + k).toNat % n = (a.toNat + k.toNat) % n := by
  rw [UInt32.toNat_add, Nat.mod_mod_of_dvd _ hn]

theorem toNat_mod_eq {n : ℕ} (hn : n ∣ 2 ^ 32) (a b : UInt32) :
    a.toNat % n = (b.toNat + gap a b) % n := by
  rw [gap, ← toNat_add_mod hn, UInt32.add_comm, UInt32.sub_add_cancel]

/-! ## Rings -/

variable (r : SharedRing α)

def count : ℕ := gap r.producer r.consumer

def toList (n : ℕ) : List α :=
  (List.range r.count).map fun i => r.slots ((r.consumer.toNat + i) % n)

/-- The writer makes `k` more entries visible. -/
def publish (k : UInt32) : SharedRing α := { r with producer := r.producer + k }

/-- The reader gives `k` entries back. -/
def retire (k : UInt32) : SharedRing α := { r with consumer := r.consumer + k }

/-- Write the entry that a counter points at. -/
def store (n : ℕ) (idx : UInt32) (x : α) : SharedRing α :=
  { r with slots := r.slots.set (idx.toNat % n) x }

@[simp] theorem producer_retire (k : UInt32) : (r.retire k).producer = r.producer := rfl

@[simp] theorem consumer_publish (k : UInt32) : (r.publish k).consumer = r.consumer := rfl

@[simp] theorem producer_store (n : ℕ) (idx : UInt32) (x : α) :
    (r.store n idx x).producer = r.producer := rfl

@[simp] theorem consumer_store (n : ℕ) (idx : UInt32) (x : α) :
    (r.store n idx x).consumer = r.consumer := rfl

@[simp] theorem count_store (n : ℕ) (idx : UInt32) (x : α) : (r.store n idx x).count = r.count := rfl

@[simp] theorem length_toList (n : ℕ) : (r.toList n).length = r.count := by simp [toList]

variable {r} {n : ℕ} {k : UInt32}

theorem count_publish (h : r.count + k.toNat < 2 ^ 32) : (r.publish k).count = r.count + k.toNat :=
  gap_add_left h

theorem count_retire (h : k.toNat ≤ r.count) : (r.retire k).count = r.count - k.toNat :=
  gap_add_right h

theorem getElem?_toList {i : ℕ} (hi : i < r.count) :
    (r.toList n)[i]? = some (r.slots ((r.consumer.toNat + i) % n)) := by
  simp [toList, hi]

theorem toList_retire (hn : n ∣ 2 ^ 32) (h : k.toNat ≤ r.count) :
    (r.retire k).toList n = (r.toList n).drop k.toNat := by
  refine List.ext_getElem? fun i => ?_
  rw [List.getElem?_drop]
  by_cases hi : i < r.count - k.toNat
  · rw [getElem?_toList (by rwa [count_retire h]), getElem?_toList (by omega)]
    show some (r.slots (((r.consumer + k).toNat + i) % n)) = _
    rw [Nat.add_mod, toNat_add_mod hn, ← Nat.add_mod, Nat.add_assoc]
  · rw [List.getElem?_eq_none (by rw [length_toList, count_retire h]; omega),
      List.getElem?_eq_none (by rw [length_toList]; omega)]

theorem consumer_add_count (hn : n ∣ 2 ^ 32) (i : ℕ) :
    (r.consumer.toNat + (r.count + i)) % n = (r.producer.toNat + i) % n := by
  have h : (r.consumer.toNat + r.count) % n = r.producer.toNat % n := (toNat_mod_eq hn ..).symm
  rw [← Nat.add_assoc, Nat.add_mod, h, ← Nat.add_mod]

/-- **The writer** appends what it has stored behind the queue. -/
theorem toList_publish (hn : n ∣ 2 ^ 32) (h : r.count + k.toNat < 2 ^ 32) :
    (r.publish k).toList n = r.toList n ++
      (List.range k.toNat).map fun i => r.slots ((r.producer.toNat + i) % n) := by
  unfold toList
  rw [count_publish h, List.range_add, List.map_append, List.map_map]
  refine congrArg₂ _ rfl (List.map_congr_left fun i _ => ?_)
  show r.slots ((r.consumer.toNat + (r.count + i)) % n) = _
  rw [consumer_add_count hn]

theorem mod_ne_of_lt {a i j : ℕ} (hij : i < j) (hj : j < i + n) : (a + i) % n ≠ (a + j) % n := by
  intro h
  have hmod : Nat.ModEq n i j := Nat.ModEq.add_left_cancel' a h
  exact absurd (Nat.le_of_dvd (by omega) ((Nat.modEq_iff_dvd' hij.le).mp hmod)) (by omega)

theorem toList_store (hn : n ∣ 2 ^ 32) {idx : UInt32} (x : α)
    (h : r.count + gap idx r.producer < n) : (r.store n idx x).toList n = r.toList n := by
  unfold toList
  rw [count_store]
  refine List.map_congr_left fun i hi => Buffer.set_of_ne ?_
  rw [List.mem_range] at hi
  have hidx : idx.toNat % n = (r.consumer.toNat + (r.count + gap idx r.producer)) % n := by
    rw [consumer_add_count hn, ← toNat_mod_eq hn]
  rw [hidx]
  exact mod_ne_of_lt (by omega) (by omega)

theorem toList_store_publish (hn : n ∣ 2 ^ 32) (hlt : n < 2 ^ 32) (x : α) (h : r.count < n) :
    ((r.store n r.producer x).publish 1).toList n = r.toList n ++ [x] := by
  have hone : (1 : UInt32).toNat = 1 := rfl
  rw [toList_publish hn (by rw [count_store, hone]; omega),
    toList_store hn x (by rw [gap_self]; omega), hone, List.range_one, List.map_singleton]
  congr 2
  exact Buffer.set_self ..

/-- Write entries from the one that a counter points at on. -/
def storeAll (n : ℕ) : UInt32 → List α → SharedRing α → SharedRing α
  | _, [], r => r
  | idx, x :: xs, r => storeAll n (idx + 1) xs (r.store n idx x)

theorem storeAll_counters : ∀ {xs : List α} {r : SharedRing α} {idx : UInt32},
    (storeAll n idx xs r).producer = r.producer ∧ (storeAll n idx xs r).consumer = r.consumer
  | [], _, _ => ⟨rfl, rfl⟩
  | _ :: xs, _, _ => @storeAll_counters xs _ _

theorem storeAll_of_ne (hn : n ∣ 2 ^ 32) : ∀ {xs : List α} {r : SharedRing α} {idx : UInt32} {j : ℕ},
    (∀ i < xs.length, j ≠ (idx.toNat + i) % n) → (storeAll n idx xs r).slots j = r.slots j := by
  intro xs
  induction xs with
  | nil => exact fun _ => rfl
  | cons x xs ih =>
    intro r idx j hne
    have hone : (1 : UInt32).toNat = 1 := rfl
    have hrest : (storeAll n (idx + 1) xs (r.store n idx x)).slots j = (r.store n idx x).slots j := by
      refine ih fun i hi => ?_
      rw [Nat.add_mod, toNat_add_mod hn, ← Nat.add_mod, hone, Nat.add_assoc, Nat.add_comm 1]
      exact hne (i + 1) (by rw [List.length_cons]; omega)
    exact hrest.trans (Buffer.set_of_ne (hne 0 (by simp)))

theorem storeAll_slots (hn : n ∣ 2 ^ 32) : ∀ {xs : List α} {r : SharedRing α} {idx : UInt32},
    xs.length ≤ n →
      (List.range xs.length).map (fun i => (storeAll n idx xs r).slots ((idx.toNat + i) % n)) =
        xs := by
  intro xs
  induction xs with
  | nil => exact fun _ => rfl
  | cons x xs ih =>
    intro r idx hlen
    rw [List.length_cons] at hlen
    have hone : (1 : UInt32).toNat = 1 := rfl
    have hplace : ∀ i, ((idx + 1).toNat + i) % n = (idx.toNat + (i + 1)) % n := by
      intro i
      rw [Nat.add_mod, toNat_add_mod hn, ← Nat.add_mod, hone, Nat.add_assoc, Nat.add_comm 1]
    have hfirst : (storeAll n (idx + 1) xs (r.store n idx x)).slots ((idx.toNat + 0) % n) = x := by
      rw [storeAll_of_ne hn fun i hi => ?_]
      · exact Buffer.set_self ..
      · rw [hplace]
        exact mod_ne_of_lt (by omega) (by omega)
    rw [List.length_cons, List.range_succ_eq_map, List.map_cons, List.map_map]
    refine congrArg₂ _ hfirst ?_
    have hrest := @ih (r.store n idx x) (idx + 1) (by omega)
    refine .trans (List.map_congr_left fun i _ => ?_) hrest
    rw [hplace]
    rfl

/-- The writer stores several entries and makes them visible at once. -/
theorem toList_storeAll_publish (hn : n ∣ 2 ^ 32) (hlt : n < 2 ^ 32) {xs : List α}
    (h : r.count + xs.length ≤ n) :
    ((storeAll n r.producer xs r).publish (UInt32.ofNat xs.length)).toList n =
      r.toList n ++ xs := by
  obtain ⟨hprod, hcons⟩ := @storeAll_counters _ n xs r r.producer
  have hcount : (storeAll n r.producer xs r).count = r.count := by rw [count, hprod, hcons, count]
  have hof : (UInt32.ofNat xs.length).toNat = xs.length :=
    UInt32.toNat_ofNat_of_lt' (show xs.length < 2 ^ 32 by omega)
  rw [toList_publish hn (by omega), hof, hprod, storeAll_slots hn (by omega)]
  refine congrArg (· ++ xs) ?_
  unfold toList
  rw [hcount, hcons]
  refine List.map_congr_left fun i hi => storeAll_of_ne hn fun j hj => ?_
  rw [List.mem_range] at hi
  rw [← consumer_add_count hn]
  exact mod_ne_of_lt (by omega) (by omega)

/-! ## Parties -/

/-- The writer's counters: its own one is ahead by what it has reserved, and its copy of the reader's
one, which is kept a round ahead, leaves no more free places than there are. -/
def WriterOk (r : SharedRing α) (n : ℕ) (own seen : UInt32) : Prop :=
  r.count + gap own r.producer + gap seen own ≤ n

/-- The reader's counters: its own one is ahead by what it has in hand, and its copy of the writer's
one is not ahead of it. -/
def ReaderOk (r : SharedRing α) (own seen : UInt32) : Prop :=
  gap own r.consumer + gap seen own + gap r.producer seen = r.count

variable {own seen : UInt32}

section

variable (hlt : n < 2 ^ 32)
include hlt

/-- The writer looks at the reader's counter: the copy is as good as it can be. -/
theorem gap_refresh (h : WriterOk r n own seen) :
    gap (r.consumer + UInt32.ofNat n) own + r.count + gap own r.producer = n := by
  have hof : (UInt32.ofNat n).toNat = n := UInt32.toNat_ofNat_of_lt' hlt
  unfold WriterOk count at h
  unfold count
  rw [gap_eq r.producer, gap_eq own] at h
  rw [gap_eq, gap_eq r.producer, gap_eq own, UInt32.toNat_add, hof]
  have := own.toNat_lt
  have := r.producer.toNat_lt
  have := r.consumer.toNat_lt
  omega

theorem WriterOk.refresh (h : WriterOk r n own seen) :
    WriterOk r n own (r.consumer + UInt32.ofNat n) := by
  have := gap_refresh hlt h
  unfold WriterOk
  omega

theorem WriterOk.reserve (h : WriterOk r n own seen) (hk : k.toNat ≤ gap seen own) :
    WriterOk r n (own + k) seen := by
  unfold WriterOk at h ⊢
  rw [gap_add_left (by omega), gap_add_right hk]
  omega

theorem WriterOk.publish (h : WriterOk r n own seen) (hk : k.toNat ≤ gap own r.producer) :
    WriterOk (r.publish k) n own seen := by
  unfold WriterOk at h ⊢
  rw [count_publish (by omega)]
  show _ + gap own (r.producer + k) + _ ≤ n
  rw [gap_add_right hk]
  omega

end

theorem WriterOk.store (h : WriterOk r n own seen) (idx : UInt32) (x : α) :
    WriterOk (r.store n idx x) n own seen := h

theorem WriterOk.retire (h : WriterOk r n own seen) (hk : k.toNat ≤ r.count) :
    WriterOk (r.retire k) n own seen := by
  unfold WriterOk at h ⊢
  rw [count_retire hk, producer_retire]
  omega

theorem WriterOk.count_le (h : WriterOk r n own seen) : r.count ≤ n := by
  unfold WriterOk at h
  omega

theorem ReaderOk.refresh (h : ReaderOk r own seen) : ReaderOk r own r.producer := by
  unfold ReaderOk at h ⊢
  have hlt : r.count < 2 ^ 32 := gap_lt _ _
  have := gap_add_gap (show gap r.producer seen + gap seen own < 2 ^ 32 by omega)
  rw [gap_self]
  omega

theorem ReaderOk.peek (h : ReaderOk r own seen) (hk : k.toNat ≤ gap seen own) :
    ReaderOk r (own + k) seen := by
  unfold ReaderOk at h ⊢
  have hlt : r.count < 2 ^ 32 := gap_lt _ _
  rw [gap_add_left (by omega), gap_add_right hk]
  omega

theorem ReaderOk.retire (h : ReaderOk r own seen) (hk : k.toNat ≤ gap own r.consumer) :
    ReaderOk (r.retire k) own seen := by
  unfold ReaderOk at h ⊢
  rw [count_retire (by omega)]
  show gap own (r.consumer + k) + _ + _ = _
  rw [gap_add_right hk, producer_retire]
  omega

theorem ReaderOk.publish (h : ReaderOk r own seen) (hk : r.count + k.toNat < 2 ^ 32) :
    ReaderOk (r.publish k) own seen := by
  unfold ReaderOk at h ⊢
  rw [count_publish hk, consumer_publish]
  show _ + _ + gap (r.producer + k) seen = _
  rw [gap_add_left (by omega)]
  omega

theorem ReaderOk.store (h : ReaderOk r own seen) (n : ℕ) (idx : UInt32) (x : α) :
    ReaderOk (r.store n idx x) own seen := h

end SharedRing

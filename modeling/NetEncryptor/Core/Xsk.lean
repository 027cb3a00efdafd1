import NetEncryptor.Base.Runs
import NetEncryptor.Base.SharedRing

/-!
# The rings of an AF_XDP socket

The functions of `xsk.h` with which the program works on its half of a ring: it is the writer of the
fill and the transmit ring and the reader of the receive and the completion ring, and the kernel has
the other half.  A function looks at the kernel's counter only when its copy shows too little.

`ring_fifo` is what a ring is for: with the kernel's steps between any two accesses, one party gets
what the other one has put in, in the same order, and no entry is written before it has been read.
-/

namespace NetEncryptor

open SharedRing

variable {α : Type*}

/-- `struct xsk_ring_prod` and `struct xsk_ring_cons`, with the counters and entries that they point
at. -/
structure XskRing (α : Type*) extends SharedRing α where
  cachedProd : UInt32
  cachedCons : UInt32
  mask : UInt32
  size : UInt32

structure XdpDesc where
  addr : UInt64
  len : UInt32
  options : UInt32
  deriving DecidableEq

namespace XskRing

variable (r : XskRing α)

/-! ## The functions -/

/-- The entry of a counter: `xsk_ring_prod__fill_addr`, `xsk_ring_cons__comp_addr`,
`xsk_ring_prod__tx_desc` and `xsk_ring_cons__rx_desc`. -/
def entry (idx : UInt32) : α := r.slots (idx &&& r.mask).toNat

/-- Assign to the entry of a counter. -/
def setEntry (idx : UInt32) (x : α) : XskRing α :=
  { r with slots := r.slots.set (idx &&& r.mask).toNat x }

def xskProdNbFree (nb : UInt32) : UInt32 × XskRing α :=
  let freeEntries := r.cachedCons - r.cachedProd
  if nb ≤ freeEntries then (freeEntries, r)
  else
    let r := { r with cachedCons := r.consumer + r.size }
    (r.cachedCons - r.cachedProd, r)

def xskConsNbAvail (nb : UInt32) : UInt32 × XskRing α :=
  let r := if r.cachedProd - r.cachedCons = 0 then { r with cachedProd := r.producer } else r
  let entries := r.cachedProd - r.cachedCons
  (if nb < entries then nb else entries, r)

/-- `xsk_ring_prod__reserve`: the index of the first of `nb` entries, `none` for the value `0`. -/
def xskRingProdReserve (nb : UInt32) : Option UInt32 × XskRing α :=
  let (free, r) := r.xskProdNbFree nb
  if free < nb then (none, r)
  else (some r.cachedProd, { r with cachedProd := r.cachedProd + nb })

def xskRingProdSubmit (nb : UInt32) : XskRing α := { r with producer := r.producer + nb }

/-- `xsk_ring_cons__peek`: how many entries, and the index of the first one. -/
def xskRingConsPeek (nb : UInt32) : UInt32 × UInt32 × XskRing α :=
  let (entries, r) := r.xskConsNbAvail nb
  if 0 < entries then (entries, r.cachedCons, { r with cachedCons := r.cachedCons + entries })
  else (entries, r.cachedCons, r)

def xskRingConsRelease (nb : UInt32) : XskRing α := { r with consumer := r.consumer + nb }

/-! ## Invariants -/

/-- A ring of `n` places, a power of two as the kernel asks for. -/
structure Sized (n : ℕ) : Prop where
  pow : ∃ k ≤ 31, n = 2 ^ k
  size : r.size = UInt32.ofNat n
  mask : r.mask = r.size - 1

/-- The program's half of a ring that it writes to. -/
structure ProdOk (n : ℕ) : Prop extends r.Sized n where
  writer : WriterOk r.toSharedRing n r.cachedProd r.cachedCons

/-- The program's half of a ring that it reads from. -/
structure ConsOk (n : ℕ) : Prop extends r.Sized n where
  reader : ReaderOk r.toSharedRing r.cachedCons r.cachedProd
  count_le : r.count ≤ n

variable {r} {n : ℕ}

theorem Sized.lt (h : r.Sized n) : n < 2 ^ 32 := by
  obtain ⟨k, hk, rfl⟩ := h.pow
  exact Nat.pow_lt_pow_right (by omega) (by omega)

theorem Sized.pos (h : r.Sized n) : 0 < n := by
  obtain ⟨k, -, rfl⟩ := h.pow
  exact Nat.two_pow_pos k

theorem Sized.dvd (h : r.Sized n) : n ∣ 2 ^ 32 := by
  obtain ⟨k, hk, rfl⟩ := h.pow
  exact Nat.pow_dvd_pow 2 (by omega)

theorem Sized.toNat_size (h : r.Sized n) : r.size.toNat = n := by
  rw [h.size]
  exact UInt32.toNat_ofNat_of_lt' h.lt

theorem Sized.toNat_and_mask (h : r.Sized n) (idx : UInt32) :
    (idx &&& r.mask).toNat = idx.toNat % n := by
  have hone : (1 : UInt32).toNat = 1 := rfl
  have hle : (1 : UInt32) ≤ r.size := by
    rw [UInt32.le_iff_toNat_le, h.toNat_size]
    exact h.pos
  obtain ⟨k, -, hn⟩ := h.pow
  rw [UInt32.toNat_and, h.mask, UInt32.toNat_sub_of_le _ _ hle, h.toNat_size, hone, hn,
    Nat.and_two_pow_sub_one_eq_mod]

theorem Sized.setEntry_toSharedRing (h : r.Sized n) (idx : UInt32) (x : α) :
    (r.setEntry idx x).toSharedRing = r.toSharedRing.store n idx x := by
  unfold setEntry SharedRing.store
  rw [h.toNat_and_mask]

/-- Assign to the entries from the one of a counter on. -/
def setEntries : UInt32 → List α → XskRing α → XskRing α
  | _, [], r => r
  | idx, x :: xs, r => setEntries (idx + 1) xs (r.setEntry idx x)

theorem Sized.setEntries_toSharedRing : ∀ {xs : List α} {r : XskRing α} {idx : UInt32}, r.Sized n →
    (setEntries idx xs r).toSharedRing = storeAll n idx xs r.toSharedRing := by
  intro xs
  induction xs with
  | nil => exact fun _ => rfl
  | cons x xs ih =>
    intro r idx h
    have hset : (r.setEntry idx x).Sized n := ⟨h.pow, h.size, h.mask⟩
    exact (ih hset).trans (congrArg (storeAll n (idx + 1) xs) (h.setEntry_toSharedRing idx x))

theorem setEntries_cached : ∀ {xs : List α} {r : XskRing α} {idx : UInt32},
    (setEntries idx xs r).cachedProd = r.cachedProd ∧
      (setEntries idx xs r).cachedCons = r.cachedCons ∧
      (setEntries idx xs r).mask = r.mask ∧ (setEntries idx xs r).size = r.size
  | [], _, _ => ⟨rfl, rfl, rfl, rfl⟩
  | _ :: xs, _, _ => @setEntries_cached xs _ _

theorem Sized.entry_eq (h : r.Sized n) (idx : UInt32) : r.entry idx = r.slots (idx.toNat % n) := by
  rw [entry, h.toNat_and_mask]

/-! ## What the functions do -/

section

variable {nb : UInt32}

@[simp] theorem reserve_toSharedRing :
    (r.xskRingProdReserve nb).2.toSharedRing = r.toSharedRing := by
  unfold xskRingProdReserve xskProdNbFree
  simp only
  split_ifs <;> rfl

@[simp] theorem peek_toSharedRing : (r.xskRingConsPeek nb).2.2.toSharedRing = r.toSharedRing := by
  unfold xskRingConsPeek xskConsNbAvail
  simp only
  split_ifs <;> rfl

theorem nbFree_cachedProd : (r.xskProdNbFree nb).2.cachedProd = r.cachedProd := by
  unfold xskProdNbFree
  simp only
  split_ifs <;> rfl

theorem ProdOk.nbFree (h : r.ProdOk n) :
    (r.xskProdNbFree nb).2.ProdOk n ∧
      (r.xskProdNbFree nb).1.toNat = gap (r.xskProdNbFree nb).2.cachedCons r.cachedProd ∧
      (nb ≤ (r.xskProdNbFree nb).1 ↔ r.count + gap r.cachedProd r.producer + nb.toNat ≤ n) := by
  unfold xskProdNbFree
  simp only
  split_ifs with hnb
  · refine ⟨h, rfl, iff_of_true hnb ?_⟩
    have hle : nb.toNat ≤ gap r.cachedCons r.cachedProd := UInt32.le_iff_toNat_le.mp hnb
    have := h.writer
    unfold WriterOk at this
    omega
  · have hseen := h.writer.refresh h.lt
    have hexact := gap_refresh h.lt h.writer
    rw [← h.size] at hseen hexact
    refine ⟨⟨⟨h.pow, h.size, h.mask⟩, hseen⟩, rfl, ?_⟩
    rw [UInt32.le_iff_toNat_le]
    show nb.toNat ≤ gap (r.consumer + r.size) r.cachedProd ↔ _
    omega

/-- **A reservation** succeeds exactly when there are as many free places. -/
theorem ProdOk.reserve_eq (h : r.ProdOk n) :
    (r.xskRingProdReserve nb).1 =
      if r.count + gap r.cachedProd r.producer + nb.toNat ≤ n then some r.cachedProd else none := by
  obtain ⟨-, -, hfree⟩ := @ProdOk.nbFree _ _ _ nb h
  unfold xskRingProdReserve
  simp only [← hfree, ← UInt32.not_le, ite_not]
  split_ifs with hnb
  · rw [nbFree_cachedProd]
  · rfl

theorem ProdOk.reserve (h : r.ProdOk n) : (r.xskRingProdReserve nb).2.ProdOk n := by
  obtain ⟨hok, hfree, -⟩ := @ProdOk.nbFree _ _ _ nb h
  unfold xskRingProdReserve
  simp only
  split_ifs with hnb
  · exact hok
  · refine ⟨⟨hok.pow, hok.size, hok.mask⟩, hok.writer.reserve hok.lt ?_⟩
    rw [nbFree_cachedProd, ← hfree]
    exact UInt32.le_iff_toNat_le.mp (UInt32.not_lt.mp hnb)

theorem ProdOk.reserve_cachedProd (h : r.ProdOk n) :
    (r.xskRingProdReserve nb).2.cachedProd =
      if r.count + gap r.cachedProd r.producer + nb.toNat ≤ n then r.cachedProd + nb
      else r.cachedProd := by
  obtain ⟨-, -, hfree⟩ := @ProdOk.nbFree _ _ _ nb h
  unfold xskRingProdReserve
  simp only [← hfree, ← UInt32.not_le, ite_not]
  split_ifs with hnb
  · exact congrArg (· + nb) nbFree_cachedProd
  · exact nbFree_cachedProd

theorem ProdOk.submit (h : r.ProdOk n) (hnb : nb.toNat ≤ gap r.cachedProd r.producer) :
    (r.xskRingProdSubmit nb).ProdOk n :=
  ⟨⟨h.pow, h.size, h.mask⟩, h.writer.publish h.lt hnb⟩

theorem ProdOk.setEntry (h : r.ProdOk n) (idx : UInt32) (x : α) : (r.setEntry idx x).ProdOk n :=
  ⟨⟨h.pow, h.size, h.mask⟩, h.writer⟩

theorem ProdOk.setEntries : ∀ {xs : List α} {r : XskRing α} {idx : UInt32}, r.ProdOk n →
    (setEntries idx xs r).ProdOk n
  | [], _, _, h => h
  | _ :: xs, _, _, h => @ProdOk.setEntries xs _ _ (h.setEntry _ _)

theorem ConsOk.nbAvail (h : r.ConsOk n) :
    (r.xskConsNbAvail nb).2.ConsOk n ∧ (r.xskConsNbAvail nb).2.cachedCons = r.cachedCons ∧
      (r.xskConsNbAvail nb).1.toNat ≤ gap (r.xskConsNbAvail nb).2.cachedProd r.cachedCons ∧
      (r.xskConsNbAvail nb).1.toNat ≤ nb.toNat ∧
      ((r.xskConsNbAvail nb).1 = 0 → nb = 0 ∨ r.count = gap r.cachedCons r.consumer) := by
  have hle : ∀ e : UInt32, (if nb < e then nb else e).toNat ≤ e.toNat ∧
      (if nb < e then nb else e).toNat ≤ nb.toNat ∧ ((if nb < e then nb else e) = 0 → nb = 0 ∨ e = 0) := by
    intro e
    split_ifs with hlt
    · rw [UInt32.lt_iff_toNat_lt] at hlt
      exact ⟨hlt.le, le_rfl, .inl⟩
    · rw [UInt32.lt_iff_toNat_lt, not_lt] at hlt
      exact ⟨le_rfl, hlt, .inr⟩
  unfold xskConsNbAvail
  simp only
  generalize hr' : (if r.cachedProd - r.cachedCons = 0 then { r with cachedProd := r.producer }
    else r) = r'
  have hr : r'.ConsOk n ∧ r'.cachedCons = r.cachedCons ∧
      (r'.cachedProd - r'.cachedCons = 0 → r.count = gap r.cachedCons r.consumer) := by
    subst hr'
    split_ifs with hzero
    · have hreader := h.reader.refresh
      refine ⟨⟨⟨h.pow, h.size, h.mask⟩, hreader, h.count_le⟩, rfl, fun he => ?_⟩
      have hnone : gap r.producer r.cachedCons = 0 := congrArg UInt32.toNat he
      unfold ReaderOk at hreader
      rw [gap_self] at hreader
      omega
    · exact ⟨h, rfl, fun he => absurd he hzero⟩
  obtain ⟨hok, hcons, hnone⟩ := hr
  obtain ⟨hentries, hnb, hzero⟩ := hle (r'.cachedProd - r'.cachedCons)
  exact ⟨hok, hcons, hcons ▸ hentries, hnb, fun he => (hzero he).imp_right hnone⟩

theorem ConsOk.peek (h : r.ConsOk n) : (r.xskRingConsPeek nb).2.2.ConsOk n := by
  obtain ⟨hok, hcons, hle, -, -⟩ := @ConsOk.nbAvail _ _ _ nb h
  unfold xskRingConsPeek
  simp only
  split_ifs
  · refine ⟨⟨hok.pow, hok.size, hok.mask⟩, hok.reader.peek ?_, hok.count_le⟩
    rwa [hcons]
  · exact hok

/-- **A look** shows the next entries, if any are there that the reader has not in hand. -/
theorem ConsOk.peek_eq (h : r.ConsOk n) :
    (r.xskRingConsPeek nb).2.1 = r.cachedCons ∧
      (r.xskRingConsPeek nb).2.2.cachedCons = r.cachedCons + (r.xskRingConsPeek nb).1 ∧
      (r.xskRingConsPeek nb).1.toNat ≤ nb.toNat ∧
      gap r.cachedCons r.consumer + (r.xskRingConsPeek nb).1.toNat ≤ r.count ∧
      ((r.xskRingConsPeek nb).1 = 0 → nb = 0 ∨ r.count = gap r.cachedCons r.consumer) := by
  obtain ⟨hok, hcons, hle, hnb, hzero⟩ := @ConsOk.nbAvail _ _ _ nb h
  have hshared : (r.xskConsNbAvail nb).2.toSharedRing = r.toSharedRing := by
    unfold xskConsNbAvail
    simp only
    split_ifs <;> rfl
  have hreader := hok.reader
  unfold ReaderOk at hreader
  rw [hshared, hcons] at hreader
  unfold xskRingConsPeek
  simp only
  split_ifs with hpos
  · have hin : gap r.cachedCons r.consumer + (r.xskConsNbAvail nb).1.toNat ≤ r.count := by omega
    exact ⟨hcons, congrArg (· + _) hcons, hnb, hin, hzero⟩
  · have hnone : (r.xskConsNbAvail nb).1 = 0 := by
      rw [UInt32.lt_iff_toNat_lt] at hpos
      exact UInt32.toNat_inj.mp (Nat.eq_zero_of_not_pos hpos)
    rw [hnone]
    refine ⟨hcons, hcons.trans (UInt32.add_zero _).symm, Nat.zero_le _, ?_, fun _ => hzero hnone⟩
    have hz : (0 : UInt32).toNat = 0 := rfl
    omega

theorem ConsOk.release (h : r.ConsOk n) (hnb : nb.toNat ≤ gap r.cachedCons r.consumer) :
    (r.xskRingConsRelease nb).ConsOk n := by
  refine ⟨⟨h.pow, h.size, h.mask⟩, h.reader.retire hnb, ?_⟩
  have hreader := h.reader
  unfold ReaderOk at hreader
  have := h.count_le
  show (r.toSharedRing.retire nb).count ≤ n
  rw [count_retire (by omega)]
  omega

end

/-! ## The kernel's half -/

/-- The kernel takes entries of a ring that the program writes. -/
def kernelRetire (r : XskRing α) (k : UInt32) : XskRing α := { r with consumer := r.consumer + k }

/-- The kernel writes one more entry of a ring that the program reads. -/
def kernelPut (r : XskRing α) (n : ℕ) (x : α) : XskRing α :=
  { r with toSharedRing := (r.toSharedRing.store n r.producer x).publish 1 }

theorem ProdOk.kernelRetire {k : UInt32} (h : r.ProdOk n) (hk : k.toNat ≤ r.count) :
    (r.kernelRetire k).ProdOk n :=
  ⟨⟨h.pow, h.size, h.mask⟩, h.writer.retire hk⟩

theorem ConsOk.kernelPut (h : r.ConsOk n) (hlt : r.count < n) (x : α) :
    (r.kernelPut n x).ConsOk n := by
  have hone : (1 : UInt32).toNat = 1 := rfl
  have hn := h.lt
  refine ⟨⟨h.pow, h.size, h.mask⟩, (h.reader.store n r.producer x).publish ?_, ?_⟩
  · rw [count_store, hone]
    omega
  · show ((r.toSharedRing.store n r.producer x).publish 1).count ≤ n
    rw [count_publish (by rw [count_store, hone]; omega), count_store, hone]
    omega

theorem ConsOk.toList_kernelPut (h : r.ConsOk n) (hlt : r.count < n) (x : α) :
    (r.kernelPut n x).toList n = r.toList n ++ [x] :=
  toList_store_publish h.dvd h.lt x hlt

end XskRing

/-! ## The program as a writer -/

/-- A thread that writes a ring, and the kernel that reads it. -/
structure WriteSide (α : Type*) where
  ring : XskRing α
  /-- Where the next entry goes. -/
  idx : UInt32
  /-- What the thread has still to store before it can submit. -/
  todo : List α
  stored : List α
  submitted : List α
  /-- What the kernel has taken. -/
  taken : List α

inductive WriteStep (α : Type*)
  | reserve (xs : List α)
  | store
  | submit
  | kernel (k : UInt32)

def WriteSide.start (ring : XskRing α) : WriteSide α := ⟨ring, ring.producer, [], [], [], []⟩

/-- The next access of the thread, or a step of the kernel. -/
def writeStep (n : ℕ) (s : WriteSide α) : WriteStep α → Option (WriteSide α)
  | .reserve xs =>
    match s.todo, s.stored with
    | [], [] =>
      if xs.length < 2 ^ 32 then
        match s.ring.xskRingProdReserve (UInt32.ofNat xs.length) with
        | (some idx, ring) => some { s with ring := ring, idx := idx, todo := xs }
        | (none, ring) => some { s with ring := ring }
      else none
    | _, _ => none
  | .store =>
    match s.todo with
    | [] => none
    | x :: xs =>
      some { s with
        ring := s.ring.setEntry s.idx x, idx := s.idx + 1, todo := xs, stored := s.stored ++ [x] }
  | .submit =>
    match s.todo with
    | [] =>
      some { s with
        ring := s.ring.xskRingProdSubmit (UInt32.ofNat s.stored.length)
        stored := []
        submitted := s.submitted ++ s.stored }
    | _ => none
  | .kernel k =>
    if k.toNat ≤ s.ring.count then
      some { s with
        ring := s.ring.kernelRetire k, taken := s.taken ++ (s.ring.toList n).take k.toNat }
    else none

namespace WriteSide

variable {n : ℕ} {s s' : WriteSide α}

/-- The thread has reserved what it has stored and what it has still to store, its next entry comes
behind the stored ones, and these are where the submission will make them visible. -/
structure Inv (n : ℕ) (s : WriteSide α) : Prop where
  ok : s.ring.ProdOk n
  reserved : gap s.ring.cachedProd s.ring.producer = s.stored.length + s.todo.length
  idx : s.todo ≠ [] → gap s.idx s.ring.producer = s.stored.length
  stored : ∀ i x, s.stored[i]? = some x → s.ring.slots ((s.ring.producer.toNat + i) % n) = x
  log : s.submitted = s.taken ++ s.ring.toList n

theorem Inv.reserve {xs : List α} (h : Inv n s)
    (hstep : writeStep n s (.reserve xs) = some s') : Inv n s' := by
  unfold writeStep at hstep
  simp only at hstep
  split at hstep
  swap
  · cases hstep
  rename_i htodo hstored
  split_ifs at hstep with hlen
  have hnone := h.reserved
  rw [htodo, hstored] at hnone
  have heq := @XskRing.ProdOk.reserve_eq _ _ _ (UInt32.ofNat xs.length) h.ok
  have hprod := @XskRing.ProdOk.reserve_cachedProd _ _ _ (UInt32.ofNat xs.length) h.ok
  have hok := @XskRing.ProdOk.reserve _ _ _ (UInt32.ofNat xs.length) h.ok
  have hring := @XskRing.reserve_toSharedRing _ s.ring (UInt32.ofNat xs.length)
  have hof : (UInt32.ofNat xs.length).toNat = xs.length := UInt32.toNat_ofNat_of_lt' hlen
  split at hstep
  · rename_i idx ring hres
    cases hstep
    rw [hres] at heq hprod hok hring
    simp only at heq hprod hok hring
    split_ifs at heq hprod with hfree
    have hidx := Option.some.inj heq
    refine ⟨hok, ?_, fun _ => ?_, fun i x hi => ?_, ?_⟩
    · show gap ring.cachedProd ring.producer = s.stored.length + xs.length
      have := h.ok.lt
      rw [hprod, hring, gap_add_left (by omega), hof, hstored, hnone, List.length_nil, Nat.add_zero]
    · show gap idx ring.producer = s.stored.length
      rw [hidx, hring, hnone, hstored]
      rfl
    · rw [hstored] at hi
      cases hi
    · show s.submitted = s.taken ++ ring.toList n
      rw [hring]
      exact h.log
  · rename_i ring hres
    cases hstep
    rw [hres] at heq hprod hok hring
    simp only at heq hprod hok hring
    split_ifs at heq hprod with hfree
    refine ⟨hok, ?_, fun hne => absurd htodo hne, fun i x hi => ?_, ?_⟩
    · show gap ring.cachedProd ring.producer = s.stored.length + s.todo.length
      rw [hprod, hring]
      exact h.reserved
    · rw [hstored] at hi
      cases hi
    · show s.submitted = s.taken ++ ring.toList n
      rw [hring]
      exact h.log

theorem Inv.store (h : Inv n s) (hstep : writeStep n s .store = some s') : Inv n s' := by
  unfold writeStep at hstep
  simp only at hstep
  split at hstep
  · cases hstep
  rename_i x xs htodo
  cases hstep
  have hone : (1 : UInt32).toNat = 1 := rfl
  have hn := h.ok.lt
  have hidx := h.idx (by rw [htodo]; exact List.cons_ne_nil x xs)
  have hreserved := h.reserved
  rw [htodo, List.length_cons] at hreserved
  have hroom := h.ok.writer
  unfold WriterOk at hroom
  have hring := h.ok.setEntry_toSharedRing s.idx x
  have hplace : s.idx.toNat % n = (s.ring.producer.toNat + s.stored.length) % n := by
    rw [toNat_mod_eq h.ok.dvd s.idx s.ring.producer, hidx]
  refine ⟨h.ok.setEntry s.idx x, ?_, fun _ => ?_, fun i y hi => ?_, ?_⟩
  · show gap s.ring.cachedProd s.ring.producer = (s.stored ++ [x]).length + xs.length
    rw [List.length_append, List.length_singleton]
    omega
  · show gap (s.idx + 1) s.ring.producer = (s.stored ++ [x]).length
    rw [gap_add_left (by omega), hidx, hone, List.length_append, List.length_singleton]
  · show (s.ring.setEntry s.idx x).toSharedRing.slots _ = y
    rw [hring]
    show (s.ring.slots.set (s.idx.toNat % n) x) ((s.ring.producer.toNat + i) % n) = y
    rcases lt_or_ge i s.stored.length with hlt | hge
    · rw [List.getElem?_append_left hlt] at hi
      rw [hplace, Buffer.set_of_ne (mod_ne_of_lt hlt (by omega))]
      exact h.stored i y hi
    · have heq : i = s.stored.length := by
        have := (List.getElem?_eq_some_iff.mp hi).1
        rw [List.length_append, List.length_singleton] at this
        omega
      subst heq
      rw [List.getElem?_concat_length] at hi
      rw [hplace, Buffer.set_self]
      exact Option.some.inj hi
  · show s.submitted = s.taken ++ (s.ring.setEntry s.idx x).toSharedRing.toList n
    rw [hring, toList_store h.ok.dvd x (by omega)]
    exact h.log

theorem Inv.submit (h : Inv n s) (hstep : writeStep n s .submit = some s') : Inv n s' := by
  unfold writeStep at hstep
  simp only at hstep
  split at hstep
  swap
  · cases hstep
  rename_i htodo
  cases hstep
  have hn := h.ok.lt
  have hreserved := h.reserved
  rw [htodo, List.length_nil, Nat.add_zero] at hreserved
  have hroom := h.ok.writer
  unfold WriterOk at hroom
  have hof : (UInt32.ofNat s.stored.length).toNat = s.stored.length :=
    UInt32.toNat_ofNat_of_lt' (show s.stored.length < 2 ^ 32 by omega)
  have hpublished : (List.range s.stored.length).map
      (fun i => s.ring.slots ((s.ring.producer.toNat + i) % n)) = s.stored := by
    refine List.ext_getElem? fun i => ?_
    rcases lt_or_ge i s.stored.length with hi | hi
    · rw [List.getElem?_map, List.getElem?_range hi, Option.map_some,
        List.getElem?_eq_getElem hi, h.stored i _ (List.getElem?_eq_getElem hi)]
    · rw [List.getElem?_eq_none hi, List.getElem?_eq_none]
      rwa [List.length_map, List.length_range]
  refine ⟨h.ok.submit (by omega), ?_, fun hne => absurd htodo hne,
    fun i x hi => absurd hi (by simp), ?_⟩
  · show gap s.ring.cachedProd (s.ring.producer + UInt32.ofNat s.stored.length) =
      0 + s.todo.length
    rw [gap_add_right (by omega), htodo, hof, hreserved, Nat.sub_self]
    rfl
  · show s.submitted ++ s.stored =
      s.taken ++ (s.ring.toSharedRing.publish (UInt32.ofNat s.stored.length)).toList n
    rw [toList_publish h.ok.dvd (by omega), hof, hpublished, h.log, List.append_assoc]

theorem Inv.kernel {k : UInt32} (h : Inv n s) (hstep : writeStep n s (.kernel k) = some s') :
    Inv n s' := by
  unfold writeStep at hstep
  simp only at hstep
  split_ifs at hstep with hk
  cases hstep
  refine ⟨h.ok.kernelRetire hk, h.reserved, h.idx, h.stored, ?_⟩
  show s.submitted = s.taken ++ (s.ring.toList n).take k.toNat ++
    (s.ring.toSharedRing.retire k).toList n
  rw [toList_retire h.ok.dvd hk, List.append_assoc, List.take_append_drop]
  exact h.log

theorem Inv.start {ring : XskRing α} (hok : ring.ProdOk n) (hprod : ring.cachedProd = ring.producer)
    (hcount : ring.count = 0) : Inv n (start ring) := by
  refine ⟨hok, ?_, fun hne => absurd rfl hne, fun i x hi => absurd hi (by simp [WriteSide.start]), ?_⟩
  · show gap ring.cachedProd ring.producer = 0 + 0
    rw [hprod, gap_self]
  · exact (List.length_eq_zero_iff.mp ((length_toList ..).trans hcount)).symm

theorem Inv.step {a : WriteStep α} (h : Inv n s) (hstep : writeStep n s a = some s') : Inv n s' := by
  cases a with
  | reserve xs => exact h.reserve hstep
  | store => exact h.store hstep
  | submit => exact h.submit hstep
  | kernel k => exact h.kernel hstep

end WriteSide

/-! ## The program as a reader -/

/-- A thread that reads a ring, and the kernel that writes it. -/
structure ReadSide (α : Type*) where
  ring : XskRing α
  /-- Where the next entry is. -/
  idx : UInt32
  /-- How many of the shown entries the thread has still to read before it can release them. -/
  left : ℕ
  got : List α
  received : List α
  /-- What the kernel has put in. -/
  produced : List α

inductive ReadStep (α : Type*)
  | peek (nb : UInt32)
  | read
  | release
  | kernel (x : α)

def ReadSide.start (ring : XskRing α) : ReadSide α := ⟨ring, ring.consumer, 0, [], [], []⟩

/-- The next access of the thread, or a step of the kernel, which overwrites no queued entry. -/
def readStep (n : ℕ) (s : ReadSide α) : ReadStep α → Option (ReadSide α)
  | .peek nb =>
    match s.left, s.got with
    | 0, [] =>
      let (entries, idx, ring) := s.ring.xskRingConsPeek nb
      some { s with ring := ring, idx := idx, left := entries.toNat }
    | _, _ => none
  | .read =>
    match s.left with
    | 0 => none
    | left + 1 =>
      some { s with idx := s.idx + 1, left := left, got := s.got ++ [s.ring.entry s.idx] }
  | .release =>
    match s.left with
    | 0 =>
      some { s with
        ring := s.ring.xskRingConsRelease (UInt32.ofNat s.got.length)
        got := []
        received := s.received ++ s.got }
    | _ => none
  | .kernel x =>
    if s.ring.count < n then
      some { s with ring := s.ring.kernelPut n x, produced := s.produced ++ [x] }
    else none

namespace ReadSide

variable {n : ℕ} {s s' : ReadSide α}

/-- The thread has in hand what it has read and what it has still to read, its next entry comes
behind the ones that it has read, and these are the front of the queue. -/
structure Inv (n : ℕ) (s : ReadSide α) : Prop where
  ok : s.ring.ConsOk n
  inHand : gap s.ring.cachedCons s.ring.consumer = s.got.length + s.left
  idx : s.left ≠ 0 → gap s.idx s.ring.consumer = s.got.length
  got : s.got = (s.ring.toList n).take s.got.length
  log : s.produced = s.received ++ s.ring.toList n

theorem Inv.inHand_le (h : Inv n s) : s.got.length + s.left ≤ s.ring.count := by
  have := h.ok.reader
  unfold ReaderOk at this
  have := h.inHand
  omega

theorem Inv.peek {nb : UInt32} (h : Inv n s) (hstep : readStep n s (.peek nb) = some s') :
    Inv n s' := by
  unfold readStep at hstep
  simp only at hstep
  split at hstep
  swap
  · cases hstep
  rename_i hleft hgot
  cases hstep
  have hnone := h.inHand
  rw [hleft, hgot] at hnone
  have hnone : gap s.ring.cachedCons s.ring.consumer = 0 := hnone
  obtain ⟨hidx, hcons, -, hin, -⟩ := @XskRing.ConsOk.peek_eq _ _ _ nb h.ok
  have hok := @XskRing.ConsOk.peek _ _ _ nb h.ok
  have hring := @XskRing.peek_toSharedRing _ s.ring nb
  have hlt : s.ring.count < 2 ^ 32 := gap_lt _ _
  refine ⟨hok, ?_, fun _ => ?_, ?_, ?_⟩
  · show gap (s.ring.xskRingConsPeek nb).2.2.cachedCons
      (s.ring.xskRingConsPeek nb).2.2.consumer = s.got.length + _
    rw [hring, hcons, gap_add_left (by omega), hnone, hgot]
    rfl
  · show gap (s.ring.xskRingConsPeek nb).2.1 (s.ring.xskRingConsPeek nb).2.2.consumer =
      s.got.length
    rw [hring, hidx, hnone, hgot]
    rfl
  · show s.got = _
    rw [hgot]
    rfl
  · show s.produced = s.received ++ (s.ring.xskRingConsPeek nb).2.2.toSharedRing.toList n
    rw [hring]
    exact h.log

theorem Inv.read (h : Inv n s) (hstep : readStep n s .read = some s') : Inv n s' := by
  unfold readStep at hstep
  simp only at hstep
  split at hstep
  · cases hstep
  rename_i left hleft
  cases hstep
  have hone : (1 : UInt32).toNat = 1 := rfl
  have hlt : s.ring.count < 2 ^ 32 := gap_lt _ _
  have hle := h.inHand_le
  have hidx := h.idx (by omega)
  have hentry : (s.ring.toList n)[s.got.length]? = some (s.ring.entry s.idx) := by
    rw [getElem?_toList (by omega), h.ok.entry_eq, ← hidx, ← toNat_mod_eq h.ok.dvd]
  refine ⟨h.ok, ?_, fun _ => ?_, ?_, h.log⟩
  · have := h.inHand
    show gap s.ring.cachedCons s.ring.consumer = (s.got ++ [_]).length + left
    rw [List.length_append, List.length_singleton]
    omega
  · show gap (s.idx + 1) s.ring.consumer = (s.got ++ [_]).length
    rw [gap_add_left (by omega), hidx, hone, List.length_append, List.length_singleton]
  · show s.got ++ [s.ring.entry s.idx] = (s.ring.toList n).take (s.got ++ [_]).length
    rw [List.length_append, List.length_singleton, List.take_add_one, ← h.got, hentry]
    rfl

theorem Inv.release (h : Inv n s) (hstep : readStep n s .release = some s') : Inv n s' := by
  unfold readStep at hstep
  simp only at hstep
  split at hstep
  swap
  · cases hstep
  rename_i hleft
  cases hstep
  have hlt : s.ring.count < 2 ^ 32 := gap_lt _ _
  have hle := h.inHand_le
  have hin := h.inHand
  have hof : (UInt32.ofNat s.got.length).toNat = s.got.length :=
    UInt32.toNat_ofNat_of_lt' (show s.got.length < 2 ^ 32 by omega)
  refine ⟨h.ok.release (by omega), ?_, fun hne => absurd hleft hne, rfl, ?_⟩
  · show gap s.ring.cachedCons (s.ring.consumer + UInt32.ofNat s.got.length) = 0 + s.left
    rw [gap_add_right (by omega), hof]
    omega
  · show s.produced = s.received ++ s.got ++
      (s.ring.toSharedRing.retire (UInt32.ofNat s.got.length)).toList n
    rw [toList_retire h.ok.dvd (by omega), hof, List.append_assoc]
    rw [h.log]
    exact congrArg _ (by rw [h.got, List.length_take, length_toList, min_eq_left (by omega),
      List.take_append_drop])

theorem Inv.kernel {x : α} (h : Inv n s) (hstep : readStep n s (.kernel x) = some s') :
    Inv n s' := by
  unfold readStep at hstep
  simp only at hstep
  split_ifs at hstep with hroom
  cases hstep
  have hlist := h.ok.toList_kernelPut hroom x
  refine ⟨h.ok.kernelPut hroom x, h.inHand, h.idx, ?_, ?_⟩
  · show s.got = ((s.ring.kernelPut n x).toList n).take s.got.length
    rw [hlist, List.take_append_of_le_length]
    · exact h.got
    · rw [length_toList]
      exact le_of_add_le_left h.inHand_le
  · show s.produced ++ [x] = s.received ++ (s.ring.kernelPut n x).toList n
    rw [hlist, ← List.append_assoc, ← h.log]

theorem Inv.start {ring : XskRing α} (hok : ring.ConsOk n) (hcons : ring.cachedCons = ring.consumer)
    (hcount : ring.count = 0) : Inv n (start ring) := by
  refine ⟨hok, ?_, fun hne => absurd rfl hne, rfl, ?_⟩
  · show gap ring.cachedCons ring.consumer = 0 + 0
    rw [hcons, gap_self]
  · exact (List.length_eq_zero_iff.mp ((length_toList ..).trans hcount)).symm

theorem Inv.step {a : ReadStep α} (h : Inv n s) (hstep : readStep n s a = some s') : Inv n s' := by
  cases a with
  | peek nb => exact h.peek hstep
  | read => exact h.read hstep
  | release => exact h.release hstep
  | kernel x => exact h.kernel hstep

end ReadSide

/-! ## A ring is a queue -/

/-- With the kernel's steps between any two accesses of the program: what has been submitted to a ring
is what the kernel has taken and then what is queued, and a reservation fails exactly when there is no
room; what the kernel has put in is what the program has received and then what is queued, and a look
shows nothing exactly when there is nothing that the program has not seen. -/
theorem ring_fifo {n : ℕ} (ring : XskRing α) (hcount : ring.count = 0) :
    (ring.ProdOk n → ring.cachedProd = ring.producer → ∀ as t,
      Runs.run (writeStep n) (.start ring) as = some t →
        t.submitted = t.taken ++ t.ring.toList n ∧ ∀ nb,
          ((t.ring.xskRingProdReserve nb).1 = none ↔
            n < t.ring.count + t.stored.length + t.todo.length + nb.toNat)) ∧
    (ring.ConsOk n → ring.cachedCons = ring.consumer → ∀ as t,
      Runs.run (readStep n) (.start ring) as = some t →
        t.produced = t.received ++ t.ring.toList n ∧ t.got <+: t.ring.toList n ∧ ∀ nb,
          ((t.ring.xskRingConsPeek nb).1 = 0 ↔
            nb = 0 ∨ t.ring.count = t.got.length + t.left)) := by
  constructor
  · intro hok hprod as t hrun
    have hinv : WriteSide.Inv n t := Runs.invariant_run (fun _ _ _ => WriteSide.Inv.step)
      (WriteSide.Inv.start hok hprod hcount) hrun
    refine ⟨hinv.log, fun nb => ?_⟩
    rw [hinv.ok.reserve_eq, hinv.reserved]
    split_ifs with hfree
    · exact iff_of_false (by simp) (by omega)
    · exact iff_of_true rfl (by omega)
  · intro hok hcons as t hrun
    have hinv : ReadSide.Inv n t := Runs.invariant_run (fun _ _ _ => ReadSide.Inv.step)
      (ReadSide.Inv.start hok hcons hcount) hrun
    refine ⟨hinv.log, List.prefix_iff_eq_take.mpr hinv.got, fun nb => ?_⟩
    obtain ⟨-, -, hnb, hin, hzero⟩ := @XskRing.ConsOk.peek_eq _ _ _ nb hinv.ok
    rw [hinv.inHand] at hin hzero
    refine ⟨hzero, ?_⟩
    rintro (rfl | hall)
    · exact UInt32.toNat_inj.mp (Nat.le_zero.mp hnb)
    · exact UInt32.toNat_inj.mp (show (t.ring.xskRingConsPeek nb).1.toNat = 0 by omega)

/-- A ring of two places whose counters are about to wrap, as its writer has it. -/
def wrappingRing : XskRing ℕ where
  producer := 0xffffffff
  consumer := 0xffffffff
  slots _ := 0
  cachedProd := 0xffffffff
  cachedCons := 1
  mask := 1
  size := 2

/-- A ring of two places with its counters at `0`, as its reader has it. -/
def emptyRing : XskRing ℕ := ⟨⟨0, 0, fun _ => 0⟩, 0, 0, 1, 2⟩

theorem ring_fifo_two :
    (∃ t, Runs.run (writeStep 2) (.start wrappingRing)
        [.reserve [7, 8], .store, .store, .submit, .kernel 1] = some t ∧
      t.submitted = [7, 8] ∧ t.taken = [7] ∧ t.submitted = t.taken ++ t.ring.toList 2) ∧
    ∃ t, Runs.run (readStep 2) (.start emptyRing)
        [.kernel 7, .peek 2, .kernel 8, .read, .release] = some t ∧
      t.produced = [7, 8] ∧ t.received = [7] ∧ t.produced = t.received ++ t.ring.toList 2 := by
  have hpow : ∃ k ≤ 31, 2 = 2 ^ k := ⟨1, by omega, rfl⟩
  have hwriter : wrappingRing.ProdOk 2 := ⟨⟨hpow, rfl, rfl⟩, by unfold WriterOk; decide⟩
  have hreader : emptyRing.ConsOk 2 :=
    ⟨⟨hpow, rfl, rfl⟩, by unfold ReaderOk; decide, by decide⟩
  have hwrite := fun t => ((ring_fifo wrappingRing rfl).1 hwriter rfl
    [.reserve [7, 8], .store, .store, .submit, .kernel 1] t)
  have hread := fun t => ((ring_fifo emptyRing rfl).2 hreader rfl
    [.kernel 7, .peek 2, .kernel 8, .read, .release] t)
  exact ⟨⟨_, rfl, rfl, rfl, (hwrite _ rfl).1⟩, _, rfl, rfl, rfl, (hread _ rfl).1⟩

end NetEncryptor

import NetEncryptor.Core.FragTable

/-!
# Many peers, one table

Every peer numbers the packets that it splits, and a number modulo `2^16` is the packet id of both
fragments.  The fragments of all peers end up in one table, in any order, some of them more than
once and some not at all.  The table asks for no sender: a second fragment completes the last first
fragment that came with the same id in time.  As long as no second fragment meets a waiting one of
another peer, that first fragment is of the same packet (`reassembled_ofOnePacket`).
-/

namespace NetEncryptor

/-! ## Splitting -/

/-- `frag_next_pkt_id`, called when the counter has the given value. -/
def fragNextPktId (counter : ℕ) : ℕ := counter % 65536

namespace SplitLayer

def splitAndEncrypt : SplitLayer → Evp → CryptoParams → PacketCryptoCtx → ℕ → ℕ → ℕ → Packet → ℕ →
    Packet → Packet → Option ((Packet × ℕ) × Packet × ℕ)
  | l2 => fragSplitAndEncryptL2
  | l3 => fragSplitAndEncrypt
  | l4 => fragSplitAndEncryptL4

def decryptFragment : SplitLayer → Evp → CryptoParams → PacketCryptoCtx → FragDecoder
  | l2 => cryptoLayer2DecryptFragment
  | l3 => cryptoLayer3DecryptFragment
  | l4 => cryptoLayer4DecryptFragment

end SplitLayer

/-- A packet that a peer splits, with the policy and the keys under which it does, the counters of
the two nonces and the buffers of the fragments. -/
structure SplitPacket where
  params : CryptoParams
  nonceSizeOk : params.NonceSizeOk
  ctx : PacketCryptoCtx
  counter₁ : ℕ
  counter₂ : ℕ
  pktData : Packet
  pktLen : ℕ
  frag1 : Packet
  frag2 : Packet

def SplitPacket.fragments (layer : SplitLayer) (evp : Evp) (sp : SplitPacket) (number : ℕ) :
    Option ((Packet × ℕ) × Packet × ℕ) :=
  layer.splitAndEncrypt evp sp.params sp.ctx sp.counter₁ sp.counter₂ (fragNextPktId number)
    sp.pktData sp.pktLen sp.frag1 sp.frag2

section

variable {evp : Evp} {P : CryptoParams} {ctx : PacketCryptoCtx} {counter₁ counter₂ pktId len : ℕ}
  {p out₁ out₂ : Packet} {fs : (Packet × ℕ) × Packet × ℕ}

theorem SplitLayer.decryptFragment_fragments (layer : SplitLayer) (hevp : evp.Lawful)
    (hns : P.NonceSizeOk) (hid : pktId < 65536)
    (h : layer.splitAndEncrypt evp P ctx counter₁ counter₂ pktId p len out₁ out₂ = some fs) :
    (∃ d, layer.decryptFragment evp P ctx fs.1.1 fs.1.2 = some d ∧ d.pktId = pktId ∧
      d.fragIndex = 0) ∧
    ∃ d, layer.decryptFragment evp P ctx fs.2.1 fs.2.2 = some d ∧ d.pktId = pktId ∧
      d.fragIndex = 1 := by
  have hid' : pktId % 65536 = pktId := Nat.mod_eq_of_lt hid
  cases layer with
  | l2 =>
    obtain ⟨_, _, -, -, -, he₁, he₂⟩ := fragSplitAndEncryptL2_spec h
    obtain ⟨hl₁, hf₁⟩ := cryptoLayer2EncryptFragmentSingle_frame hns he₁
    obtain ⟨hl₂, hf₂⟩ := cryptoLayer2EncryptFragmentSingle_frame hns he₂
    obtain ⟨_, hd₁, -⟩ := hf₁.decrypt hevp
    obtain ⟨_, hd₂, -⟩ := hf₂.decrypt hevp
    exact ⟨⟨_, hl₁ ▸ hd₁, hid', rfl⟩, _, hl₂ ▸ hd₂, hid', rfl⟩
  | l3 =>
    have hp := tcpUdpFrame_of_fragSplitAndEncrypt h
    obtain ⟨_, _, _, -, -, -, -, -, he₁, he₂⟩ := fragSplitAndEncrypt_spec h
    obtain ⟨hl₁, hf₁⟩ := cryptoLayer3EncryptFragmentSingle_frame hns he₁
    obtain ⟨hl₂, hf₂⟩ := cryptoLayer3EncryptFragmentSingle_frame hns he₂
    obtain ⟨_, hd₁, -⟩ := hf₁.decrypt hp.ipv4.2 rfl hevp
    obtain ⟨_, hd₂, -⟩ := hf₂.decrypt hp.ipv4.2 rfl hevp
    exact ⟨⟨_, hl₁ ▸ hd₁, hid', rfl⟩, _, hl₂ ▸ hd₂, hid', rfl⟩
  | l4 =>
    have hp := tcpUdpFrame_of_fragSplitAndEncryptL4 h
    obtain ⟨_, _, _, -, -, -, -, -, he₁, he₂⟩ := fragSplitAndEncryptL4_spec h
    obtain ⟨hl₁, hf₁⟩ := cryptoLayer4EncryptFragmentSingle_frame hns hp.ihl_ge he₁
    obtain ⟨hl₂, hf₂⟩ := cryptoLayer4EncryptFragmentSingle_frame hns hp.ihl_ge he₂
    obtain ⟨_, hd₁, -⟩ := hf₁.decrypt hp.ipv4.2 rfl hp.ihl_ge hp.proto hevp
    obtain ⟨_, hd₂, -⟩ := hf₂.decrypt hp.ipv4.2 rfl hp.ihl_ge hp.proto hevp
    exact ⟨⟨_, hl₁ ▸ hd₁, hid', rfl⟩, _, hl₂ ▸ hd₂, hid', rfl⟩

end

/-! ## Arrivals -/

/-- A fragment of the given packet of a peer arrives, at a time and with an output buffer. -/
structure Arrival (ι : Type*) where
  peer : ι
  number : ℕ
  second : Bool
  outBuf : Packet
  outLen : ℕ
  now : ℕ

inductive PeerEvent (ι : Type*)
  | arrival (a : Arrival ι)
  | gc (now : ℕ)

def arrivals {ι : Type*} (es : List (PeerEvent ι)) : List (Arrival ι) :=
  es.filterMap fun
    | .arrival a => some a
    | .gc _ => none

theorem mem_arrivals {ι : Type*} {es : List (PeerEvent ι)} {a : Arrival ι} :
    a ∈ arrivals es ↔ .arrival a ∈ es := by
  unfold arrivals
  rw [List.mem_filterMap]
  refine ⟨?_, fun h => ⟨_, h, rfl⟩⟩
  rintro ⟨e, he, heq⟩
  cases e with
  | gc now => cases heq
  | arrival b => exact Option.some.inj heq ▸ he

section

variable {ι : Type*} (layer : SplitLayer) (evp : Evp) (sent : ι → ℕ → SplitPacket)

/-- The reassembly call for a fragment that arrives, when the fragment can be decrypted. -/
def Arrival.call (a : Arrival ι) : Option ReassembleCall :=
  let sp := sent a.peer a.number
  (sp.fragments layer evp a.number).bind fun fs =>
    let f := if a.second then fs.2 else fs.1
    (layer.decryptFragment evp sp.params sp.ctx f.1 f.2).map fun d =>
      ⟨d.packet, d.len, d.pktId, d.fragIndex, a.outBuf, a.outLen, a.now⟩

/-- What an event is for the table. -/
def PeerEvent.toTable : PeerEvent ι → Option TableEvent
  | .arrival a => (a.call layer evp sent).map .reassemble
  | .gc now => some (.gc now)

/-- What the table sees of the events. -/
def tableEvents (es : List (PeerEvent ι)) : List TableEvent :=
  es.filterMap (PeerEvent.toTable layer evp sent)

variable {layer evp sent}

theorem Arrival.call_spec (hevp : evp.Lawful) {a : Arrival ι} {c : ReassembleCall}
    (h : a.call layer evp sent = some c) :
    c.pktId = fragNextPktId a.number ∧ c.fragIndex = (if a.second then 1 else 0) ∧
      c.now = a.now := by
  unfold Arrival.call at h
  obtain ⟨fs, hfs, h⟩ := Option.bind_eq_some_iff.mp h
  obtain ⟨d, hd, rfl⟩ := Option.map_eq_some_iff.mp h
  obtain ⟨⟨d₁, hd₁, hid₁, hidx₁⟩, d₂, hd₂, hid₂, hidx₂⟩ := layer.decryptFragment_fragments hevp
    (sent a.peer a.number).nonceSizeOk (Nat.mod_lt _ (by decide)) hfs
  cases hs : a.second with
  | false =>
    rw [hs] at hd
    obtain rfl := Option.some.inj (hd.symm.trans hd₁)
    exact ⟨hid₁, hidx₁, rfl⟩
  | true =>
    rw [hs] at hd
    obtain rfl := Option.some.inj (hd.symm.trans hd₂)
    exact ⟨hid₂, hidx₂, rfl⟩

theorem exists_arrival_of_mem {es : List (PeerEvent ι)} {c : ReassembleCall}
    (h : .reassemble c ∈ tableEvents layer evp sent es) :
    ∃ a ∈ arrivals es, a.call layer evp sent = some c := by
  obtain ⟨e, he, htable⟩ := List.mem_filterMap.mp h
  cases e with
  | gc now => cases htable
  | arrival a =>
    obtain ⟨c', hc', heq⟩ := Option.map_eq_some_iff.mp htable
    exact ⟨a, mem_arrivals.mpr he, hc'.trans (congrArg some (TableEvent.reassemble.inj heq))⟩

/-! ## Packets of one peer -/

/-- The first fragment arrives before the second one, and can still be in the table then. -/
def InTime (first second : Arrival ι) : Prop :=
  first.now ≤ second.now ∧ second.now - first.now ≤ fragTimeoutNs

/-- A peer has fewer than `2^16` packets in flight: the numbers of two packets of which fragments
arrive within the timeout are closer than that. -/
def FewInFlight (es : List (PeerEvent ι)) : Prop :=
  ∀ a ∈ arrivals es, ∀ b ∈ arrivals es, a.peer = b.peer → InTime a b →
    a.number < b.number + 65536 ∧ b.number < a.number + 65536

instance (first second : Arrival ι) : Decidable (InTime first second) :=
  inferInstanceAs (Decidable (_ ∧ _))

instance [DecidableEq ι] (es : List (PeerEvent ι)) : Decidable (FewInFlight es) :=
  inferInstanceAs (Decidable (∀ a ∈ arrivals es, ∀ b ∈ arrivals es, _))

/-! ## Fragments that wait -/

variable (layer evp sent)

/-- The fragment that arrived is waiting in the table: its call stored it, and nothing has happened
to its slot since. -/
def Pending (es : List (PeerEvent ι)) (b : Arrival ι) (first : ReassembleCall) : Prop :=
  b.call layer evp sent = some first ∧
    ∃ es₁ es₂ s₁ s₂, es = es₁ ++ .arrival b :: es₂ ∧
      Runs.run (fragTableStep layer) FragTableState.init (tableEvents layer evp sent es₁) =
        some s₁ ∧
      (first.result layer.reassemble s₁.table).ret = 0 ∧
      fragTableStep layer s₁ (.reassemble first) = some s₂ ∧
      Runs.StepsMeet (fragTableStep layer) (LeavesSlot layer first.slot) s₂
        (tableEvents layer evp sent es₂)

/-- The second fragment comes with the id of the waiting one, and in time. -/
def Meets (es : List (PeerEvent ι)) (b a : Arrival ι) : Prop :=
  (∃ first, Pending layer evp sent es b first) ∧ a.second = true ∧
    fragNextPktId b.number = fragNextPktId a.number ∧ InTime b a

/-- No second fragment meets a waiting fragment of another peer. -/
def PeersApart (es : List (PeerEvent ι)) : Prop :=
  ∀ es₁ a es₂, es = es₁ ++ .arrival a :: es₂ → ∀ b, Meets layer evp sent es₁ b a → b.peer = a.peer

variable {layer evp sent} {es : List (PeerEvent ι)} {a b : Arrival ι} {first : ReassembleCall}

theorem tableEvents_append (es₁ es₂ : List (PeerEvent ι)) :
    tableEvents layer evp sent (es₁ ++ es₂) =
      tableEvents layer evp sent es₁ ++ tableEvents layer evp sent es₂ := List.filterMap_append

theorem tableEvents_arrival (h : a.call layer evp sent = some first) (es : List (PeerEvent ι)) :
    tableEvents layer evp sent (.arrival a :: es) =
      .reassemble first :: tableEvents layer evp sent es :=
  List.filterMap_cons_some (by show (a.call layer evp sent).map _ = _; rw [h]; rfl)

theorem Pending.mem (h : Pending layer evp sent es b first) : b ∈ arrivals es := by
  obtain ⟨-, es₁, es₂, -, -, rfl, -⟩ := h
  exact mem_arrivals.mpr (List.mem_append_right _ List.mem_cons_self)

/-- The last call that stored into a slot is that of the fragment that waits there. -/
theorem exists_pending {i : ℕ} (h : LastStore layer (tableEvents layer evp sent es) i first) :
    ∃ b, Pending layer evp sent es b first := by
  obtain ⟨rfl, as₁, _, as₂, s₁, s₂, has, hrun, ⟨rfl, hret⟩, hstep, hmeet⟩ := h
  obtain ⟨es₁, es', rfl, rfl, htail⟩ := List.filterMap_eq_append_iff.mp has
  obtain ⟨skipped, e, es₂, rfl, hskipped, htable, rfl⟩ := List.filterMap_eq_cons_iff.mp htail
  cases e with
  | gc now => cases htable
  | arrival b =>
    obtain ⟨c, hc, heq⟩ := Option.map_eq_some_iff.mp htable
    obtain rfl := TableEvent.reassemble.inj heq
    refine ⟨b, hc, es₁ ++ skipped, es₂, s₁, s₂, (List.append_assoc _ _ _).symm, ?_, hret, hstep,
      hmeet⟩
    -- what could not be decrypted is no event of the table
    have hnone : tableEvents layer evp sent skipped = [] := List.filterMap_eq_nil_iff.mpr hskipped
    rw [tableEvents_append, hnone, List.append_nil]
    exact hrun

/-- A fragment that waits after one more event has just come, or has waited before and the event
leaves its slot. -/
theorem Pending.of_concat {e : PeerEvent ι} {s : FragTableState}
    (h : Pending layer evp sent (es ++ [e]) b first)
    (hrun : Runs.run (fragTableStep layer) FragTableState.init (tableEvents layer evp sent es) =
      some s) :
    e = .arrival b ∨ Pending layer evp sent es b first ∧
      ∀ t ∈ e.toTable layer evp sent, LeavesSlot layer first.slot s t := by
  obtain ⟨hcall, es₁, es₂, s₁, s₂, hes, hrun₁, hret, hstep, hmeet⟩ := h
  rcases Runs.concat_eq_append_cons hes with ⟨-, rfl, -⟩ | ⟨es₂, rfl, rfl⟩
  · exact .inl rfl
  · rw [tableEvents_append] at hmeet
    -- the state before the last event, from the one in which the fragment was stored
    have hrun₂ : Runs.run (fragTableStep layer) s₂ (tableEvents layer evp sent es₂) = some s := by
      rw [tableEvents_append, tableEvents_arrival hcall] at hrun
      exact Runs.run_behind hrun hrun₁ hstep
    cases ht : e.toTable layer evp sent with
    | none =>
      have hlast : tableEvents layer evp sent [e] = [] := List.filterMap_cons_none ht
      rw [hlast, List.append_nil] at hmeet
      exact .inr ⟨⟨hcall, es₁, es₂, s₁, s₂, rfl, hrun₁, hret, hstep, hmeet⟩, fun _ h => nomatch h⟩
    | some t =>
      have hlast : tableEvents layer evp sent [e] = [t] := List.filterMap_cons_some ht
      rw [hlast] at hmeet
      obtain ⟨hmeet, hleaves⟩ := hmeet.of_concat hrun₂
      refine .inr ⟨⟨hcall, es₁, es₂, s₁, s₂, rfl, hrun₁, hret, hstep, hmeet⟩, fun t' ht' => ?_⟩
      exact Option.some.inj ht' ▸ hleaves

theorem Pending.second (hevp : evp.Lawful) (h : Pending layer evp sent es b first) :
    b.second = false := by
  obtain ⟨hcall, _, _, s₁, _, -, -, hret, -⟩ := h
  obtain ⟨-, hidx, -⟩ := b.call_spec hevp hcall
  have hout := layer.outcome s₁.table first
  generalize first.result layer.reassemble s₁.table = r at hout hret
  cases hout with
  | refused => simp at hret
  | stored hstored =>
    cases hs : b.second with
    | false => rfl
    | true =>
      rw [hstored.fragIndex, hs] at hidx
      exact absurd hidx (by decide)
  | dropped => simp at hret
  | completed => simp at hret

/-- A second fragment that completes a packet leaves nothing waiting in its slot. -/
theorem Pending.of_completed (hevp : evp.Lawful) {c : ReassembleCall} {s : FragTableState}
    (h : Pending layer evp sent (es ++ [.arrival a]) b first) (ha : a.second = true)
    (hrun : Runs.run (fragTableStep layer) FragTableState.init (tableEvents layer evp sent es) =
      some s)
    (hcall : a.call layer evp sent = some c)
    (hret : (c.result layer.reassemble s.table).ret = 1) :
    Pending layer evp sent es b first ∧ first.slot ≠ c.slot := by
  rcases h.of_concat hrun with heq | ⟨hpending, hleaves⟩
  · obtain rfl := PeerEvent.arrival.inj heq
    exact absurd ((h.second hevp).symm.trans ha) Bool.false_ne_true
  · refine ⟨hpending, fun hslot => ?_⟩
    have htable : (PeerEvent.arrival a).toTable layer evp sent = some (.reassemble c) :=
      congrArg (Option.map TableEvent.reassemble) hcall
    have hused := (hleaves _ htable).notUsed c rfl hslot.symm
    rw [hret] at hused
    exact absurd hused (by decide)

theorem PeersApart.nil : PeersApart layer evp sent [] :=
  fun _ _ _ h => absurd h.symm (List.append_ne_nil_of_right_ne_nil _ (List.cons_ne_nil _ _))

theorem PeersApart.concat (h : PeersApart layer evp sent es)
    (ha : ∀ b, Meets layer evp sent es b a → b.peer = a.peer) :
    PeersApart layer evp sent (es ++ [.arrival a]) := by
  intro es₁ a' es₂ hes
  rcases Runs.concat_eq_append_cons hes with ⟨rfl, hlast, -⟩ | ⟨es₂, -, hbefore⟩
  · obtain rfl := PeerEvent.arrival.inj hlast
    exact ha
  · exact h es₁ a' es₂ hbefore

theorem PeersApart.of_subsingleton [Subsingleton ι] : PeersApart layer evp sent es :=
  fun _ _ _ _ _ _ => Subsingleton.elim _ _

/-! ## The law -/

variable (layer evp sent)

/-- The output is what the join makes of a first fragment that has arrived and of the second
fragment of the same packet. -/
structure OfOnePacket (es : List (PeerEvent ι)) (a : Arrival ι) (c : ReassembleCall)
    (r : Reassembly) : Prop where
  second : a.second = true
  joined : ∃ b ∈ arrivals es, ∃ first entry, b.second = false ∧
    (b.peer = a.peer ∧ b.number = a.number) ∧ b.call layer evp sent = some first ∧
    StoredBy layer entry first ∧
    (r.outBuf, r.outLen) = layer.join entry (c.pktData.shift (layer.bodyOff c.pktData))
      (layer.bodyLen c.pktData c.pktLen) c.outBuf

variable {layer evp sent}

/-- **No mixing.** In any run with few packets in flight, in which no second fragment meets a
waiting fragment of another peer, every packet that the table puts out is made of the two fragments
of one packet of one peer. -/
theorem reassembled_ofOnePacket (hevp : evp.Lawful) {es es₁ es₂ : List (PeerEvent ι)}
    {a : Arrival ι} {c : ReassembleCall} {s : FragTableState} (hflight : FewInFlight es)
    (hapart : PeersApart layer evp sent es) (hes : es = es₁ ++ .arrival a :: es₂)
    (hrun : Runs.run (fragTableStep layer) FragTableState.init (tableEvents layer evp sent es₁) =
      some s)
    (hcall : a.call layer evp sent = some c) (hnow : s.clock ≤ a.now)
    (hret : (c.result layer.reassemble s.table).ret = 1) :
    OfOnePacket layer evp sent es₁ a c (c.result layer.reassemble s.table) := by
  obtain ⟨hida, hidxa, hnowa⟩ := a.call_spec hevp hcall
  obtain ⟨h₁, first, hlast, hid, htime, hstored, out, hjoin, hr⟩ :=
    completed_lastStore hrun (hnowa ▸ hnow) hret
  obtain ⟨b, hpending⟩ := exists_pending hlast
  obtain ⟨hidb, -, hnowb⟩ := b.call_spec hevp hpending.1
  have hsecond : a.second = true := by
    cases hs : a.second with
    | true => rfl
    | false => rw [h₁, hs] at hidxa; exact absurd hidxa (by decide)
  have hin : InTime b a := by
    rw [hnowa, hnowb] at htime
    exact htime
  have hsame : fragNextPktId b.number = fragNextPktId a.number := by rw [← hidb, hid, hida]
  have hpeer : b.peer = a.peer := hapart es₁ a es₂ hes b ⟨⟨first, hpending⟩, hsecond, hsame, hin⟩
  have hbes : b ∈ arrivals es :=
    mem_arrivals.mpr (hes ▸ List.mem_append_left _ (mem_arrivals.mp hpending.mem))
  have haes : a ∈ arrivals es :=
    mem_arrivals.mpr (hes ▸ List.mem_append_right _ List.mem_cons_self)
  have hnumber : b.number = a.number := by
    have := hflight b hbes a haes hpeer hin
    unfold fragNextPktId at hsame
    omega
  refine ⟨hsecond, b, hpending.mem, first, _, hpending.second hevp, ⟨hpeer, hnumber⟩, hpending.1,
    hstored, ?_⟩
  rw [hr, ← hjoin]

end

/-- Two peers: one sends "ping" under the policy `7` and the other one a longer datagram under the
policy `8`. -/
def twoPeers (peer : Bool) (_ : ℕ) : SplitPacket where
  params := { sampleParams .ctr with policyId := if peer then 8 else 7 }
  nonceSizeOk := by cases peer <;> decide
  ctx := sampleCtx Key.zero
  counter₁ := 0
  counter₂ := 1
  pktData := if peer then seePageFrame else pingFrame
  pktLen := if peer then 66 else 46
  frag1 := fun _ => 0
  frag2 := fun _ => 0

def arrivalOf (peer : Bool) (number : ℕ) (second : Bool) (now : ℕ) : Arrival Bool :=
  ⟨peer, number, second, fun _ => 0, 0, now⟩

/-- The fragments of two packets with the same id, one packet after the other. -/
def inTurn : List (PeerEvent Bool) :=
  [.arrival (arrivalOf false 0 false 1000), .arrival (arrivalOf false 0 true 2000),
    .arrival (arrivalOf true 0 false 3000)]

theorem peersApart_inTurn :
    PeersApart .l4 splitEvp twoPeers (inTurn ++ [.arrival (arrivalOf true 0 true 4000)]) := by
  have hevp : splitEvp.Lawful := Evp.lawful_ofStream _ _ _
  have hfirst : ∀ {es a}, a.second = false → ∀ b, Meets .l4 splitEvp twoPeers es b a →
      b.peer = a.peer := fun ha b hb => absurd (ha.symm.trans hb.2.1) Bool.false_ne_true
  refine .concat (.concat (.concat (.concat .nil (hfirst rfl)) ?_) (hfirst rfl)) ?_
  · rintro b ⟨⟨first, hpending⟩, -⟩
    obtain rfl := List.mem_singleton.mp hpending.mem
    rfl
  · rintro b ⟨⟨first, hpending⟩, -⟩
    obtain ⟨c, hc⟩ := Option.isSome_iff_exists.mp
      (show ((arrivalOf false 0 true 2000).call .l4 splitEvp twoPeers).isSome = true by
        decide +kernel)
    obtain ⟨s₂, hs₂⟩ := Option.isSome_iff_exists.mp
      (show (Runs.run (fragTableStep .l4) FragTableState.init
        (tableEvents .l4 splitEvp twoPeers (inTurn.take 2))).isSome = true by decide +kernel)
    obtain ⟨s₁, hs₁⟩ := Option.isSome_iff_exists.mp
      (show (Runs.run (fragTableStep .l4) FragTableState.init
        (tableEvents .l4 splitEvp twoPeers (inTurn.take 1))).isSome = true by decide +kernel)
    have hret : ∀ s ∈ Runs.run (fragTableStep .l4) FragTableState.init
        (tableEvents .l4 splitEvp twoPeers (inTurn.take 1)),
        ∀ c ∈ (arrivalOf false 0 true 2000).call .l4 splitEvp twoPeers,
          (c.result fragTryReassembleL4 s.table).ret = 1 := by decide +kernel
    rcases hpending.of_concat hs₂ with heq | ⟨hpending, -⟩
    · obtain rfl := PeerEvent.arrival.inj heq
      rfl
    · obtain ⟨hpending, hslot⟩ := hpending.of_completed hevp rfl hs₁ hc (hret s₁ hs₁ c hc)
      obtain rfl := List.mem_singleton.mp hpending.mem
      obtain ⟨hid, -⟩ := Arrival.call_spec hevp hpending.1
      obtain ⟨hid', -⟩ := Arrival.call_spec hevp hc
      exact absurd (congrArg (fun i => i % fragTableSize) (hid.trans hid'.symm)) hslot

theorem reassembled_ofOnePacket_inTurn :
    ∃ c s, (arrivalOf true 0 true 4000).call .l4 splitEvp twoPeers = some c ∧
      Runs.run (fragTableStep .l4) FragTableState.init
        (tableEvents .l4 splitEvp twoPeers inTurn) = some s ∧
      OfOnePacket .l4 splitEvp twoPeers inTurn (arrivalOf true 0 true 4000) c
        (c.result fragTryReassembleL4 s.table) := by
  obtain ⟨s, hs⟩ := Option.isSome_iff_exists.mp
    (show (Runs.run (fragTableStep .l4) FragTableState.init
      (tableEvents .l4 splitEvp twoPeers inTurn)).isSome = true by decide +kernel)
  obtain ⟨c, hc⟩ := Option.isSome_iff_exists.mp
    (show ((arrivalOf true 0 true 4000).call .l4 splitEvp twoPeers).isSome = true by decide +kernel)
  have hend : ∀ s ∈ Runs.run (fragTableStep .l4) FragTableState.init
      (tableEvents .l4 splitEvp twoPeers inTurn), s.clock ≤ 4000 ∧
        ∀ c ∈ (arrivalOf true 0 true 4000).call .l4 splitEvp twoPeers,
          (c.result fragTryReassembleL4 s.table).ret = 1 := by decide +kernel
  have hes : inTurn ++ [.arrival (arrivalOf true 0 true 4000)] =
    inTurn ++ .arrival (arrivalOf true 0 true 4000) :: [] := rfl
  exact ⟨c, s, hc, hs, reassembled_ofOnePacket (Evp.lawful_ofStream _ _ _) (by decide)
    peersApart_inTurn hes hs hc (hend s hs).1 ((hend s hs).2 c hc)⟩

/-- The first fragment of one peer. -/
def oneFirst : List (PeerEvent Bool) := [.arrival (arrivalOf false 0 false 1000)]

/-- With the ids of two peers equal, the table completes the first one's packet with the second
one's bytes. -/
theorem not_ofOnePacket_oneFirst :
    FewInFlight (oneFirst ++ [.arrival (arrivalOf true 0 true 2000)]) ∧
    ∃ c s, (arrivalOf true 0 true 2000).call .l4 splitEvp twoPeers = some c ∧
      Runs.run (fragTableStep .l4) FragTableState.init
        (tableEvents .l4 splitEvp twoPeers oneFirst) = some s ∧ s.clock ≤ 2000 ∧
      (c.result fragTryReassembleL4 s.table).ret = 1 ∧
      ¬ OfOnePacket .l4 splitEvp twoPeers oneFirst (arrivalOf true 0 true 2000) c
        (c.result fragTryReassembleL4 s.table) := by
  refine ⟨by decide, ?_⟩
  obtain ⟨s, hs⟩ := Option.isSome_iff_exists.mp
    (show (Runs.run (fragTableStep .l4) FragTableState.init
      (tableEvents .l4 splitEvp twoPeers oneFirst)).isSome = true by decide +kernel)
  obtain ⟨c, hc⟩ := Option.isSome_iff_exists.mp
    (show ((arrivalOf true 0 true 2000).call .l4 splitEvp twoPeers).isSome = true by decide +kernel)
  have hend : ∀ s ∈ Runs.run (fragTableStep .l4) FragTableState.init
      (tableEvents .l4 splitEvp twoPeers oneFirst), s.clock ≤ 2000 ∧
        ∀ c ∈ (arrivalOf true 0 true 2000).call .l4 splitEvp twoPeers,
          (c.result fragTryReassembleL4 s.table).ret = 1 := by decide +kernel
  refine ⟨c, s, hc, hs, (hend s hs).1, (hend s hs).2 c hc, ?_⟩
  rintro ⟨-, b, hb, -, -, -, ⟨hpeer, -⟩, -⟩
  obtain rfl := List.mem_singleton.mp hb
  cases hpeer

end NetEncryptor

import NetEncryptor.Core.WanFilter
import NetEncryptor.Core.Worker

/-!
# The LAN filter and the parser of the forwarder

`xdp_redirect_prog` gives the forwarder the TCP and UDP frames of the LAN side; it asks for four
bytes behind the IP header, where the ports are.  `parse_flow` reads the same fields of the frame,
but asks for a whole TCP or UDP header.  The two never read different values
(`parseFlow_eq_of_kernelReads`), and they agree exactly on the frames with a whole header
(`parseFlow_agrees_iff`); `worker_thread` sends the others without looking for their policy.
-/

namespace NetEncryptor

/-! ## The kernel program -/

/-- `parse_ipv4`: source, destination and protocol; `none` stands for `-1`. -/
def parseIpv4 (data : Packet) (len : ℕ) : Option (UInt32 × UInt32 × UInt8) :=
  if len < ethHeaderSize then none
  else if data.be16 12 ≠ 0x0800 then none
  else if len < ethHeaderSize + 20 then none
  else
    some (le32 data (ethHeaderSize + 12), le32 data (ethHeaderSize + 16), data (ethHeaderSize + 9))

/-- `none` stands for `-1`. -/
def readTcpUdpPorts (data : Packet) (len : ℕ) (ipProto : UInt8) : Option (ℕ × ℕ) :=
  if ipProto ≠ 6 ∧ ipProto ≠ 17 then some (0, 0)
  else if len < ethHeaderSize + 20 then none
  else
    let ihl := ihlAt data ethHeaderSize
    let l4 := ethHeaderSize + ihl
    if ihl < 20 then none
    else if len < l4 + 4 then none
    else some (data.be16 l4, data.be16 (l4 + 2))

/-- `sock` says whether a socket is registered in `xsks_map`.  The counters are left out. -/
def xdpRedirectProg (sock : Bool) (data : Packet) (len : ℕ) : XdpAction :=
  if len < ethHeaderSize then .pass
  else if data.be16 12 = 0x0806 then .pass
  else
    match parseIpv4 data len with
    | none => .pass
    | some (_, _, l4Proto) =>
      if l4Proto = 1 then .pass
      else if l4Proto ≠ 6 ∧ l4Proto ≠ 17 then .pass
      else
        match readTcpUdpPorts data len l4Proto with
        | none => .pass
        | some _ => if sock then .redirect else .pass

/-- What the program has read of the frame when it comes to its redirect. -/
def KernelReads (data : Packet) (len : ℕ) (t : FlowTuple) : Prop :=
  parseIpv4 data len = some (t.srcIp, t.dstIp, t.protocol) ∧
    readTcpUdpPorts data len t.protocol = some (t.srcPort, t.dstPort)

/-- The fields of an untagged IPv4 frame, where both parsers look for them. -/
def flowOf (data : Packet) : FlowTuple where
  srcIp := le32 data (ethHeaderSize + 12)
  dstIp := le32 data (ethHeaderSize + 16)
  srcPort := data.be16 (ethHeaderSize + ihlAt data ethHeaderSize)
  dstPort := data.be16 (ethHeaderSize + ihlAt data ethHeaderSize + 2)
  protocol := data (ethHeaderSize + 9)

/-- There is a whole TCP or UDP header behind the IP header. -/
def WholeTransport (data : Packet) (len : ℕ) : Prop :=
  ethHeaderSize + ihlAt data ethHeaderSize +
    (if data (ethHeaderSize + 9) = ipprotoTcp then 20 else 8) ≤ len

instance (data : Packet) (len : ℕ) : Decidable (WholeTransport data len) :=
  inferInstanceAs (Decidable (_ ≤ _))

/-- What the program knows of a frame that it redirects. -/
structure Redirected (data : Packet) (len : ℕ) : Prop where
  ipv4 : data.be16 12 = 0x0800
  proto : data (ethHeaderSize + 9) = 6 ∨ data (ethHeaderSize + 9) = 17
  ihl_ge : 20 ≤ ihlAt data ethHeaderSize
  ports : ethHeaderSize + ihlAt data ethHeaderSize + 4 ≤ len

section

variable {sock : Bool} {data : Packet} {len : ℕ} {t : FlowTuple}

theorem redirected_of_redirect (h : xdpRedirectProg sock data len = .redirect) :
    Redirected data len := by
  unfold xdpRedirectProg parseIpv4 readTcpUdpPorts at h
  by_cases hlen : len < ethHeaderSize
  · rw [if_pos hlen] at h; cases h
  rw [if_neg hlen] at h
  by_cases harp : data.be16 12 = 0x0806
  · rw [if_pos harp] at h; cases h
  rw [if_neg harp, if_neg hlen] at h
  by_cases hip : data.be16 12 ≠ 0x0800
  · rw [if_pos hip] at h; cases h
  rw [if_neg hip] at h
  by_cases h₂₀ : len < ethHeaderSize + 20
  · rw [if_pos h₂₀] at h; cases h
  rw [if_neg h₂₀] at h
  simp only at h
  by_cases hicmp : data (ethHeaderSize + 9) = 1
  · rw [if_pos hicmp] at h; cases h
  rw [if_neg hicmp] at h
  by_cases hproto : data (ethHeaderSize + 9) ≠ 6 ∧ data (ethHeaderSize + 9) ≠ 17
  · rw [if_pos hproto] at h; cases h
  rw [if_neg hproto, if_neg hproto, if_neg h₂₀] at h
  by_cases hihl : ihlAt data ethHeaderSize < 20
  · rw [if_pos hihl] at h; cases h
  rw [if_neg hihl] at h
  by_cases hports : len < ethHeaderSize + ihlAt data ethHeaderSize + 4
  · rw [if_pos hports] at h; cases h
  exact ⟨not_not.mp hip, by tauto, not_lt.mp hihl, not_lt.mp hports⟩

namespace Redirected

variable (h : Redirected data len)
include h

theorem length_ge : ethHeaderSize + 20 ≤ len := by
  have := h.ihl_ge
  have := h.ports
  omega

theorem kernelReads_iff : KernelReads data len t ↔ t = flowOf data := by
  have hip := h.ipv4
  have hproto := h.proto
  have h₂₀ := h.ihl_ge
  have hports := h.ports
  have hlen := h.length_ge
  have hparse : parseIpv4 data len = some ((flowOf data).srcIp, (flowOf data).dstIp,
      (flowOf data).protocol) := by
    unfold parseIpv4
    rw [if_neg (by omega), if_neg (not_not.mpr hip), if_neg (by omega)]
    rfl
  have hread : readTcpUdpPorts data len (flowOf data).protocol =
      some ((flowOf data).srcPort, (flowOf data).dstPort) := by
    have hnot : ¬ ((flowOf data).protocol ≠ 6 ∧ (flowOf data).protocol ≠ 17) := by
      show ¬ (data (ethHeaderSize + 9) ≠ 6 ∧ data (ethHeaderSize + 9) ≠ 17)
      tauto
    unfold readTcpUdpPorts
    rw [if_neg hnot, if_neg (by omega)]
    simp only
    rw [if_neg (by omega), if_neg (by omega)]
    rfl
  unfold KernelReads
  rw [hparse]
  constructor
  · rintro ⟨hhdr, htr⟩
    obtain ⟨hsrc, hdst, hpr⟩ := by simpa using hhdr
    rw [← hpr, hread] at htr
    obtain ⟨hsport, hdport⟩ := by simpa using htr
    obtain ⟨srcIp, dstIp, srcPort, dstPort, protocol⟩ := t
    simp only at hsrc hdst hpr hsport hdport
    rw [← hsrc, ← hdst, ← hpr, ← hsport, ← hdport]
  · rintro rfl
    exact ⟨rfl, hread⟩

theorem parseFlow_eq :
    parseFlow data len = if WholeTransport data len then some (flowOf data) else none := by
  have heth : ethHeaderSize = 14 := rfl
  have hip := h.ipv4
  have h₂₀ := h.ihl_ge
  have hlen := h.length_ge
  have hoff : cryptoEthIpv4Offset data len = some ethHeaderSize := by
    unfold cryptoEthIpv4Offset
    rw [if_neg (by omega), if_pos hip]
    rfl
  unfold parseFlow
  rw [hoff]
  simp only
  rw [if_neg (by omega), if_neg (by omega)]
  rcases h.proto with hproto | hproto
  · have htcp : data (ethHeaderSize + 9) = ipprotoTcp := hproto
    have hwhole : WholeTransport data len ↔
        ¬ len < ethHeaderSize + ihlAt data ethHeaderSize + 20 := by
      unfold WholeTransport
      rw [if_pos htcp, not_lt]
    rw [if_pos htcp, if_congr hwhole rfl rfl, ite_not]
    rfl
  · have hudp : data (ethHeaderSize + 9) = ipprotoUdp := hproto
    have htcp : ¬ data (ethHeaderSize + 9) = ipprotoTcp := by rw [hudp]; decide
    have hwhole : WholeTransport data len ↔
        ¬ len < ethHeaderSize + ihlAt data ethHeaderSize + 8 := by
      unfold WholeTransport
      rw [if_neg htcp, not_lt]
    rw [if_neg htcp, if_pos hudp, if_congr hwhole rfl rfl, ite_not]
    rfl

end Redirected

theorem parseFlow_eq_of_kernelReads (h : xdpRedirectProg sock data len = .redirect)
    {t' : FlowTuple} (hreads : KernelReads data len t) (hparse : parseFlow data len = some t') :
    t' = t := by
  have hr := redirected_of_redirect h
  rw [hr.kernelReads_iff] at hreads
  rw [hr.parseFlow_eq] at hparse
  by_cases hwhole : WholeTransport data len
  · rw [if_pos hwhole] at hparse
    exact (Option.some.inj hparse).symm.trans hreads.symm
  · rw [if_neg hwhole] at hparse
    cases hparse

/-- A frame that `parse_flow` refuses is sent as it came, whatever policy its flow has. -/
theorem workerThread_of_parseFlow_eq_none {E : Encryptors} {fwd : Forwarder} {job : PacketJob}
    (h : parseFlow job.pkt job.pktLen = none) :
    (workerThread E fwd job).sent = sendPlain fwd job := by
  unfold workerThread
  rw [h]
  cases fwd.cryptoEnabled <;> rfl

/-- **When kernel filter and parser agree.** On a frame that the kernel program redirects,
`parse_flow` returns what the program read if and only if the frame has a whole TCP header of 20
bytes, or UDP header of 8, behind its IP header.  On every other one it fails, and `worker_thread`
sends the frame unclassified. -/
theorem parseFlow_agrees_iff (h : xdpRedirectProg sock data len = .redirect) :
    ((∃ t, KernelReads data len t ∧ parseFlow data len = some t) ↔ WholeTransport data len) ∧
    (¬ WholeTransport data len →
      ∀ (E : Encryptors) (fwd : Forwarder) (job : PacketJob), job.pkt = data → job.pktLen = len →
        (workerThread E fwd job).sent = sendPlain fwd job) := by
  have hr := redirected_of_redirect h
  have hparse := hr.parseFlow_eq
  refine ⟨⟨?_, fun hwhole => ?_⟩, fun hshort E fwd job hpkt hlen => ?_⟩
  · rintro ⟨t, -, ht⟩
    by_contra hshort
    rw [hparse, if_neg hshort] at ht
    cases ht
  · refine ⟨flowOf data, hr.kernelReads_iff.mpr rfl, ?_⟩
    rw [hparse, if_pos hwhole]
  · apply workerThread_of_parseFlow_eq_none
    rw [hpkt, hlen, hparse, if_neg hshort]

end

theorem parseFlow_agrees_ackFrame :
    ∃ t, KernelReads ackFrame 54 t ∧ parseFlow ackFrame 54 = some t := by
  have h : xdpRedirectProg true ackFrame 54 = .redirect := by decide
  exact (parseFlow_agrees_iff h).1.mpr (by decide)

/-- The last fragment of a TCP datagram: 60 bytes of IP header with options, 8 bytes of payload. -/
def optionsFragment : Packet :=
  packetOf ([2, 0, 0, 0, 0, 2, 2, 0, 0, 0, 0, 1, 8, 0, 0x4f, 0, 0, 68, 18, 52, 0, 185, 64, 6, 53,
    177, 10, 0, 0, 1, 10, 0, 0, 2] ++ List.replicate 40 1 ++ [195, 80, 1, 187, 0, 0, 0, 1])

/-- The kernel program redirects the fragment and reads a flow for which the forwarder has an
encrypting policy; `parse_flow` refuses the frame, and it is sent in clear. -/
theorem not_parseFlow_agrees_optionsFragment :
    xdpRedirectProg true optionsFragment 82 = .redirect ∧
      KernelReads optionsFragment 82 ackFlow ∧
      (policyForFlow (sampleForwarder ⟨List.replicate 32 1, rfl⟩) ⟨optionsFragment, 82, 0, 0, 1⟩
        ackFlow).1 = some 0 ∧
      (samplePolicy actionEncryptL3).Encrypts ∧
      parseFlow optionsFragment 82 = none ∧
      ∀ E, (workerThread E (sampleForwarder ⟨List.replicate 32 1, rfl⟩)
        ⟨optionsFragment, 82, 0, 0, 1⟩).sent = [(optionsFragment, 82)] := by
  refine ⟨by decide, ⟨by decide, by decide⟩, rfl, .inr (.inl rfl), by decide, fun _ => ?_⟩
  rfl

end NetEncryptor

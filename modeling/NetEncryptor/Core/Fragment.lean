import NetEncryptor.Core.Config
import NetEncryptor.Crypto.Layer2
import NetEncryptor.Crypto.Layer4

/-!
# Splitting and reassembling

`fragment.c`: the tests that decide whether a frame has to be split, the recognition of fragments
and the split at the three layers, and the tables in which a first fragment waits for the second
one.

A table slot is chosen by the packet id.  The receiver does not learn the original protocol of a
layer-3 fragment: `frag_try_reassemble` takes the payload for TCP when it can be a TCP header, and
else for UDP.  At layer 4 the protocol is still in the IP header, and at layer 2 the header itself
is part of the first fragment.
-/

namespace NetEncryptor

def fragMtu : ℕ := 1500

def fragTableSize : ℕ := 4096

def fragTimeoutNs : ℕ := 200 * 1000000

/-- `sizeof(entry->data)`. -/
def fragDataSize : ℕ := 1600

/-- The size of the fragment buffers, on the stack and for output. -/
def fragBufSize : ℕ := 2048

/-- The longest packet that the reassembly makes. -/
def reassembleMax : ℕ := 4096

/-! ## The decision to split -/

def fragNeedSplit (P : CryptoParams) (pktLen : ℕ) : Prop :=
  fragMtu < pktLen + cryptoLayer3FragMetaLen P

def fragNeedSplitL4 (P : CryptoParams) (pktLen : ℕ) : Prop :=
  fragMtu < pktLen + (l4WirePortLen + P.tunnelHdrSize + fragTagSize + P.tagSize)

def fragNeedSplitL2 (P : CryptoParams) (pktLen : ℕ) : Prop :=
  fragMtu < pktLen + cryptoLayer2FragMetaLen P

instance (P : CryptoParams) (pktLen : ℕ) : Decidable (fragNeedSplit P pktLen) :=
  inferInstanceAs (Decidable (_ < _))

instance (P : CryptoParams) (pktLen : ℕ) : Decidable (fragNeedSplitL4 P pktLen) :=
  inferInstanceAs (Decidable (_ < _))

instance (P : CryptoParams) (pktLen : ℕ) : Decidable (fragNeedSplitL2 P pktLen) :=
  inferInstanceAs (Decidable (_ < _))

/-! ## Recognition -/

/-- The test of one policy in `frag_is_fragment_l2`. -/
def isFragmentL2Under (cp : CryptoPolicy) (pkt : Packet) (pktLen : ℕ) : Bool :=
  cp.action == actionEncryptL2 && decide (0 < cp.nonceSize) &&
    decide (ethHeaderSize + cp.nonceSize + 1 + fragTagSize ≤ pktLen) &&
    pkt (ethHeaderSize + cp.nonceSize) == l2FragMagic

/-- The packet id and index of a layer-2 fragment; `none` when the code returns `0`. -/
def fragIsFragmentL2 (P : CryptoParams) (cfg : AppConfig) (pkt : Packet) (pktLen : ℕ) :
    Option (ℕ × UInt8) :=
  if pktLen < 14 + 4 + 1 + fragTagSize then none
  else if ¬ l2HasFakeMarker P pkt then none
  else
    match (cfg.policies.take maxCryptoPolicies).find? fun cp => isFragmentL2Under cp pkt pktLen with
    | none => none
    | some cp =>
      let tagOff := ethHeaderSize + cp.nonceSize + 1
      if 1 < (readFragIndex pkt tagOff).toNat then none
      else some (readFragPktId pkt tagOff, readFragIndex pkt tagOff)

/-- The length of a valid IP header; `none` stands for `-1`. -/
def fragRequireIpv4 (pkt : Packet) (pktLen : ℕ) : Option ℕ :=
  if pktIsIpv4 pkt pktLen then ipv4HdrLenAt pkt pktLen ethHeaderSize else none

/-- The tag that `frag_read_hdr` reads, if its index is `0` or `1`. -/
def fragReadHdr (pkt : Packet) (tagOff : ℕ) : Option (ℕ × UInt8) :=
  if 1 < (readFragIndex pkt tagOff).toNat then none
  else some (readFragPktId pkt tagOff, readFragIndex pkt tagOff)

/-- The test of one policy in `frag_is_fragment` and `frag_is_fragment_l4`: its layer, its id
behind a nonce of its size, and the magic behind the id. -/
def isTunnelFragmentUnder (action : ℤ) (magic : UInt8) (cp : CryptoPolicy) (pkt : Packet)
    (pktLen tunnelOff : ℕ) : Bool :=
  cp.action == action && decide (0 < cp.nonceSize) &&
    decide (tunnelOff + cp.nonceSize + 1 < pktLen) &&
    pkt (tunnelOff + cp.nonceSize + 1) == magic && pkt (tunnelOff + cp.nonceSize) == cp.idByte

/-- The test of one policy in `frag_is_fragment`. -/
def isFragmentL3Under (cp : CryptoPolicy) (pkt : Packet) (pktLen tunnelOff : ℕ) : Bool :=
  isTunnelFragmentUnder actionEncryptL3 cryptoL3FragMagic cp pkt pktLen tunnelOff

/-- The test of one policy in `frag_is_fragment_l4`. -/
def isFragmentL4Under (cp : CryptoPolicy) (pkt : Packet) (pktLen tunnelOff : ℕ) : Bool :=
  isTunnelFragmentUnder actionEncryptL4 cryptoL4FragMagic cp pkt pktLen tunnelOff

/-- The packet id and index of a layer-3 fragment; `none` when the code returns `0`.  The tag is
read behind a header of the nonce size that the thread used last. -/
def fragIsFragment (P : CryptoParams) (cfg : AppConfig) (pkt : Packet) (pktLen : ℕ) :
    Option (ℕ × UInt8) :=
  match fragRequireIpv4 pkt pktLen with
  | none => none
  | some ipHdrLen =>
    let tunnelOff := ethHeaderSize + ipHdrLen
    if pkt ipv4ProtoOff ≠ P.fakeProtocol then none
    else if pktLen < tunnelOff + P.tunnelHdrSize + fragTagSize then none
    else
      match (cfg.policies.take maxCryptoPolicies).find? fun cp =>
        isFragmentL3Under cp pkt pktLen tunnelOff with
      | none => none
      | some _ => fragReadHdr pkt (tunnelOff + P.tunnelHdrSize)

/-- The packet id and index of a layer-4 fragment; `none` when the code returns `0`.  The tag is
read behind a header of the nonce size that the thread used last. -/
def fragIsFragmentL4 (P : CryptoParams) (cfg : AppConfig) (pkt : Packet) (pktLen : ℕ) :
    Option (ℕ × UInt8) :=
  if pktLen < 14 + 20 + 8 then none
  else if ¬ pktIsIpv4Eth pkt then none
  else if pkt ipv4ProtoOff ≠ 6 ∧ pkt ipv4ProtoOff ≠ 17 then none
  else if ihlAt pkt ethHeaderSize < 20 then none
  else
    let tunnelOff := ethHeaderSize + ihlAt pkt ethHeaderSize + l4WirePortLen
    if pktLen < tunnelOff + P.tunnelHdrSize + fragTagSize then none
    else
      match (cfg.policies.take maxCryptoPolicies).find? fun cp =>
        isFragmentL4Under cp pkt pktLen tunnelOff with
      | none => none
      | some _ => fragReadHdr pkt (tunnelOff + P.tunnelHdrSize)

/-! ## The splits -/

/-- The two fragments with their lengths; `none` stands for `-1`.  `counter₁` and `counter₂` are
the values that `packet_crypto_next_counter` returned, `pktId` that of `frag_next_pkt_id`. -/
def fragSplitAndEncrypt (evp : Evp) (P : CryptoParams) (ctx : PacketCryptoCtx)
    (counter₁ counter₂ pktId : ℕ) (pktData : Packet) (pktLen : ℕ) (frag1 frag2 : Packet) :
    Option ((Packet × ℕ) × Packet × ℕ) :=
  if pktLen < 14 + 20 + 8 then none
  else
    match fragRequireIpv4 pktData pktLen with
    | none => none
    | some ipHdrLen =>
      let ipProto := pktData ipv4ProtoOff
      if ipProto ≠ 6 ∧ ipProto ≠ 17 then none
      else
        let ipPayload := pktData.shift (ethHeaderSize + ipHdrLen)
        let ipPayloadLen := pktLen - ethHeaderSize - ipHdrLen
        match getTransportHdrSize ipPayload ipProto ipPayloadLen with
        | none => none
        | some transportHdrLen =>
          let appLen := ipPayloadLen - transportHdrLen
          let half1 := appLen / 2
          let half2 := appLen - half1
          let frag0Len := transportHdrLen + half1
          if appLen = 0 ∨ fragBufSize < frag0Len then none
          else
            let frag0Plain : Packet := fun _ => 0
            let frag0Plain := frag0Plain.copy 0 ipPayload 0 transportHdrLen
            let frag0Plain := frag0Plain.copy transportHdrLen ipPayload transportHdrLen half1
            let ipHdr := pktData.shift ethHeaderSize
            match cryptoLayer3EncryptFragmentSingle evp P ctx counter₁ pktData ipHdr ipHdrLen
                frag0Plain frag0Len pktId 0 frag1 fragBufSize with
            | none => none
            | some f₁ =>
              match cryptoLayer3EncryptFragmentSingle evp P ctx counter₂ pktData ipHdr ipHdrLen
                  (ipPayload.shift (transportHdrLen + half1)) half2 pktId 1 frag2 fragBufSize with
              | none => none
              | some f₂ => some (f₁, f₂)

/-- The two layer-2 fragments with their lengths; `none` stands for `-1`. -/
def fragSplitAndEncryptL2 (evp : Evp) (P : CryptoParams) (ctx : PacketCryptoCtx)
    (counter₁ counter₂ pktId : ℕ) (pktData : Packet) (pktLen : ℕ) (frag1 frag2 : Packet) :
    Option ((Packet × ℕ) × Packet × ℕ) :=
  if pktLen < 14 + 20 then none
  else
    match fragRequireIpv4 pktData pktLen with
    | none => none
    | some ipHdrLen =>
      let ipProto := pktData ipv4ProtoOff
      let ipHdr := pktData.shift ethHeaderSize
      let ipPayload := pktData.shift (ethHeaderSize + ipHdrLen)
      let ipPayloadLen := pktLen - ethHeaderSize - ipHdrLen
      let transportHdrLen := getTransportHdrSize ipPayload ipProto ipPayloadLen
      if (ipProto = 6 ∨ ipProto = 17) ∧ transportHdrLen = none then none
      else
        -- a packet of another protocol is split right behind its IP header
        let appOff := transportHdrLen.getD 0
        let appLen := ipPayloadLen - appOff
        let half1 := appLen / 2
        let half2 := appLen - half1
        let frag0Len := ipHdrLen + appOff + half1
        if appLen = 0 ∨ fragBufSize < frag0Len then none
        else
          let frag0Plain : Packet := fun _ => 0
          let frag0Plain := frag0Plain.copy 0 ipHdr 0 ipHdrLen
          let frag0Plain := frag0Plain.copy ipHdrLen ipPayload 0 appOff
          let frag0Plain := frag0Plain.copy (ipHdrLen + appOff) ipPayload appOff half1
          match cryptoLayer2EncryptFragmentSingle evp P ctx counter₁ pktData frag0Plain frag0Len
              pktId 0 frag1 fragBufSize with
          | none => none
          | some f₁ =>
            match cryptoLayer2EncryptFragmentSingle evp P ctx counter₂ pktData
                (ipPayload.shift (appOff + half1)) half2 pktId 1 frag2 fragBufSize with
            | none => none
            | some f₂ => some (f₁, f₂)

def usub32 (a b : ℕ) : ℕ := if b ≤ a then a - b else a + 2 ^ 32 - b

theorem usub32_of_le {a b : ℕ} (h : b ≤ a) : usub32 a b = a - b := if_pos h

/-- The two layer-4 fragments with their lengths; `none` stands for `-1`. -/
def fragSplitAndEncryptL4 (evp : Evp) (P : CryptoParams) (ctx : PacketCryptoCtx)
    (counter₁ counter₂ pktId : ℕ) (pktData : Packet) (pktLen : ℕ) (frag1 frag2 : Packet) :
    Option ((Packet × ℕ) × Packet × ℕ) :=
  let ipProto := pktData ipv4ProtoOff
  let ipHdrLen := ihlAt pktData ethHeaderSize
  if pktLen < 14 + 20 + 8 ∨ ¬ pktIsIpv4Eth pktData then none
  else if (ipProto ≠ 6 ∧ ipProto ≠ 17) ∨ ipHdrLen < 20 then none
  else
    let transportOff := ethHeaderSize + ipHdrLen
    let wirePorts := pktData.shift transportOff
    match getTransportHdrSize wirePorts ipProto (usub32 pktLen transportOff) with
    | none => none
    | some transportHdrLen =>
      let appOff := transportOff + transportHdrLen
      let appLen := usub32 pktLen appOff
      let half1 := appLen / 2
      let half2 := appLen - half1
      let frag0Len := transportHdrLen + half1
      if appLen = 0 ∨ fragBufSize < frag0Len then none
      else
        let frag0Plain : Packet := fun _ => 0
        let frag0Plain := frag0Plain.copy 0 pktData transportOff transportHdrLen
        let frag0Plain := frag0Plain.copy transportHdrLen pktData appOff half1
        let ipHdr := pktData.shift ethHeaderSize
        match cryptoLayer4EncryptFragmentSingle evp P ctx counter₁ pktData ipHdr ipHdrLen wirePorts
            frag0Plain frag0Len pktId 0 frag1 fragBufSize with
        | none => none
        | some f₁ =>
          match cryptoLayer4EncryptFragmentSingle evp P ctx counter₂ pktData ipHdr ipHdrLen
              wirePorts (pktData.shift (appOff + half1)) half2 pktId 1 frag2 fragBufSize with
          | none => none
          | some f₂ => some (f₁, f₂)

/-! ## The table -/

structure FragEntry where
  pktId : ℕ
  data : Packet
  dataLen : ℕ
  ethHdr : Packet
  ipHdr : Packet
  ipHdrLen : ℕ
  origProto : UInt8
  timestampNs : ℕ
  valid : Bool

/-- `struct frag_table`: `FRAG_TABLE_SIZE` entries. -/
abbrev FragTable := Buffer FragEntry

def FragEntry.empty : FragEntry :=
  ⟨0, fun _ => 0, 0, fun _ => 0, fun _ => 0, 0, 0, 0, false⟩

def fragTableInit : FragTable := fun _ => FragEntry.empty

/-- `none` stands for `-1`. -/
def fragStorePending (entry : FragEntry) (pktId : ℕ) (eth ip : Packet) (ipHdrLen : ℕ)
    (origProto : UInt8) (data : Packet) (dataLen now : ℕ) : Option FragEntry :=
  if fragDataSize < dataLen then none
  else some
    { pktId := pktId
      dataLen := dataLen
      data := entry.data.copy 0 data 0 dataLen
      ethHdr := entry.ethHdr.copy 0 eth 0 14
      ipHdr := entry.ipHdr.copy 0 ip 0 ipHdrLen
      ipHdrLen := ipHdrLen
      origProto := origProto
      timestampNs := now
      valid := true }

/-- What a reassembly call leaves: its value, the table, the output buffer and `*out_len`. -/
structure Reassembly where
  ret : ℤ
  table : FragTable
  outBuf : Packet
  outLen : ℕ

def FragTable.invalidate (ft : FragTable) (idx : ℕ) : FragTable :=
  ft.set idx { ft idx with valid := false }

/-- The protocol that the receiver takes a first fragment for. -/
def guessProto (payload : Packet) (payloadLen : ℕ) : Option UInt8 :=
  if getTransportHdrSize payload 6 payloadLen ≠ none then some 6
  else if getTransportHdrSize payload 17 payloadLen ≠ none then some 17
  else none

/-- The packet made of a stored first fragment and the payload of a second one. -/
def joinFragments (entry : FragEntry) (payload : Packet) (secondLen : ℕ) (outBuf : Packet) :
    Packet × ℕ :=
  let firstLen := entry.dataLen
  let out := (outBuf.copy 0 entry.ethHdr 0 14).copy 14 entry.ipHdr 0 entry.ipHdrLen
  let out := out.set ipv4ProtoOff entry.origProto
  let restoredTh := (getTransportHdrSize entry.data entry.origProto firstLen).getD
    (if entry.origProto = 6 then 20 else 8)
  let off := 14 + entry.ipHdrLen
  let out := out.copy off entry.data 0 restoredTh
  let firstApp := firstLen - restoredTh
  let out := out.copy (off + restoredTh) entry.data restoredTh firstApp
  let off := off + restoredTh + firstApp
  let out := out.copy off payload 0 secondLen
  let off := off + secondLen
  (fragPatchIpv4 out entry.ipHdrLen (off - 14), off)

/-- `now` is what `get_time_ns` returned to this call. -/
def fragTryReassemble (ft : FragTable) (now : ℕ) (pktData : Packet) (pktLen pktId : ℕ)
    (fragIndex : UInt8) (outBuf : Packet) (outLen : ℕ) : Reassembly :=
  let refused : Reassembly := ⟨-1, ft, outBuf, outLen⟩
  match fragRequireIpv4 pktData pktLen with
  | none => refused
  | some ipHdrLen =>
    let payload := pktData.shift (ethHeaderSize + ipHdrLen)
    let payloadLen := pktLen - ethHeaderSize - ipHdrLen
    let idx := pktId % fragTableSize
    let entry := ft idx
    if fragIndex = 0 then
      match guessProto payload payloadLen with
      | none => refused
      | some origProto =>
        match fragStorePending entry pktId pktData (pktData.shift ethHeaderSize) ipHdrLen origProto
            payload payloadLen now with
        | none => refused
        | some entry => ⟨0, ft.set idx entry, outBuf, outLen⟩
    else if fragIndex = 1 then
      if entry.valid = false ∨ entry.pktId ≠ pktId then refused
      else if fragTimeoutNs < usub now entry.timestampNs ∨
          reassembleMax < (entry.dataLen + payloadLen) % 2 ^ 32 then
        ⟨-1, ft.invalidate idx, outBuf, outLen⟩
      else
        let out := joinFragments entry payload payloadLen outBuf
        ⟨1, ft.invalidate idx, out.1, out.2⟩
    else refused

/-- `wire_eth`. -/
def wireEthLen : ℕ := ethHeaderSize

/-- The packet made of a stored first layer-2 fragment, which has the IP header in its data, and
the inner bytes of a second one. -/
def joinFragmentsL2 (entry : FragEntry) (inner : Packet) (secondLen : ℕ) (outBuf : Packet) :
    Packet × ℕ :=
  let firstLen := entry.dataLen
  let tailLen := firstLen - entry.ipHdrLen
  let restoredTh := (getTransportHdrSize (entry.data.shift entry.ipHdrLen) entry.origProto
    tailLen).getD (if entry.origProto = 6 then 20 else 8)
  let out := outBuf.copy 0 entry.ethHdr 0 wireEthLen
  let out := out.copy wireEthLen entry.data 0 entry.ipHdrLen
  let off := wireEthLen + entry.ipHdrLen
  let firstTail := entry.data.shift entry.ipHdrLen
  let firstApp := tailLen - restoredTh
  let joined : Packet × ℕ :=
    if entry.ipHdrLen < firstLen then
      ((out.copy off firstTail 0 restoredTh).copy (off + restoredTh) firstTail restoredTh firstApp,
        off + restoredTh + firstApp)
    else (out, off)
  let out := joined.1.copy joined.2 inner 0 secondLen
  let off := joined.2 + secondLen
  let out := patchIpv4 out wireEthLen entry.ipHdrLen (off - wireEthLen)
  ((out.set 12 0x08).set 13 0x00, off)

/-- `now` is what `get_time_ns` returned to this call. -/
def fragTryReassembleL2 (ft : FragTable) (now : ℕ) (pktData : Packet) (pktLen pktId : ℕ)
    (fragIndex : UInt8) (outBuf : Packet) (outLen : ℕ) : Reassembly :=
  let refused : Reassembly := ⟨-1, ft, outBuf, outLen⟩
  if pktLen < wireEthLen + 20 then refused
  else
    let inner := pktData.shift wireEthLen
    let innerLen := pktLen - wireEthLen
    let idx := pktId % fragTableSize
    let entry := ft idx
    if fragIndex = 0 then
      let ipHdrLen := ihlAt inner 0
      if (inner 0).toNat / 16 ≠ 4 ∨ ipHdrLen < 20 ∨ innerLen < ipHdrLen then refused
      else
        match fragStorePending entry pktId pktData inner ipHdrLen (inner 9) inner innerLen now with
        | none => refused
        | some entry => ⟨0, ft.set idx entry, outBuf, outLen⟩
    else if fragIndex = 1 then
      let totalInner := (entry.dataLen + innerLen) % 2 ^ 32
      if entry.valid = false ∨ entry.pktId ≠ pktId then refused
      else if fragTimeoutNs < usub now entry.timestampNs ∨ reassembleMax < totalInner then
        ⟨-1, ft.invalidate idx, outBuf, outLen⟩
      else
        let out := joinFragmentsL2 entry inner innerLen outBuf
        ⟨1, ft.invalidate idx, out.1, out.2⟩
    else refused

/-- The packet made of a stored first layer-4 fragment and the bytes of a second one. -/
def joinFragmentsL4 (entry : FragEntry) (second : Packet) (secondLen : ℕ) (outBuf : Packet) :
    Packet × ℕ :=
  let firstLen := entry.dataLen
  let out := (outBuf.copy 0 entry.ethHdr 0 14).copy 14 entry.ipHdr 0 entry.ipHdrLen
  let restoredTh := (getTransportHdrSize entry.data entry.origProto firstLen).getD
    (if entry.origProto = 6 then 20 else 8)
  let off := 14 + entry.ipHdrLen
  let out := out.copy off entry.data 0 restoredTh
  let firstApp := firstLen - restoredTh
  let out := out.copy (off + restoredTh) entry.data restoredTh firstApp
  let off := off + restoredTh + firstApp
  let out := out.copy off second 0 secondLen
  let off := off + secondLen
  (fragPatchIpv4 out entry.ipHdrLen (off - 14), off)

/-- What a layer-4 fragment has behind its ports, in `uint32_t` arithmetic. -/
def l4PlainLen (pktData : Packet) (pktLen : ℕ) : ℕ :=
  usub32 (pktLen - ethHeaderSize) (ihlAt pktData ethHeaderSize) - l4WirePortLen

/-- `now` is what `get_time_ns` returned to this call. -/
def fragTryReassembleL4 (ft : FragTable) (now : ℕ) (pktData : Packet) (pktLen pktId : ℕ)
    (fragIndex : UInt8) (outBuf : Packet) (outLen : ℕ) : Reassembly :=
  let refused : Reassembly := ⟨-1, ft, outBuf, outLen⟩
  if ¬ pktIsIpv4 pktData pktLen then refused
  else
    let ipHdrLen := ihlAt pktData ethHeaderSize
    let plain := pktData.shift (ethHeaderSize + ipHdrLen + l4WirePortLen)
    let plainLen := l4PlainLen pktData pktLen
    let idx := pktId % fragTableSize
    let entry := ft idx
    if fragIndex = 0 then
      match fragStorePending entry pktId pktData (pktData.shift ethHeaderSize) ipHdrLen
          (pktData ipv4ProtoOff) plain plainLen now with
      | none => refused
      | some entry => ⟨0, ft.set idx entry, outBuf, outLen⟩
    else if fragIndex = 1 then
      let totalPlain := (entry.dataLen + plainLen) % 2 ^ 32
      if entry.valid = false ∨ entry.pktId ≠ pktId then refused
      else if fragTimeoutNs < usub now entry.timestampNs ∨ totalPlain < 8 ∨
          reassembleMax < totalPlain then
        ⟨-1, ft.invalidate idx, outBuf, outLen⟩
      else
        let out := joinFragmentsL4 entry plain plainLen outBuf
        ⟨1, ft.invalidate idx, out.1, out.2⟩
    else refused

/-- Invalidate what is older than the timeout at `now`. -/
def fragTableGc (ft : FragTable) (now : ℕ) : FragTable := fun i =>
  if i < fragTableSize ∧ (ft i).valid = true ∧ fragTimeoutNs < usub now (ft i).timestampNs then
    { ft i with valid := false }
  else ft i

end NetEncryptor

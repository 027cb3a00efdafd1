import NetEncryptor.Crypto.Ipv4

/-!
# Stored checksums verify

`crypto_calc_ip_checksum`, `crypto_calc_tcp_checksum` and `crypto_calc_udp_checksum` return the
complement of a folded sum in which the checksum field counts as zero.  Stored into that field,
the complement brings the sum over the covered bytes to all ones (`fold16_put16_cksumOf`), and
the 32-bit accumulators of these loops do not overflow on the lengths an IP datagram can have.
-/

namespace NetEncryptor

open OnesComplement

theorem cksumOf_lt (s : ℕ) : cksumOf s < 65536 := by unfold cksumOf; omega

/-- **The stored checksum.** With the checksum of everything else in the word at `2 * k`, the
sum over the range folds to all ones; `start` is what the accumulator holds before the range. -/
theorem fold16_put16_cksumOf {b : Packet} {start len k : ℕ} (hk : 2 * k + 1 < len)
    (hfit : start + b.internetSum len < 2 ^ 32) (hzero : b.be16 (2 * k) = 0) :
    fold16 (start + (b.put16 (2 * k) (cksumOf (start + b.internetSum len))).internetSum len) =
      65535 := by
  generalize hc : cksumOf (start + b.internetSum len) = c
  have hlt : c < 65536 := hc ▸ cksumOf_lt _
  have hput := Buffer.internetSum_put16_zero (b := b.put16 (2 * k) c) hk
  have hclear := Buffer.internetSum_put16_zero (b := b) hk
  rw [Buffer.put16_put16, Buffer.be16_put16, Nat.mod_eq_of_lt hlt] at hput
  -- clearing a field that is zero already changes nothing
  have hsum : start + (b.put16 (2 * k) c).internetSum len = start + b.internetSum len + c := by
    omega
  rw [hsum, ← hc, cksumOf, Nat.mod_eq_of_lt hfit]
  exact fold16_add_compl _

/-! ## The header checksum -/

theorem accFits_internetSum (ip : Packet) {start len : ℕ}
    (h : start + 65535 * ((len + 1) / 2) < 2 ^ 32) : AccFits start (ip.onesWord len) len :=
  accFits_of_le (ip.onesWord_le len) h

theorem neRxIpv4HeaderCsumOk_put16 (ip : Packet) {ihl : ℕ} (h₂₀ : 20 ≤ ihl) (h₆₀ : ihl ≤ 60) :
    neRxIpv4HeaderCsumOk (ip.put16 10 (cryptoCalcIpChecksum (ip.put16 10 0) ihl)) ihl := by
  have hfit : (ip.put16 10 0).internetSum ihl < 2 ^ 32 := internetSum_lt_of_ihl h₆₀
  have hfold : fold16 (0 + ((ip.put16 10 0).put16 (2 * 5)
      (cksumOf (0 + (ip.put16 10 0).internetSum ihl))).internetSum ihl) = 65535 :=
    fold16_put16_cksumOf (by omega) (by omega) (Buffer.be16_put16 ip 10 0)
  rw [Buffer.put16_put16, Nat.zero_add, Nat.zero_add] at hfold
  unfold neRxIpv4HeaderCsumOk cryptoCalcIpChecksum
  rw [Nat.mod_eq_of_lt (internetSum_lt_of_ihl h₆₀)]
  exact hfold

/-! ## Transport checksums -/

theorem pseudoSum_le (ip : Packet) {proto : ℕ} (hproto : proto ≤ 255) (len : ℕ) :
    pseudoSum ip proto len ≤ 5 * 65535 + 255 := by
  have h₁₂ := ip.be16_lt 12
  have h₁₄ := ip.be16_lt 14
  have h₁₆ := ip.be16_lt 16
  have h₁₈ := ip.be16_lt 18
  unfold pseudoSum
  omega

/-- The words the TCP checksum loop adds: the word of its own field counts as zero. -/
def tcpCksumWord (tcpSeg : Packet) (tcpSegLen i : ℕ) : ℕ :=
  if i = 16 ∧ i + 2 ≤ tcpSegLen then 0 else tcpSeg.onesWord tcpSegLen i

theorem tcpCksumWord_le (seg : Packet) (n i : ℕ) : tcpCksumWord seg n i ≤ 65535 := by
  have := seg.onesWord_le n i
  unfold tcpCksumWord
  split_ifs <;> omega

theorem sumWords_tcpCksumWord (seg : Packet) {n : ℕ} (hn : 20 ≤ n) :
    sumWords (tcpCksumWord seg n) n = (seg.put16 16 0).internetSum n := by
  unfold Buffer.internetSum
  refine sumWords_congr fun k _ => ?_
  unfold tcpCksumWord
  by_cases hk : 2 * k = 16
  · rw [if_pos ⟨hk, by omega⟩, hk, Buffer.onesWord_eq_be16 (by omega), Buffer.be16_put16]
  · rw [if_neg fun h => hk h.1]
    unfold Buffer.onesWord
    rw [Buffer.put16_of_ne (by omega) (by omega), Buffer.put16_of_ne (by omega) (by omega)]

theorem cryptoCalcTcpChecksum_eq (ip seg : Packet) {ihl n : ℕ} (hihl : 20 ≤ ihl) (hn : 20 ≤ n) :
    cryptoCalcTcpChecksum ip ihl seg n =
      cksumOf (pseudoSum ip 6 n + (seg.put16 16 0).internetSum n) := by
  rw [← sumWords_tcpCksumWord seg hn]
  unfold cryptoCalcTcpChecksum
  exact if_neg (by omega)

theorem cryptoCalcUdpChecksum_eq (ip seg : Packet) {ihl n : ℕ} (hihl : 20 ≤ ihl) (hn : 8 ≤ n) :
    cryptoCalcUdpChecksum ip ihl seg n =
      cksumOf (pseudoSum ip 17 (udpCksumLen seg n) + seg.internetSum (udpCksumLen seg n)) := by
  unfold cryptoCalcUdpChecksum
  exact if_neg (by omega)

theorem le_udpCksumLen (seg : Packet) {n : ℕ} (hn : 8 ≤ n) (hn' : n ≤ 65535) :
    8 ≤ udpCksumLen seg n := by
  unfold udpCksumLen
  simp only
  split_ifs <;> omega

theorem udpCksumLen_le_max (seg : Packet) (n : ℕ) : udpCksumLen seg n ≤ 65535 := by
  unfold udpCksumLen
  simp only
  split_ifs <;> omega

theorem udpCksumLen_put16 (seg : Packet) (n v : ℕ) :
    udpCksumLen (seg.put16 6 v) n = udpCksumLen seg n := by
  unfold udpCksumLen
  rw [Buffer.be16_put16_of_ne (by omega) (by omega) (by omega)]

theorem transportAcc_lt {ip : Packet} {proto n m : ℕ} (hproto : proto ≤ 255) (hn : n ≤ 65535) :
    pseudoSum ip proto m + 65535 * ((n + 1) / 2) < 2 ^ 32 := by
  have := pseudoSum_le ip hproto m
  omega

theorem fold16_tcpChecksum (ip seg : Packet) {ihl n : ℕ} (hihl : 20 ≤ ihl) (hn : 20 ≤ n)
    (hn' : n ≤ 65535) :
    fold16 (pseudoSum ip 6 n +
      (seg.put16 16 (cryptoCalcTcpChecksum ip ihl seg n)).internetSum n) = 0xffff := by
  have hfit : AccFits (pseudoSum ip 6 n) ((seg.put16 16 0).onesWord n) n :=
    accFits_internetSum _ (transportAcc_lt (by omega) hn')
  have hfold := fold16_put16_cksumOf (b := seg.put16 16 0) (k := 8) (show 2 * 8 + 1 < n by omega)
    (hfit n le_rfl) (Buffer.be16_put16 seg 16 0)
  rw [Buffer.put16_put16] at hfold
  rw [cryptoCalcTcpChecksum_eq ip seg hihl hn]
  exact hfold

theorem fold16_udpChecksum (ip seg : Packet) {ihl n : ℕ} (hihl : 20 ≤ ihl) (hn : 8 ≤ n)
    (hn' : n ≤ 65535) :
    fold16 (pseudoSum ip 17 (udpCksumLen seg n) +
      (seg.put16 6 (cryptoCalcUdpChecksum ip ihl (seg.put16 6 0) n)).internetSum
        (udpCksumLen seg n)) = 0xffff := by
  have hlen := le_udpCksumLen seg hn hn'
  have hfit : AccFits (pseudoSum ip 17 (udpCksumLen seg n))
      ((seg.put16 6 0).onesWord (udpCksumLen seg n)) (udpCksumLen seg n) :=
    accFits_internetSum _ (transportAcc_lt (by omega) (udpCksumLen_le_max seg n))
  have hfold := fold16_put16_cksumOf (b := seg.put16 6 0) (k := 3)
    (show 2 * 3 + 1 < udpCksumLen seg n by omega) (hfit _ le_rfl) (Buffer.be16_put16 seg 6 0)
  rw [Buffer.put16_put16] at hfold
  rw [cryptoCalcUdpChecksum_eq ip _ hihl hn, udpCksumLen_put16]
  exact hfold

/-- **Checksums verify after patching.** For every header of 20 to 60 bytes, storing the header
checksum computed with its field zeroed makes the receiver accept the header; for every TCP
segment of 20 to 65535 bytes and every UDP segment of 8 to 65535 bytes, storing the transport
checksum makes the sum over pseudo header and covered bytes fold to all ones.  None of the
accumulators overflows 32 bits at any round of its loop. -/
theorem checksums_verify (ip : Packet) {ihl : ℕ} (h₂₀ : 20 ≤ ihl) (h₆₀ : ihl ≤ 60) :
    (AccFits 0 ((ip.put16 10 0).onesWord ihl) ihl ∧
      neRxIpv4HeaderCsumOk (ip.put16 10 (cryptoCalcIpChecksum (ip.put16 10 0) ihl)) ihl) ∧
    (∀ (seg : Packet) (n : ℕ), 20 ≤ n → n ≤ 65535 →
      AccFits (pseudoSum ip 6 n) (tcpCksumWord seg n) n ∧
      fold16 (pseudoSum ip 6 n +
        (seg.put16 16 (cryptoCalcTcpChecksum ip ihl seg n)).internetSum n) = 0xffff) ∧
    ∀ (seg : Packet) (n : ℕ), 8 ≤ n → n ≤ 65535 →
      AccFits (pseudoSum ip 17 (udpCksumLen seg n))
        ((seg.put16 6 0).onesWord (udpCksumLen seg n)) (udpCksumLen seg n) ∧
      fold16 (pseudoSum ip 17 (udpCksumLen seg n) +
        (seg.put16 6 (cryptoCalcUdpChecksum ip ihl (seg.put16 6 0) n)).internetSum
          (udpCksumLen seg n)) = 0xffff := by
  refine ⟨⟨accFits_internetSum _ (by omega), neRxIpv4HeaderCsumOk_put16 ip h₂₀ h₆₀⟩, ?tcp, ?udp⟩
  case tcp =>
    intro seg n hn hn'
    have hacc : pseudoSum ip 6 n + 65535 * ((n + 1) / 2) < 2 ^ 32 :=
      transportAcc_lt (by omega) hn'
    exact ⟨accFits_of_le (tcpCksumWord_le seg n) hacc, fold16_tcpChecksum ip seg h₂₀ hn hn'⟩
  case udp =>
    intro seg n hn hn'
    have hacc : pseudoSum ip 17 (udpCksumLen seg n) +
        65535 * ((udpCksumLen seg n + 1) / 2) < 2 ^ 32 :=
      transportAcc_lt (by omega) (udpCksumLen_le_max seg n)
    exact ⟨accFits_internetSum _ hacc, fold16_udpChecksum ip seg h₂₀ hn hn'⟩

theorem checksums_verify_ackFrame :
    neRxIpv4HeaderCsumOk ((ackFrame.shift 14).put16 10
        (cryptoCalcIpChecksum ((ackFrame.shift 14).put16 10 0) 20)) 20 ∧
      fold16 (pseudoSum (ackFrame.shift 14) 6 21 +
        ((ackFrame.shift 34).put16 16
          (cryptoCalcTcpChecksum (ackFrame.shift 14) 20 (ackFrame.shift 34) 21)).internetSum 21) =
        0xffff ∧
      fold16 (pseudoSum (ackFrame.shift 14) 17 (udpCksumLen (ackFrame.shift 34) 9) +
        ((ackFrame.shift 34).put16 6 (cryptoCalcUdpChecksum (ackFrame.shift 14) 20
          ((ackFrame.shift 34).put16 6 0) 9)).internetSum (udpCksumLen (ackFrame.shift 34) 9)) =
        0xffff := by
  obtain ⟨⟨-, hip⟩, htcp, hudp⟩ :=
    checksums_verify (ackFrame.shift 14) (show 20 ≤ 20 by omega) (by omega)
  refine ⟨hip, ?_, ?_⟩
  · exact (htcp (ackFrame.shift 34) 21 (by omega) (by omega)).2
  · exact (hudp (ackFrame.shift 34) 9 (by omega) (by omega)).2

end NetEncryptor

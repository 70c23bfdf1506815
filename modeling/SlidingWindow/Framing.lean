import SlidingWindow.Networks
import SlidingWindow.Library.OnesComplement

/-! Both packet writers close a packet with its checksum: whatever the buffer held
before, `recv_buf` accepts the datagram that leaves, and no change of one of its bytes
gets past the checksum. -/
namespace SlidingWindow.Framing

open Library

def crcError : Int := -1

structure Outputs where
  flag : UInt8
  seqNum : Nat
  recvPacket : Bytes
  deriving DecidableEq

/-- What `recv_buf` returns and stores; `recvBuf` is what its callers make of it. -/
def recvBufInto (datagram : Datagram) (out : Outputs) : Except Fault (Int × Outputs) :=
  let dataBuf := datagram.take maxPacketLen
  if inCksum dataBuf ≠ 0 then .ok (crcError, out)
  else if dataBuf.length < headerLen then .error .uninitialisedHeader
  else .ok (dataBuf.length,
    { flag := byteAt dataBuf 6
      seqNum := ntohl (load dataBuf 0 4)
      recvPacket := memcpy out.recvPacket 0 dataBuf })

theorem recvBufInto_eq (datagram : Datagram) (out : Outputs) :
    recvBufInto datagram out =
      match recvBuf datagram with
      | .error fault => .error fault
      | .ok none => .ok (crcError, out)
      | .ok (some received) => .ok (received.packet.length,
          { flag := byteAt received.packet 6
            seqNum := received.seqNum
            recvPacket := memcpy out.recvPacket 0 received.packet }) := by
  unfold recvBufInto recvBuf
  dsimp only
  split
  · rfl
  · split <;> rfl

/-- What the byte at position `i` counts in its word. -/
def weight (i : Nat) : Nat := if i % 2 = 0 then 1 else 256

theorem wordSum_le (bytes : Bytes) : wordSum bytes ≤ 65535 * ((bytes.length + 1) / 2) := by
  induction bytes using wordSum.induct with
  | case1 low high rest ih =>
      have := low.toNat_lt
      have := high.toNat_lt
      simp only [wordSum, List.length_cons]
      omega
  | case2 last =>
      have := last.toNat_lt
      simp [wordSum]
      omega
  | case3 => simp [wordSum]

theorem wordSum_lt {bytes : Bytes} (hlen : bytes.length ≤ maxPacketLen) :
    wordSum bytes < 65535 * 751 := by
  have := wordSum_le bytes
  simp only [maxPacketLen] at hlen
  omega

theorem wordSum_append {first : Bytes} (heven : first.length % 2 = 0) (second : Bytes) :
    wordSum (first ++ second) = wordSum first + wordSum second := by
  induction first using wordSum.induct with
  | case1 low high rest ih =>
      simp only [List.length_cons] at heven
      simp only [List.cons_append, wordSum, ih (by omega), Nat.add_assoc]
  | case2 last => simp at heven
  | case3 => simp [wordSum]

theorem wordSum_set {bytes : Bytes} {i : Nat} (hi : i < bytes.length) (value : UInt8) :
    wordSum (bytes.set i value) + weight i * (byteAt bytes i).toNat =
      wordSum bytes + weight i * value.toNat := by
  induction bytes using wordSum.induct generalizing i with
  | case1 low high rest ih =>
      match i with
      | 0 => simp [wordSum, weight, byteAt]; omega
      | 1 => simp [wordSum, weight, byteAt]; omega
      | i + 2 =>
          have := ih (i := i) (by simp at hi; omega)
          simp only [byteAt, weight, List.getD_cons_succ, List.set_cons_succ, wordSum,
            Nat.add_mod_right] at this ⊢
          omega
  | case2 last =>
      have hzero : i = 0 := by simpa using hi
      simp [hzero, wordSum, weight, byteAt]
      omega
  | case3 => simp at hi

theorem inCksum_eq {bytes : Bytes} (hlen : bytes.length ≤ maxPacketLen) :
    inCksum bytes = OnesComplement.complement 65536 (wordSum bytes) := by
  have hsum := wordSum_lt hlen
  simp only [inCksum, OnesComplement.complement, OnesComplement.fold]
  rw [← OnesComplement.mod_add_div_eq (by omega)
    (OnesComplement.endAround_le (by omega) (by omega))]
  rfl

theorem inCksum_eq_zero_iff {bytes : Bytes} (hlen : bytes.length ≤ maxPacketLen) :
    inCksum bytes = 0 ↔ 0 < wordSum bytes ∧ 65535 ∣ wordSum bytes := by
  have hsum := wordSum_lt hlen
  have hlt : OnesComplement.fold 65536 (wordSum bytes) < 65536 :=
    OnesComplement.fold_lt (by omega) (by omega)
  rw [inCksum_eq hlen, OnesComplement.complement,
    ← OnesComplement.fold_eq_top_iff (show 2 ≤ 65536 by omega) (by omega)]
  omega

/-- One changed byte is noticed: it moves the sum by less than 65535. -/
theorem inCksum_set_ne_zero {bytes : Bytes} (hlen : bytes.length ≤ maxPacketLen)
    (haccepted : inCksum bytes = 0) {i : Nat} (hi : i < bytes.length) {value : UInt8}
    (hchanged : value ≠ byteAt bytes i) : inCksum (bytes.set i value) ≠ 0 := by
  intro hmissed
  obtain ⟨-, before, hbefore⟩ := (inCksum_eq_zero_iff hlen).mp haccepted
  obtain ⟨-, after, hafter⟩ := (inCksum_eq_zero_iff (by simpa using hlen)).mp hmissed
  have hset := wordSum_set hi value
  have hold := (byteAt bytes i).toNat_lt
  have hnew := value.toNat_lt
  have hne : value.toNat ≠ (byteAt bytes i).toNat := fun heq => hchanged (UInt8.toNat_inj.mp heq)
  rw [hbefore, hafter, weight] at hset
  split at hset <;> omega

/-- Both writers clear the checksum field, sum the packet and patch the field. -/
def withChecksum (packet : Bytes) (len : Nat) : Bytes :=
  let packet := memcpy packet 4 [0, 0]
  memcpy packet 4 (checksumBytes (inCksum (load packet 0 len)))

theorem load_withChecksum {packet : Bytes} {len offset count : Nat}
    (hfield : offset + count ≤ 4 ∨ 6 ≤ offset) :
    load (withChecksum packet len) offset count = load packet offset count := by
  rw [withChecksum, load_memcpy_of_disjoint (by simpa [checksumBytes] using hfield),
    load_memcpy_of_disjoint (by simpa using hfield)]

theorem load_memcpy_self {dst src : Bytes} {start : Nat} :
    load (memcpy dst start src) start src.length = src :=
  load_eq fun i hi => by rw [byteAt_memcpy, if_pos (by omega), Nat.add_sub_cancel_left]

theorem wordSum_memcpy_field (packet : Bytes) (low high : UInt8) (rest : Nat) :
    wordSum (load (memcpy packet 4 [low, high]) 0 (4 + (2 + rest))) =
      wordSum (load packet 0 4) + (low.toNat + 256 * high.toNat) +
        wordSum (load packet 6 rest) := by
  have hfield : load (memcpy packet 4 [low, high]) 4 2 = [low, high] := load_memcpy_self
  have hafter : load (memcpy packet 4 [low, high]) (4 + 2) rest = load packet 6 rest :=
    load_memcpy_of_disjoint (by simp)
  rw [load_add, load_add, Nat.zero_add, load_memcpy_of_disjoint (by simp), hfield, hafter,
    wordSum_append (by simp), wordSum_append (by simp), ← Nat.add_assoc]
  simp [wordSum]

theorem toNat_checksumBytes {checksum : Nat} (hlt : checksum < 65536) :
    (UInt8.ofNat checksum).toNat + 256 * (UInt8.ofNat (checksum / 256)).toNat = checksum := by
  simp only [UInt8.toNat_ofNat']
  omega

theorem inCksum_withChecksum (packet : Bytes) {len : Nat} (hlower : 6 ≤ len)
    (hupper : len ≤ maxPacketLen) :
    inCksum (load (withChecksum packet len) 0 len) = 0 := by
  obtain ⟨rest, rfl⟩ : ∃ rest, len = 4 + (2 + rest) := ⟨len - 6, by omega⟩
  -- the packet with its field cleared, as it is summed
  have hlen : (load (memcpy packet 4 [0, 0]) 0 (4 + (2 + rest))).length ≤ maxPacketLen := by
    rwa [length_load]
  have hsum := wordSum_lt hlen
  have hchecksum := inCksum_eq hlen
  have hlt : inCksum (load (memcpy packet 4 [0, 0]) 0 (4 + (2 + rest))) < 65536 := by
    rw [hchecksum, OnesComplement.complement]
    omega
  have hpatched : wordSum (load (withChecksum packet (4 + (2 + rest))) 0 (4 + (2 + rest))) =
      wordSum (load (memcpy packet 4 [0, 0]) 0 (4 + (2 + rest))) +
        inCksum (load (memcpy packet 4 [0, 0]) 0 (4 + (2 + rest))) := by
    have hbefore : load (memcpy packet 4 [0, 0]) 0 4 = load packet 0 4 :=
      load_memcpy_of_disjoint (by simp)
    have hafter : load (memcpy packet 4 [0, 0]) 6 rest = load packet 6 rest :=
      load_memcpy_of_disjoint (by simp)
    rw [withChecksum, checksumBytes, wordSum_memcpy_field, toNat_checksumBytes hlt, hbefore,
      hafter]
    have hcleared := wordSum_memcpy_field packet 0 0 rest
    simp only [UInt8.toNat_zero] at hcleared
    omega
  rw [inCksum_eq (by rwa [length_load]), OnesComplement.complement, hpatched, hchecksum,
    OnesComplement.fold_add_complement (by omega) (by omega)]

section Written

variable (buf : Bytes) (flag : Flag) (seqNum : Nat) (packet : Bytes) (packetNum : Nat)

def sentNumbered : Datagram :=
  sendtoErr (sendBufWithPacketNum buf flag seqNum packet packetNum) (buf.length + 8 + 4)

def sentPlain : Datagram :=
  sendtoErr (sendBuf buf flag seqNum packet) (buf.length + 8)

@[simp] theorem length_sentNumbered :
    (sentNumbered buf flag seqNum packet packetNum).length = buf.length + 12 := by
  simp [sentNumbered, sendtoErr]

@[simp] theorem length_sentPlain :
    (sentPlain buf flag seqNum packet).length = buf.length + 8 := by
  simp [sentPlain, sendtoErr]

theorem inCksum_sentNumbered (hlen : buf.length + 12 ≤ maxPacketLen) :
    inCksum (sentNumbered buf flag seqNum packet packetNum) = 0 :=
  inCksum_withChecksum _ (by omega) hlen

theorem inCksum_sentPlain (hlen : buf.length + 8 ≤ maxPacketLen) :
    inCksum (sentPlain buf flag seqNum packet) = 0 :=
  inCksum_withChecksum _ (by omega) hlen

theorem load_sendBufWithPacketNum_seqNum :
    load (sendBufWithPacketNum buf flag seqNum packet packetNum) 0 4 = htonl seqNum := by
  change load (withChecksum _ (buf.length + 8 + 4)) 0 4 = _
  rw [load_withChecksum (by omega), load_memcpy_of_disjoint (by simp [headerLen]),
    load_memcpy_of_disjoint (by omega)]
  exact load_memcpy_self

theorem load_sendBuf_seqNum :
    load (sendBuf buf flag seqNum packet) 0 4 = htonl seqNum := by
  change load (withChecksum _ (buf.length + 8)) 0 4 = _
  rw [load_withChecksum (by omega), load_memcpy_of_disjoint (by omega)]
  exact load_memcpy_self

theorem load_sendBufWithPacketNum_field :
    load (sendBufWithPacketNum buf flag seqNum packet packetNum) 7 4 = htonl packetNum :=
  @load_eq _ (htonl packetNum) 7
    fun i hi => byteAt_sendBufWithPacketNum_field buf flag seqNum packet packetNum i hi

theorem load_sendBufWithPacketNum_data :
    load (sendBufWithPacketNum buf flag seqNum packet packetNum) 11 buf.length = buf :=
  load_eq fun i hi => byteAt_sendBufWithPacketNum_data buf flag seqNum packet packetNum i hi

theorem load_sendBuf_data : load (sendBuf buf flag seqNum packet) 7 buf.length = buf :=
  load_eq fun i hi => byteAt_sendBuf_data buf flag seqNum packet i hi

end Written

theorem load_received {dst packet : Bytes} {len offset count : Nat}
    (hle : offset + count ≤ len) :
    load (memcpy dst 0 (sendtoErr packet len)) offset count = load packet offset count := by
  have hself : load (memcpy dst 0 (sendtoErr packet len)) 0 len = sendtoErr packet len := by
    have := @load_memcpy_self dst (sendtoErr packet len) 0
    rwa [sendtoErr, length_load] at this
  rw [← Nat.zero_add offset, ← load_load hle, hself, sendtoErr, load_load hle, Nat.zero_add]

theorem recvBufInto_accepted {packet : Bytes} {len : Nat} (hlower : headerLen ≤ len)
    (hupper : len ≤ maxPacketLen) (hcksum : inCksum (sendtoErr packet len) = 0)
    (out : Outputs) :
    recvBufInto (sendtoErr packet len) out = .ok (len,
      { flag := byteAt packet 6
        seqNum := ntohl (load packet 0 4)
        recvPacket := memcpy out.recvPacket 0 (sendtoErr packet len) }) := by
  have htake : (sendtoErr packet len).take maxPacketLen = sendtoErr packet len :=
    List.take_of_length_le (by simpa [sendtoErr] using hupper)
  simp only [headerLen] at hlower
  simp only [recvBufInto, htake, hcksum]
  rw [if_neg (by simp), if_neg (by simp [sendtoErr, headerLen]; omega)]
  simp only [sendtoErr, length_load, load_load (show 0 + 4 ≤ len by omega), Nat.zero_add,
    byteAt_load packet 0 len 6 (by omega)]

theorem recvBuf_accepted {datagram : Datagram} (hlower : headerLen ≤ datagram.length)
    (hupper : datagram.length ≤ maxPacketLen) (hcksum : inCksum datagram = 0) :
    recvBuf datagram =
      .ok (some ⟨flagOf datagram, ntohl (load datagram 0 4), datagram⟩) := by
  simp only [recvBuf, List.take_of_length_le hupper, hcksum]
  rw [if_neg (by simp), if_neg (by omega)]

theorem recvBuf_plainDatagram {buf : Bytes} {flag : Flag} {seqNum : Nat}
    (hlen : buf.length + 8 ≤ maxPacketLen) :
    recvBuf (plainDatagram buf flag seqNum) =
      .ok (some ⟨some flag, u32 seqNum, plainDatagram buf flag seqNum⟩) := by
  have hseqNum : load (plainDatagram buf flag seqNum) 0 4 = htonl seqNum := by
    rw [plainDatagram, sendtoErr, load_load (by omega), load_sendBuf_seqNum]
  have hcksum : inCksum (plainDatagram buf flag seqNum) = 0 :=
    inCksum_sentPlain buf flag seqNum [] hlen
  rw [recvBuf_accepted (by simp [headerLen]) (by simpa using hlen) hcksum,
    flagOf_plainDatagram, hseqNum, ntohl_htonl]

theorem recvBuf_numberedDatagram {buf : Bytes} {flag : Flag} {seqNum packetNum : Nat}
    (hlen : buf.length + 12 ≤ maxPacketLen) :
    recvBuf (numberedDatagram buf flag seqNum packetNum) =
      .ok (some ⟨some flag, u32 seqNum, numberedDatagram buf flag seqNum packetNum⟩) := by
  have hseqNum : load (numberedDatagram buf flag seqNum packetNum) 0 4 = htonl seqNum := by
    rw [numberedDatagram, sendtoErr, load_load (by omega), load_sendBufWithPacketNum_seqNum]
  have hcksum : inCksum (numberedDatagram buf flag seqNum packetNum) = 0 :=
    inCksum_sentNumbered buf flag seqNum [] packetNum hlen
  rw [recvBuf_accepted (by simp [headerLen]) (by simpa using hlen) hcksum,
    flagOf_numberedDatagram, hseqNum, ntohl_htonl]

theorem recvBufInto_changed {sent : Datagram} (hlen : sent.length ≤ maxPacketLen)
    (haccepted : inCksum sent = 0) {i : Nat} (hi : i < sent.length) {value : UInt8}
    (hchanged : value ≠ byteAt sent i) (out : Outputs) :
    recvBufInto (sent.set i value) out = .ok (crcError, out) := by
  have htake : (sent.set i value).take maxPacketLen = sent.set i value :=
    List.take_of_length_le (by simpa using hlen)
  simp only [recvBufInto, htake]
  rw [if_pos (inCksum_set_ne_zero hlen haccepted hi hchanged)]

/-- What either writer builds, from whatever was in its buffer, the reader accepts, with
the length that was sent, the same flag and the same numbers, and the payload where its
callers look for it. -/
theorem framing_round_trip (flag : Flag) {seqNum packetNum : Nat}
    (hseqNum : seqNum < 4294967296) (hpacketNum : packetNum < 4294967296)
    (buf packet : Bytes) (out : Outputs) :
    (buf.length + 12 ≤ maxPacketLen → ∃ (recvLen : Nat) (recvPacket : Bytes),
      recvBufInto (sentNumbered buf flag seqNum packet packetNum) out =
          .ok (recvLen, ⟨flag.code, seqNum, recvPacket⟩) ∧
        recvLen = (sentNumbered buf flag seqNum packet packetNum).length ∧
        fieldOf recvPacket = packetNum ∧ load recvPacket 11 (recvLen - 12) = buf) ∧
    (buf.length + 8 ≤ maxPacketLen → ∃ (recvLen : Nat) (recvPacket : Bytes),
      recvBufInto (sentPlain buf flag seqNum packet) out =
          .ok (recvLen, ⟨flag.code, seqNum, recvPacket⟩) ∧
        recvLen = (sentPlain buf flag seqNum packet).length ∧
        load recvPacket 7 (recvLen - 8) = buf) := by
  constructor
  · intro hlen
    have hcksum := inCksum_sentNumbered buf flag seqNum packet packetNum hlen
    refine ⟨_, memcpy out.recvPacket 0 (sentNumbered buf flag seqNum packet packetNum), ?_,
      rfl, ?_, ?_⟩
    · rw [sentNumbered, recvBufInto_accepted (by simp [headerLen]) hlen hcksum,
        load_sendBufWithPacketNum_seqNum, byteAt_sendBufWithPacketNum_flag, ntohl_htonl,
        u32_of_lt hseqNum, ← sentNumbered, length_sentNumbered]
    · rw [fieldOf, headerLen, sentNumbered, load_received (by omega),
        load_sendBufWithPacketNum_field, ntohl_htonl, u32_of_lt hpacketNum]
    · rw [length_sentNumbered, Nat.add_sub_cancel, sentNumbered, load_received (by omega),
        load_sendBufWithPacketNum_data]
  · intro hlen
    have hcksum := inCksum_sentPlain buf flag seqNum packet hlen
    refine ⟨_, memcpy out.recvPacket 0 (sentPlain buf flag seqNum packet), ?_, rfl, ?_⟩
    · rw [sentPlain, recvBufInto_accepted (by simp [headerLen]) hlen hcksum,
        load_sendBuf_seqNum, byteAt_sendBuf_flag, ntohl_htonl, u32_of_lt hseqNum, ← sentPlain,
        length_sentPlain]
    · rw [length_sentPlain, Nat.add_sub_cancel, sentPlain, load_received (by omega),
        load_sendBuf_data]

/-- Datagrams with an odd number of bytes, out of a buffer that was not cleared. -/
theorem framing_round_trip_stale :
    (∃ (recvLen : Nat) (recvPacket : Bytes),
      recvBufInto (sentNumbered [65, 66, 67] .data 7 (List.replicate 20 255) 9) ⟨0, 0, []⟩ =
          .ok (recvLen, ⟨Flag.data.code, 7, recvPacket⟩) ∧
        recvLen = (sentNumbered [65, 66, 67] .data 7 (List.replicate 20 255) 9).length ∧
        fieldOf recvPacket = 9 ∧ load recvPacket 11 (recvLen - 12) = [65, 66, 67]) ∧
    ∃ (recvLen : Nat) (recvPacket : Bytes),
      recvBufInto (sentPlain [65, 66, 67] .data 7 (List.replicate 20 255)) ⟨0, 0, []⟩ =
          .ok (recvLen, ⟨Flag.data.code, 7, recvPacket⟩) ∧
        recvLen = (sentPlain [65, 66, 67] .data 7 (List.replicate 20 255)).length ∧
        load recvPacket 7 (recvLen - 8) = [65, 66, 67] := by
  have h := framing_round_trip .data (show 7 < 4294967296 by decide)
    (show 9 < 4294967296 by decide) [65, 66, 67] (List.replicate 20 255) ⟨0, 0, []⟩
  exact ⟨h.1 (by decide), h.2 (by decide)⟩

/-- The reader rejects any change of one byte, and stores nothing. -/
theorem changed_byte_caught (flag : Flag) (seqNum packetNum : Nat) (buf packet : Bytes)
    (out : Outputs) (i : Nat) (value : UInt8) :
    (buf.length + 12 ≤ maxPacketLen →
      i < (sentNumbered buf flag seqNum packet packetNum).length →
      value ≠ byteAt (sentNumbered buf flag seqNum packet packetNum) i →
      recvBufInto ((sentNumbered buf flag seqNum packet packetNum).set i value) out =
        .ok (crcError, out)) ∧
    (buf.length + 8 ≤ maxPacketLen → i < (sentPlain buf flag seqNum packet).length →
      value ≠ byteAt (sentPlain buf flag seqNum packet) i →
      recvBufInto ((sentPlain buf flag seqNum packet).set i value) out =
        .ok (crcError, out)) := by
  constructor
  · intro hlen hi hchanged
    exact recvBufInto_changed (by simpa using hlen) (inCksum_sentNumbered _ _ _ _ _ hlen) hi
      hchanged out
  · intro hlen hi hchanged
    exact recvBufInto_changed (by simpa using hlen) (inCksum_sentPlain _ _ _ _ hlen) hi
      hchanged out

/-- The pad byte at the end of an odd datagram, and the type of an even one. -/
theorem changed_byte_caught_pad :
    recvBufInto ((sentNumbered [65, 66, 67] .data 7 (List.replicate 20 255) 9).set 14 0)
        ⟨0, 0, []⟩ = .ok (crcError, ⟨0, 0, []⟩) ∧
      recvBufInto ((sentPlain [] .ackEof 7 []).set 6 1) ⟨0, 0, []⟩ =
        .ok (crcError, ⟨0, 0, []⟩) := by
  constructor
  · exact (changed_byte_caught .data 7 9 [65, 66, 67] (List.replicate 20 255) ⟨0, 0, []⟩ 14
      0).1 (by decide) (by decide) (by decide)
  · exact (changed_byte_caught .ackEof 7 0 [] [] ⟨0, 0, []⟩ 6 1).2 (by decide) (by decide)
      (by decide)

end SlidingWindow.Framing

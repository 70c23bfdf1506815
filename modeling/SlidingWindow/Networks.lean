import Mathlib.Data.List.Basic
import Mathlib.Tactic.Common

/-! The framing layer: packet buffers, the two packet writers, the Internet
checksum and the packet reader. A `uint8_t` buffer is the list of its bytes up to
some point; every byte after that point is zero, as `memset` and `calloc` leave
it. The host is little-endian, so a 16-bit word has its low byte first. -/
namespace SlidingWindow

abbrev Bytes := List UInt8

/-- What `recvfrom` returns: at most `MAX_PACKET_LEN` bytes. -/
abbrev Datagram := Bytes

def maxPacketLen : Nat := 1500
def startSeqNum : Nat := 1

/-- `sizeof(PacketHeader)`: sequence number, checksum and type, packed. -/
def headerLen : Nat := 7

def u32 (n : Nat) : Nat := n % 4294967296

def sub32 (a b : Nat) : Nat := if b ≤ a then a - b else a + 4294967296 - b

theorem u32_of_lt {n : Nat} (hlt : n < 4294967296) : u32 n = n := Nat.mod_eq_of_lt hlt

theorem sub32_of_le {a b : Nat} (hle : b ≤ a) : sub32 a b = a - b := if_pos hle

/-- How a turn fails to come to its end: an access outside a buffer, a division by
zero, a loop that never ends, a call of `exit`, or memory written after it was freed. -/
inductive Fault where
  | uninitialisedHeader
  | memoryOverrun
  | divideByZero
  | diverges
  | emptySend
  | useAfterFree
  deriving DecidableEq

theorem exists_of_bind_ok {α β : Type} {first : Except Fault α} {next : α → Except Fault β}
    {result : β} (h : first >>= next = .ok result) :
    ∃ value, first = .ok value ∧ next value = .ok result := by
  cases first with
  | error fault => contradiction
  | ok value => exact ⟨value, rfl, h⟩

theorem fault_of_bind {α β : Type} {first : Except Fault α} {next : α → Except Fault β}
    {allowed : Fault → Prop} (hfirst : ∀ fault, first = .error fault → allowed fault)
    (hnext : ∀ value, first = .ok value → ∀ fault, next value = .error fault → allowed fault) :
    ∀ fault, first >>= next = .error fault → allowed fault := by
  intro fault h
  cases first with
  | error cause =>
      cases h
      exact hfirst _ rfl
  | ok value => exact hnext value rfl fault h

inductive Flag where
  | invalidFlag0
  | data
  | invalidFlag2
  | rr
  | srej
  | invalidFlag5
  | fileName
  | ackFileName
  | rejFileName
  | rejFileNameNoOpen
  | bufferSize
  | ackBufferSize
  | rejBufferSize
  | windowSize
  | ackWindowSize
  | rejWindowSize
  | endOfFile
  | ackEof
  deriving DecidableEq

def Flag.code : Flag → UInt8
  | .invalidFlag0 => 0
  | .data => 1
  | .invalidFlag2 => 2
  | .rr => 3
  | .srej => 4
  | .invalidFlag5 => 5
  | .fileName => 6
  | .ackFileName => 7
  | .rejFileName => 8
  | .rejFileNameNoOpen => 9
  | .bufferSize => 10
  | .ackBufferSize => 11
  | .rejBufferSize => 12
  | .windowSize => 13
  | .ackWindowSize => 14
  | .rejWindowSize => 15
  | .endOfFile => 16
  | .ackEof => 17

/-- The flag a type byte stands for; most of the 256 values stand for none. -/
def Flag.ofCode? (code : UInt8) : Option Flag :=
  [invalidFlag0, data, invalidFlag2, rr, srej, invalidFlag5, fileName, ackFileName,
    rejFileName, rejFileNameNoOpen, bufferSize, ackBufferSize, rejBufferSize,
    windowSize, ackWindowSize, rejWindowSize, endOfFile, ackEof].find?
    fun flag => flag.code = code

@[simp] theorem Flag.ofCode?_code (flag : Flag) : Flag.ofCode? flag.code = some flag := by
  cases flag <;> decide

def byteAt (buf : Bytes) (i : Nat) : UInt8 := buf.getD i 0

def load (buf : Bytes) (offset len : Nat) : Bytes :=
  (List.range len).map fun i => byteAt buf (offset + i)

def memcpy (dst : Bytes) (offset : Nat) (src : Bytes) : Bytes :=
  load dst 0 offset ++ src ++ dst.drop (offset + src.length)

@[simp] theorem length_load (buf : Bytes) (offset len : Nat) :
    (load buf offset len).length = len := by
  simp [load]

@[simp] theorem byteAt_load (buf : Bytes) (offset len i : Nat) (hi : i < len) :
    byteAt (load buf offset len) i = byteAt buf (offset + i) := by
  simp [byteAt, load, hi]

theorem byteAt_memcpy (dst : Bytes) (offset : Nat) (src : Bytes) (i : Nat) :
    byteAt (memcpy dst offset src) i =
      if offset ≤ i ∧ i < offset + src.length then byteAt src (i - offset)
      else byteAt dst i := by
  by_cases hlow : i < offset
  · rw [if_neg (by omega), ← Nat.zero_add i, ← byteAt_load dst 0 offset i hlow]
    simp [memcpy, byteAt, List.getD_eq_getElem?_getD, List.getElem?_append, hlow]
  · by_cases hmid : i < offset + src.length
    · rw [if_pos ⟨by omega, hmid⟩]
      simp [memcpy, byteAt, List.getD_eq_getElem?_getD, List.getElem?_append, hlow,
        show i - offset < src.length by omega]
    · rw [if_neg (by omega)]
      simp [memcpy, byteAt, List.getD_eq_getElem?_getD, List.getElem?_append, hlow,
        show ¬ i - offset < src.length by omega,
        show offset + src.length + (i - offset - src.length) = i by omega]

theorem load_congr {left right : Bytes} {offset len : Nat}
    (h : ∀ i, offset ≤ i → i < offset + len → byteAt left i = byteAt right i) :
    load left offset len = load right offset len := by
  simp only [load, List.map_inj_left, List.mem_range]
  intro i hi
  exact h (offset + i) (by omega) (by omega)

theorem load_memcpy_of_disjoint {dst src : Bytes} {start offset len : Nat}
    (hdisjoint : offset + len ≤ start ∨ start + src.length ≤ offset) :
    load (memcpy dst start src) offset len = load dst offset len :=
  load_congr fun i _ _ => by rw [byteAt_memcpy, if_neg (by omega)]

theorem load_add (buf : Bytes) (offset first second : Nat) :
    load buf offset (first + second) =
      load buf offset first ++ load buf (offset + first) second := by
  simp [load, List.range_add, Nat.add_assoc]

theorem load_load {buf : Bytes} {offset len start count : Nat}
    (hle : start + count ≤ len) :
    load (load buf offset len) start count = load buf (offset + start) count := by
  simp only [load, List.map_inj_left, List.mem_range]
  intro i hi
  change byteAt (load buf offset len) (start + i) = _
  rw [byteAt_load _ _ _ _ (by omega), Nat.add_assoc]

theorem load_eq {buf src : Bytes} {offset : Nat}
    (h : ∀ i, i < src.length → byteAt buf (offset + i) = byteAt src i) :
    load buf offset src.length = src := by
  apply List.ext_getElem (by simp)
  intro i hi hsrc
  have := h i hsrc
  simpa [load, byteAt, List.getD_eq_getElem?_getD, hsrc] using this

def htonl (n : Nat) : Bytes :=
  [UInt8.ofNat (n / 16777216), UInt8.ofNat (n / 65536), UInt8.ofNat (n / 256), UInt8.ofNat n]

def ntohl (bytes : Bytes) : Nat :=
  bytes.foldl (fun total byte => total * 256 + byte.toNat) 0

@[simp] theorem length_htonl (n : Nat) : (htonl n).length = 4 := rfl

@[simp] theorem ntohl_htonl (n : Nat) : ntohl (htonl n) = u32 n := by
  simp only [ntohl, htonl, u32, List.foldl_cons, List.foldl_nil, UInt8.toNat_ofNat']
  omega

/-- The accumulator of `in_cksum`: the sum of at most 750 words does not overflow its
32 bits. -/
def wordSum : Bytes → Nat
  | low :: high :: rest => low.toNat + 256 * high.toNat + wordSum rest
  | [last] => last.toNat
  | [] => 0

def inCksum (addr : Bytes) : Nat :=
  let sum := wordSum addr
  let sum := sum / 65536 + sum % 65536
  let sum := sum + sum / 65536
  65535 - sum % 65536

def checksumBytes (checksum : Nat) : Bytes :=
  [UInt8.ofNat checksum, UInt8.ofNat (checksum / 256)]

/-- The two packet writers return the packet buffer; this is the datagram that leaves for
the first `len` bytes of it. -/
def sendtoErr (packet : Bytes) (len : Nat) : Datagram := load packet 0 len

def sendBuf (buf : Bytes) (flag : Flag) (seqNum : Nat) (packet : Bytes) : Bytes :=
  let packet := if 0 < buf.length then memcpy packet headerLen buf else packet
  let packet := memcpy packet 0 (htonl seqNum)
  let packet := memcpy packet 6 [flag.code]
  let packet := memcpy packet 4 [0, 0]
  let checksum := inCksum (load packet 0 (buf.length + 8))
  memcpy packet 4 (checksumBytes checksum)

def sendBufWithPacketNum (buf : Bytes) (flag : Flag) (seqNum : Nat) (packet : Bytes)
    (packetNum : Nat) : Bytes :=
  let packet := if 0 < buf.length then memcpy packet (headerLen + 4) buf else packet
  let packet := memcpy packet 0 (htonl seqNum)
  let packet := memcpy packet 6 [flag.code]
  let packet := memcpy packet headerLen (htonl packetNum)
  let packet := memcpy packet 4 [0, 0]
  let checksum := inCksum (load packet 0 (buf.length + 8 + 4))
  memcpy packet 4 (checksumBytes checksum)

structure Received where
  flag : Option Flag
  seqNum : Nat
  packet : Bytes

def flagOf (packet : Bytes) : Option Flag := Flag.ofCode? (byteAt packet 6)

/-- The 32-bit field after the header: a packet number, a size or a name length. -/
def fieldOf (packet : Bytes) : Nat := ntohl (load packet headerLen 4)

def seqNumOf (packet : Bytes) : Nat := ntohl (load packet 0 4)

/-- `none` is `CRC_ERROR`. A datagram shorter than its header that passes the
checksum makes the reader take the type from an uninitialised buffer. -/
def recvBuf (datagram : Datagram) : Except Fault (Option Received) :=
  let dataBuf := datagram.take maxPacketLen
  if inCksum dataBuf ≠ 0 then .ok none
  else if dataBuf.length < headerLen then .error .uninitialisedHeader
  else .ok (some
    { flag := flagOf dataBuf, seqNum := ntohl (load dataBuf 0 4), packet := dataBuf })

theorem recvBuf_fault {datagram : Datagram} {fault : Fault}
    (h : recvBuf datagram = .error fault) : fault = .uninitialisedHeader := by
  unfold recvBuf at h
  dsimp only at h
  split at h
  · contradiction
  · split at h
    · cases h
      rfl
    · contradiction

theorem recvBuf_eq_some {datagram : Datagram} {received : Received}
    (h : recvBuf datagram = .ok (some received)) :
    received.packet = datagram.take maxPacketLen ∧
      received.flag = flagOf (datagram.take maxPacketLen) := by
  unfold recvBuf at h
  dsimp only at h
  split at h
  · simp at h
  · split at h
    · simp at h
    · cases h
      exact ⟨rfl, rfl⟩

theorem recvBuf_eq_some_of_length {datagram : Datagram} {received : Received}
    (hlen : datagram.length ≤ maxPacketLen) (h : recvBuf datagram = .ok (some received)) :
    received.packet = datagram ∧ received.flag = flagOf datagram := by
  have := recvBuf_eq_some h
  rwa [List.take_of_length_le hlen] at this

theorem recvBuf_of_header {datagram : Datagram} (hlen : headerLen ≤ datagram.length) :
    recvBuf datagram = .ok none ∨ ∃ received, recvBuf datagram = .ok (some received) := by
  have hbuf : ¬ (datagram.take maxPacketLen).length < headerLen := by
    simp [headerLen, maxPacketLen] at hlen ⊢
    omega
  simp only [recvBuf, hbuf, if_false]
  split
  · exact .inl rfl
  · exact .inr ⟨_, rfl⟩

section Written

variable (buf : Bytes) (flag : Flag) (seqNum : Nat) (packet : Bytes) (packetNum : Nat)

theorem byteAt_sendBuf_flag : byteAt (sendBuf buf flag seqNum packet) 6 = flag.code := by
  simp [sendBuf, byteAt_memcpy, checksumBytes]
  rfl

theorem byteAt_sendBuf_data (i : Nat) (hi : i < buf.length) :
    byteAt (sendBuf buf flag seqNum packet) (7 + i) = byteAt buf i := by
  have hpos : 0 < buf.length := by omega
  simp only [sendBuf, byteAt_memcpy, checksumBytes, hpos, if_true, headerLen,
    List.length_cons, List.length_nil, length_htonl]
  rw [if_neg (by omega), if_neg (by omega), if_neg (by omega), if_neg (by omega),
    if_pos (by omega), Nat.add_sub_cancel_left]

theorem byteAt_sendBufWithPacketNum_flag :
    byteAt (sendBufWithPacketNum buf flag seqNum packet packetNum) 6 = flag.code := by
  simp [sendBufWithPacketNum, byteAt_memcpy, checksumBytes, headerLen]
  rfl

theorem byteAt_sendBufWithPacketNum_field (i : Nat) (hi : i < 4) :
    byteAt (sendBufWithPacketNum buf flag seqNum packet packetNum) (7 + i) =
      byteAt (htonl packetNum) i := by
  simp only [sendBufWithPacketNum, byteAt_memcpy, checksumBytes, headerLen,
    List.length_cons, List.length_nil, length_htonl]
  rw [if_neg (by omega), if_neg (by omega), if_pos (by omega), Nat.add_sub_cancel_left]

theorem byteAt_sendBufWithPacketNum_data (i : Nat) (hi : i < buf.length) :
    byteAt (sendBufWithPacketNum buf flag seqNum packet packetNum) (11 + i) =
      byteAt buf i := by
  have hpos : 0 < buf.length := by omega
  simp only [sendBufWithPacketNum, byteAt_memcpy, checksumBytes, hpos, if_true,
    headerLen, List.length_cons, List.length_nil, length_htonl]
  rw [if_neg (by omega), if_neg (by omega), if_neg (by omega), if_neg (by omega),
    if_neg (by omega), if_pos (by omega), Nat.add_sub_cancel_left]

end Written

/-- The payload of a data packet: what lies between the packet number and the
pad byte that both writers count at the end. -/
def payloadOf (packet : Bytes) : Bytes := load packet 11 (packet.length - 12)

def numberedDatagram (buf : Bytes) (flag : Flag) (seqNum packetNum : Nat) : Datagram :=
  sendtoErr (sendBufWithPacketNum buf flag seqNum [] packetNum) (buf.length + 8 + 4)

def plainDatagram (buf : Bytes) (flag : Flag) (seqNum : Nat) : Datagram :=
  sendtoErr (sendBuf buf flag seqNum []) (buf.length + 8)

section Datagrams

variable {buf : Bytes} {flag : Flag} {seqNum packetNum : Nat}

@[simp] theorem length_numberedDatagram :
    (numberedDatagram buf flag seqNum packetNum).length = buf.length + 12 := by
  simp [numberedDatagram, sendtoErr]

@[simp] theorem length_plainDatagram :
    (plainDatagram buf flag seqNum).length = buf.length + 8 := by
  simp [plainDatagram, sendtoErr]

@[simp] theorem flagOf_numberedDatagram :
    flagOf (numberedDatagram buf flag seqNum packetNum) = some flag := by
  rw [flagOf, numberedDatagram, sendtoErr, byteAt_load _ _ _ _ (by omega), Nat.zero_add,
    byteAt_sendBufWithPacketNum_flag, Flag.ofCode?_code]

@[simp] theorem flagOf_plainDatagram :
    flagOf (plainDatagram buf flag seqNum) = some flag := by
  rw [flagOf, plainDatagram, sendtoErr, byteAt_load _ _ _ _ (by omega), Nat.zero_add,
    byteAt_sendBuf_flag, Flag.ofCode?_code]

@[simp] theorem fieldOf_numberedDatagram :
    fieldOf (numberedDatagram buf flag seqNum packetNum) = u32 packetNum := by
  have hload : load (numberedDatagram buf flag seqNum packetNum) headerLen
      (htonl packetNum).length = htonl packetNum := by
    apply load_eq
    intro i hi
    rw [length_htonl] at hi
    rw [numberedDatagram, sendtoErr, headerLen, byteAt_load _ _ _ _ (by omega), Nat.zero_add,
      byteAt_sendBufWithPacketNum_field _ _ _ _ _ _ hi]
  rw [length_htonl] at hload
  rw [fieldOf, hload, ntohl_htonl]

@[simp] theorem payloadOf_numberedDatagram :
    payloadOf (numberedDatagram buf flag seqNum packetNum) = buf := by
  rw [payloadOf, length_numberedDatagram, Nat.add_sub_cancel]
  apply load_eq
  intro i hi
  rw [numberedDatagram, sendtoErr, byteAt_load _ _ _ _ (by omega), Nat.zero_add,
    byteAt_sendBufWithPacketNum_data _ _ _ _ _ _ hi]

theorem fieldOf_plainDatagram {value : Nat} {rest : Bytes} :
    fieldOf (plainDatagram (htonl value ++ rest) flag seqNum) = u32 value := by
  have hload : load (plainDatagram (htonl value ++ rest) flag seqNum) headerLen
      (htonl value).length = htonl value := by
    apply load_eq
    intro i hi
    rw [length_htonl] at hi
    rw [plainDatagram, sendtoErr, headerLen, byteAt_load _ _ _ _ (by simp; omega),
      Nat.zero_add, byteAt_sendBuf_data _ _ _ _ _ (by simp; omega)]
    simp [byteAt, List.getD_eq_getElem?_getD, List.getElem?_append, hi]
  rw [length_htonl] at hload
  rw [fieldOf, hload, ntohl_htonl]

theorem fieldOf_plainDatagram_htonl {value : Nat} :
    fieldOf (plainDatagram (htonl value) flag seqNum) = u32 value := by
  rw [← List.append_nil (htonl value), fieldOf_plainDatagram]

end Datagrams

end SlidingWindow

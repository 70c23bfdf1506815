import SlidingWindow.Process

/-! What the two programs put on the network during one upload. -/
namespace SlidingWindow

/-- One upload: the buffers that `read` cuts the local file into, the window and
buffer sizes and the remote name of the command line. -/
structure Upload where
  chunks : List Bytes
  width : Nat
  bufSize : Nat
  name : Bytes
  chunk_length : ∀ chunk ∈ chunks, 1 ≤ chunk.length ∧ chunk.length ≤ bufSize
  bufSize_range : 400 ≤ bufSize ∧ bufSize ≤ 1400
  width_lt : width < 4294967296
  name_length : name.length ≤ 1000

namespace Upload

/-- The window has a slot, and the packet numbers do not wrap. -/
structure Countable (u : Upload) : Prop where
  positive : 1 ≤ u.width
  count : u.chunks.length + u.width < 4294967295

/-- `data` is the chunk that packet `number` carries, one of the first `top`. -/
structure Genuine (u : Upload) (top number : Nat) (data : Bytes) : Prop where
  positive : 1 ≤ number
  le : number ≤ top
  chunk : u.chunks[number - 1]? = some data

/-- What the client sends, when it has sent `top` packets; it ends the file only if
`complete` holds. -/
inductive FromClient (u : Upload) (top : Nat) (complete : Prop) : Datagram → Prop
  | fileName (seqNum : Nat) :
      FromClient u top complete
        (plainDatagram (htonl u.name.length ++ u.name) .fileName seqNum)
  | bufferSize (seqNum : Nat) :
      FromClient u top complete (plainDatagram (htonl u.bufSize) .bufferSize seqNum)
  | windowSize (seqNum : Nat) :
      FromClient u top complete (plainDatagram (htonl u.width) .windowSize seqNum)
  | data (seqNum number : Nat) (chunk : Bytes) (genuine : u.Genuine top number chunk) :
      FromClient u top complete (numberedDatagram chunk .data seqNum number)
  | endOfFile (seqNum : Nat) (ended : complete) :
      FromClient u top complete (plainDatagram [] .endOfFile seqNum)

def setupAnswers : List Flag :=
  [.ackFileName, .rejFileNameNoOpen, .ackBufferSize, .ackWindowSize]

/-- What the server sends when it expects packet `next` of a client that has sent
`top` packets; it rejects a packet only if it has seen a later one. -/
inductive FromServer (top next : Nat) (complete : Prop) : Datagram → Prop
  | answer (flag : Flag) (seqNum : Nat) (setup : flag ∈ setupAnswers) :
      FromServer top next complete (plainDatagram [] flag seqNum)
  | rr (seqNum number : Nat) (positive : 1 ≤ number) (le : number ≤ next) :
      FromServer top next complete (numberedDatagram [] .rr seqNum number)
  | srej (seqNum number : Nat) (positive : 1 ≤ number) (le : number ≤ next)
      (later : number < top) :
      FromServer top next complete (numberedDatagram [] .srej seqNum number)
  | ackEof (seqNum : Nat) (ended : complete) :
      FromServer top next complete (plainDatagram [] .ackEof seqNum)

variable {u : Upload} {top top' next next' number : Nat} {complete complete' : Prop}
  {datagram : Datagram} {data : Bytes}

theorem Genuine.mono (h : u.Genuine top number data) (hle : top ≤ top') :
    u.Genuine top' number data :=
  ⟨h.positive, Nat.le_trans h.le hle, h.chunk⟩

theorem Genuine.le_length (h : u.Genuine top number data) : number ≤ u.chunks.length := by
  have := (List.getElem?_eq_some_iff.mp h.chunk).1
  omega

theorem Genuine.data_length (h : u.Genuine top number data) :
    1 ≤ data.length ∧ data.length ≤ 1400 := by
  have hlength := u.chunk_length data (List.mem_of_getElem? h.chunk)
  exact ⟨hlength.1, Nat.le_trans hlength.2 u.bufSize_range.2⟩

theorem FromClient.mono (h : u.FromClient top complete datagram) (hle : top ≤ top')
    (himp : complete → complete') : u.FromClient top' complete' datagram := by
  cases h with
  | fileName seqNum => exact .fileName seqNum
  | bufferSize seqNum => exact .bufferSize seqNum
  | windowSize seqNum => exact .windowSize seqNum
  | data seqNum number chunk genuine => exact .data seqNum number chunk (genuine.mono hle)
  | endOfFile seqNum hcomplete => exact .endOfFile seqNum (himp hcomplete)

theorem FromServer.mono (h : FromServer top next complete datagram) (hle : top ≤ top')
    (hnext : next ≤ next') (himp : complete → complete') :
    FromServer top' next' complete' datagram := by
  cases h with
  | answer flag seqNum setup => exact .answer flag seqNum setup
  | rr seqNum number positive le => exact .rr seqNum number positive (Nat.le_trans le hnext)
  | srej seqNum number positive le later =>
      exact .srej seqNum number positive (Nat.le_trans le hnext) (Nat.lt_of_lt_of_le later hle)
  | ackEof seqNum hcomplete => exact .ackEof seqNum (himp hcomplete)

theorem FromClient.length (h : u.FromClient top complete datagram) :
    headerLen ≤ datagram.length ∧ datagram.length ≤ maxPacketLen := by
  have hname := u.name_length
  simp only [headerLen, maxPacketLen]
  cases h with
  | data _ _ _ genuine =>
      have := genuine.data_length
      rw [length_numberedDatagram]
      omega
  | fileName => simp only [length_plainDatagram, List.length_append, length_htonl]; omega
  | _ => simp

theorem FromServer.length (h : FromServer top next complete datagram) :
    headerLen ≤ datagram.length ∧ datagram.length ≤ maxPacketLen := by
  cases h <;> simp [headerLen, maxPacketLen]

theorem FromClient.data_of_flag (h : u.FromClient top complete datagram)
    (hflag : flagOf datagram = some .data) :
    ∃ number chunk, u.Genuine top number chunk ∧ 12 ≤ datagram.length ∧
      fieldOf datagram = u32 number ∧ payloadOf datagram = chunk := by
  cases h with
  | data seqNum number chunk genuine => exact ⟨number, chunk, genuine, by simp, by simp, by simp⟩
  | _ => simp at hflag

theorem FromClient.windowSize_of_flag (h : u.FromClient top complete datagram)
    (hflag : flagOf datagram = some .windowSize) : fieldOf datagram = u.width := by
  cases h with
  | windowSize seqNum =>
      rw [fieldOf_plainDatagram_htonl, u32_of_lt u.width_lt]
  | _ => simp at hflag

theorem FromClient.bufferSize_of_flag (h : u.FromClient top complete datagram)
    (hflag : flagOf datagram = some .bufferSize) : fieldOf datagram = u.bufSize := by
  cases h with
  | bufferSize seqNum =>
      have hrange := u.bufSize_range
      rw [fieldOf_plainDatagram_htonl, u32_of_lt (by omega)]
  | _ => simp at hflag

theorem FromClient.complete_of_flag (h : u.FromClient top complete datagram)
    (hflag : flagOf datagram = some .endOfFile) : complete := by
  cases h with
  | endOfFile _ hcomplete => exact hcomplete
  | _ => simp at hflag

theorem FromClient.flag_of_setup (h : u.FromClient 0 False datagram) :
    flagOf datagram = some .fileName ∨ flagOf datagram = some .bufferSize ∨
      flagOf datagram = some .windowSize := by
  cases h with
  | data seqNum number chunk genuine =>
      have := genuine.positive
      have := genuine.le
      omega
  | endOfFile _ ended => exact ended.elim
  | _ => simp

theorem FromServer.rr_of_flag (h : FromServer top next complete datagram)
    (hflag : flagOf datagram = some .rr) :
    ∃ number, 1 ≤ number ∧ number ≤ next ∧ fieldOf datagram = u32 number := by
  cases h with
  | rr seqNum number positive le => exact ⟨number, positive, le, by simp⟩
  | answer flag seqNum setup =>
      simp only [flagOf_plainDatagram, Option.some.injEq] at hflag
      simp [setupAnswers, hflag] at setup
  | _ => simp at hflag

theorem FromServer.srej_of_flag (h : FromServer top next complete datagram)
    (hflag : flagOf datagram = some .srej) :
    ∃ number, 1 ≤ number ∧ number ≤ next ∧ number < top ∧ fieldOf datagram = u32 number := by
  cases h with
  | srej seqNum number positive le later => exact ⟨number, positive, le, later, by simp⟩
  | answer flag seqNum setup =>
      simp only [flagOf_plainDatagram, Option.some.injEq] at hflag
      simp [setupAnswers, hflag] at setup
  | _ => simp at hflag

theorem FromServer.complete_of_flag (h : FromServer top next complete datagram)
    (hflag : flagOf datagram = some .ackEof) : complete := by
  cases h with
  | ackEof _ hcomplete => exact hcomplete
  | answer flag seqNum setup =>
      simp only [flagOf_plainDatagram, Option.some.injEq] at hflag
      simp [setupAnswers, hflag] at setup
  | _ => simp at hflag

end Upload

end SlidingWindow

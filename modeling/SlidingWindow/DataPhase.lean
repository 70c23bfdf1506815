import SlidingWindow.ServerWindow
import SlidingWindow.Library.Runs

/-! Runs of the server's data phase: the packet that ended the setup phase, then any
sequence of datagrams. The ring refines the selective-reject receiver along every
such run. -/
namespace SlidingWindow.DataPhase

open Library Library.SelectiveReject ServerWindow

/-- Signed packet numbers are nonnegative below this bound. -/
def packetLimit : ℕ := 2147483648

variable {width limit : ℕ}

/-- One datagram: `ready_for_next_data_packet`, then `received_data` if it is one. -/
def feed (s : Server) (arrival : Peer × Datagram) : Server :=
  let s := s.step (.datagram arrival.1 arrival.2)
  if s.state = .receivedData then s.step .silent else s

def dataOf? (datagram : Datagram) : Option (ℕ × Bytes) :=
  match recvBuf datagram with
  | .ok (some received) =>
      if received.flag = some .data then
        some (fieldOf received.packet, payloadOf received.packet)
      else none
  | _ => none

/-- What the server may be fed: data packets that `send_buf_with_packet_num` can
build, with numbers below `limit`; datagrams with any other flag but `END_OF_FILE`;
and datagrams that fail the checksum. -/
structure Feedable (limit : ℕ) (datagram : Datagram) : Prop where
  readable : ∃ outcome, recvBuf datagram = .ok outcome
  continues : ∀ received, recvBuf datagram = .ok (some received) →
    received.flag ≠ some .endOfFile
  wellFormed : ∀ received, recvBuf datagram = .ok (some received) →
    received.flag = some .data →
      12 ≤ received.packet.length ∧ fieldOf received.packet < limit

theorem length_packet_le {datagram : Datagram} {received : Received}
    (h : recvBuf datagram = .ok (some received)) :
    received.packet.length ≤ maxPacketLen := by
  rw [(recvBuf_eq_some h).1, List.length_take]
  exact Nat.min_le_left _ _

theorem isPacket_of_length {packet : Bytes} (hlower : 12 ≤ packet.length)
    (hupper : packet.length ≤ maxPacketLen) :
    IsPacket ⟨packet, packet.length⟩ (fieldOf packet) (payloadOf packet) :=
  ⟨hlower, hupper, rfl, rfl⟩

theorem recvBuf_of_readable {datagram : Datagram} (hlen : headerLen ≤ datagram.length) :
    ∃ outcome, recvBuf datagram = .ok outcome := by
  rcases recvBuf_of_header hlen with hnone | ⟨received, hsome⟩
  · exact ⟨none, hnone⟩
  · exact ⟨some received, hsome⟩

theorem feedable_numberedDatagram {buf : Bytes} {flag : Flag} {seqNum number : ℕ}
    (hlen : buf.length + 12 ≤ maxPacketLen) (hflag : flag ≠ .endOfFile)
    (hnumber : u32 number < limit) :
    Feedable limit (numberedDatagram buf flag seqNum number) := by
  have hpacket {received : Received}
      (h : recvBuf (numberedDatagram buf flag seqNum number) = .ok (some received)) :=
    recvBuf_eq_some_of_length (by simpa using hlen) h
  refine ⟨recvBuf_of_readable ?_, ?_, ?_⟩
  · simp only [length_numberedDatagram, headerLen]
    omega
  · intro received h
    rw [(hpacket h).2, flagOf_numberedDatagram]
    exact fun heq => hflag (Option.some.inj heq)
  · intro received h _
    rw [(hpacket h).1, length_numberedDatagram, fieldOf_numberedDatagram]
    exact ⟨by omega, hnumber⟩

def Read (s s' : Server) : Prop :=
  ∃ seqNum client recvPacket, s' = { s with
    timeout := 0, seqNum := seqNum, client := client, recvPacket := recvPacket,
    state := s'.state }

inductive ReadOutcome (s' : Server) (datagram : Datagram) : Prop
  | dropped (state : s'.state = .readyForNextDataPacket) (data : dataOf? datagram = none)
      (notEof : ∀ received, recvBuf datagram = .ok (some received) →
        received.flag ≠ some .endOfFile)
  | data (received : Received) (accepted : recvBuf datagram = .ok (some received))
      (flag : received.flag = some .data) (state : s'.state = .receivedData)
      (packet : s'.recvPacket = ⟨received.packet, received.packet.length⟩)
  | eof (received : Received) (accepted : recvBuf datagram = .ok (some received))
      (flag : received.flag = some .endOfFile) (state : s'.state = .receivedEof)

theorem readyForNextDataPacket_spec {s : Server} (src : Peer) {datagram : Datagram}
    (hstate : s.state = .readyForNextDataPacket)
    (hreadable : ∃ outcome, recvBuf datagram = .ok outcome) :
    ∃ s', s.readyForNextDataPacket (.datagram src datagram) = .ok s' ∧
      Read s s' ∧ ReadOutcome s' datagram := by
  obtain ⟨outcome, houtcome⟩ := hreadable
  unfold Server.readyForNextDataPacket
  cases outcome with
  | none =>
      simp only [houtcome]
      exact ⟨_, rfl, ⟨_, _, _, rfl⟩,
        .dropped hstate (by simp [dataOf?, houtcome]) (by simp [houtcome])⟩
  | some received =>
      by_cases hdata : received.flag = some .data
      · simp only [houtcome, hdata]
        exact ⟨_, rfl, ⟨_, _, _, rfl⟩, .data received houtcome hdata rfl rfl⟩
      · by_cases heof : received.flag = some .endOfFile
        · simp only [houtcome, heof]
          exact ⟨_, rfl, ⟨_, _, _, rfl⟩, .eof received houtcome heof rfl⟩
        · have hdropped : ∀ other, recvBuf datagram = .ok (some other) →
              other.flag ≠ some .endOfFile := by
            intro other hother
            rw [houtcome] at hother
            cases hother
            exact heof
          simp only [houtcome]
          exact ⟨_, rfl, ⟨_, _, _, rfl⟩,
            .dropped hstate (by simp [dataOf?, houtcome, hdata]) hdropped⟩

theorem step_read {s : Server} (src : Peer) {datagram : Datagram}
    (hstate : s.state = .readyForNextDataPacket)
    (hreadable : ∃ outcome, recvBuf datagram = .ok outcome) :
    Read s (s.step (.datagram src datagram)) ∧
      ReadOutcome (s.step (.datagram src datagram)) datagram := by
  obtain ⟨s', hread, hspec⟩ := readyForNextDataPacket_spec src hstate hreadable
  have hstep : s.processClient (.datagram src datagram) = .ok s' := by
    simp only [Server.processClient, hstate, hread]
  simp only [Server.step, hstep]
  exact hspec

theorem Stable.read {s s' : Server} {receiver : Receiver width Bytes}
    (h : Stable width limit s receiver) (hread : Read s s') :
    Stable width limit s' receiver := by
  obtain ⟨seqNum, client, recvPacket, heq⟩ := hread
  rw [heq]
  exact ⟨h.congr rfl rfl rfl rfl rfl rfl, h.srej⟩

theorem step_receivedData {s s' : Server} (hstate : s.state = .receivedData)
    (h : s.receivedData = .ok s') (input : Input) : s.step input = s' := by
  unfold Server.step Server.processClient
  simp only [hstate, h]

inductive FeedOutcome (width limit : ℕ) (s s' : Server) (receiver : Receiver width Bytes)
    (datagram : Datagram) : Prop
  | dropped (data : dataOf? datagram = none) (read : Read s s')
      (stable : Stable width limit s' receiver)
  | accepted (number : ℕ) (data : Bytes) (packet : dataOf? datagram = some (number, data))
      (stable : Stable width limit s' (receiver.accept number data))
      (middle : Server) (read : Read s middle) (reaction : Reaction middle s' number)

theorem feed_spec {s : Server} {receiver : Receiver width Bytes} (src : Peer)
    {datagram : Datagram} (hstate : s.state = .readyForNextDataPacket)
    (h : Stable width limit s receiver) (hfeed : Feedable limit datagram) :
    (feed s (src, datagram)).state = .readyForNextDataPacket ∧
      FeedOutcome width limit s (feed s (src, datagram)) receiver datagram := by
  obtain ⟨hread, houtcome⟩ := step_read src hstate hfeed.readable
  have hstable := Stable.read h hread
  unfold feed
  dsimp only
  generalize s.step (.datagram src datagram) = middle at hread houtcome hstable ⊢
  cases houtcome with
  | dropped hready hdata _ =>
      rw [if_neg (by simp [hready])]
      exact ⟨hready, .dropped hdata hread hstable⟩
  | eof received haccepted hflag _ => exact absurd hflag (hfeed.continues received haccepted)
  | data received haccepted hflag hdata hpacket =>
      obtain ⟨hlower, hlimit⟩ := hfeed.wellFormed received haccepted hflag
      have hisPacket : IsPacket middle.recvPacket (fieldOf received.packet)
          (payloadOf received.packet) :=
        hpacket ▸ isPacket_of_length hlower (length_packet_le haccepted)
      obtain ⟨s', hreceive, hstable', hreaction, hsettled⟩ :=
        receivedData_spec hstable hisPacket hlimit
      rw [if_pos hdata, step_receivedData hdata hreceive]
      refine ⟨(eq_of_frame Server.state (fun _ => rfl) hsettled :), ?_⟩
      exact .accepted _ _ (by simp [dataOf?, haccepted, hflag]) hstable' middle hread hreaction

theorem FeedOutcome.curRRnum_le {s s' : Server} {receiver : Receiver width Bytes}
    {datagram : Datagram} (h : FeedOutcome width limit s s' receiver datagram)
    (hstable : Stable width limit s receiver) : s.curRRnum ≤ s'.curRRnum := by
  cases h with
  | dropped _ read _ =>
      obtain ⟨_, _, _, heq⟩ := read
      rw [heq]
  | accepted number data _ stable _ _ _ =>
      rw [hstable.next, stable.next]
      exact Receiver.le_next_accept

theorem FeedOutcome.stable {s s' : Server} {receiver : Receiver width Bytes}
    {datagram : Datagram} (h : FeedOutcome width limit s s' receiver datagram) :
    ∃ receiver', Stable width limit s' receiver' := by
  cases h with
  | dropped _ _ stable => exact ⟨_, stable⟩
  | accepted _ _ _ stable _ _ _ => exact ⟨_, stable⟩

def response? : Event → Option (Flag × ℕ)
  | .sent _ datagram =>
      if flagOf datagram = some .rr then some (.rr, fieldOf datagram)
      else if flagOf datagram = some .srej then some (.srej, fieldOf datagram)
      else none
  | _ => none

def responses (trace : Trace) : List (Flag × ℕ) := trace.filterMap response?

/-- The server about to run `ready_for_data_packet_setup`: the first data packet is
in its buffer, and no data packet has been written or answered yet. -/
structure StartsData (width : ℕ) (s : Server) (first : Datagram) : Prop where
  state : s.state = .readyForDataPacketsSetup
  winSize : s.winSize = width
  positive : 1 ≤ width
  slots : width ≤ 255
  packet : s.recvPacket = ⟨first, first.length⟩
  lower : 12 ≤ first.length
  upper : first.length ≤ maxPacketLen
  number : fieldOf first < packetLimit
  writes : s.trace.writes = []
  quiet : responses s.trace = []

def begun (s : Server) : Server := (s.step .silent).step .silent

theorem markUnused_loop (marked rest : ℕ) (hsize : marked + rest ≤ 255) :
    Server.markUnused (rest + 1) (marked + rest)
        (List.replicate marked ⟨[], unusedLen⟩ ++ List.replicate rest ⟨[], 0⟩) marked =
      .ok (List.replicate (marked + rest) ⟨[], unusedLen⟩) := by
  induction rest generalizing marked with
  | zero => simp [Server.markUnused]
  | succ rest ih =>
      have hnext : (marked + 1) % 256 = marked + 1 := Nat.mod_eq_of_lt (by omega)
      have hset : (List.replicate marked (⟨[], unusedLen⟩ : BufferChunk) ++
            List.replicate (rest + 1) (⟨[], 0⟩ : BufferChunk)).set marked ⟨[], unusedLen⟩ =
          List.replicate (marked + 1) ⟨[], unusedLen⟩ ++ List.replicate rest ⟨[], 0⟩ := by
        rw [List.set_append_right _ _ (by simp), List.replicate_succ, List.replicate_succ',
          List.length_replicate, Nat.sub_self, List.set_cons_zero, List.append_assoc]
        rfl
      have hslot : (List.replicate marked (⟨[], unusedLen⟩ : BufferChunk) ++
            List.replicate (rest + 1) (⟨[], 0⟩ : BufferChunk)).getD marked ⟨[], 0⟩ =
          ⟨[], 0⟩ := by
        simp [List.getD_eq_getElem?_getD]
      have := ih (marked + 1) (by omega)
      rw [Nat.add_right_comm, Nat.add_assoc] at this
      rw [Server.markUnused, if_pos (by omega), hslot, hset, hnext]
      exact this

theorem markUnused_spec {size : ℕ} (hsize : size ≤ 255) :
    Server.markUnused (size + 1) size (List.replicate size ⟨[], 0⟩) 0 =
      .ok (List.replicate size ⟨[], unusedLen⟩) := by
  have := markUnused_loop 0 size (by omega)
  rwa [Nat.zero_add] at this

def allocated (s : Server) : Server :=
  { s with
    state := .receivedData
    curRRnum := 1
    winMin := 0
    winCur := 0
    winMax := s.winSize
    hasSREJ := false
    numSREJ := 0
    window := List.replicate s.winSize ⟨[], unusedLen⟩ }

theorem readyForDataPacketSetup_eq {s : Server} (hslots : s.winSize ≤ 255) :
    s.readyForDataPacketSetup = .ok (allocated s) := by
  unfold Server.readyForDataPacketSetup
  rw [markUnused_spec hslots]
  rfl

/-- The loop counter never reaches a larger one. -/
theorem markUnused_diverges {size : ℕ} (hsize : 255 < size) (fuel : ℕ)
    (window : List BufferChunk) {i : ℕ} (hi : i ≤ 255) :
    Server.markUnused fuel size window i = .error .diverges := by
  induction fuel generalizing window i with
  | zero => rfl
  | succ fuel ih =>
      rw [Server.markUnused, if_pos (by omega)]
      exact ih _ (by omega)

theorem slots_of_readyForDataPacketSetup {s s' : Server}
    (h : s.readyForDataPacketSetup = .ok s') : s.winSize ≤ 255 := by
  by_contra hlarge
  unfold Server.readyForDataPacketSetup at h
  rw [markUnused_diverges (by omega) _ _ (Nat.zero_le _)] at h
  contradiction

theorem readyForDataPacketSetup_ok {s s' : Server} (h : s.readyForDataPacketSetup = .ok s') :
    s' = allocated s := by
  rw [readyForDataPacketSetup_eq (slots_of_readyForDataPacketSetup h)] at h
  exact (Except.ok.inj h).symm

theorem stable_allocated {s : Server} (hpositive : 1 ≤ s.winSize)
    (hroom : limit + s.winSize < 4294967296) (hlimit : 1 ≤ limit)
    (hwrites : s.trace.writes = []) :
    Stable s.winSize limit (allocated s) Receiver.start := by
  refine ⟨?_, fun hset => absurd hset (by simp [allocated])⟩
  refine
    { room := hroom
      positive := hpositive
      winSize := rfl
      length := by simp [allocated]
      next := rfl
      winMin := rfl
      winMax := by simp [allocated]
      sound := Receiver.start.sound
      next_le := hlimit
      held_lt := fun n hn => absurd hn Finmap.notMem_empty
      slots := ?_
      writes := hwrites }
  intro i _ _
  refine ⟨⟨[], unusedLen⟩, ?_, ?_⟩
  · simp [allocated, Ring.slot?, Nat.mod_lt i hpositive]
  · rw [show Receiver.start.held.lookup (i + 1) = none from Finmap.lookup_empty _]
    rfl

theorem StartsData.ready {s : Server} {first : Datagram} (h : StartsData width s first) :
    s.step .silent = allocated s := by
  have hslots := h.slots
  rw [← h.winSize] at hslots
  simp only [Server.step, Server.processClient, h.state, readyForDataPacketSetup_eq hslots]

theorem StartsData.stable {s : Server} {first : Datagram} (h : StartsData width s first) :
    Stable width packetLimit (s.step .silent) Receiver.start := by
  have hpositive := h.positive
  have hslots := h.slots
  have hsize := h.winSize
  subst hsize
  rw [h.ready]
  exact stable_allocated hpositive (by simp only [packetLimit]; omega) (by decide) h.writes

theorem StartsData.begun_spec {s : Server} {first : Datagram} (h : StartsData width s first) :
    (begun s).state = .readyForNextDataPacket ∧
      Stable width packetLimit (begun s)
        (Receiver.start.accept (fieldOf first) (payloadOf first)) ∧
      Reaction (s.step .silent) (begun s) (fieldOf first) := by
  have hpacket : IsPacket (s.step .silent).recvPacket (fieldOf first) (payloadOf first) := by
    have hbuffer : (s.step .silent).recvPacket = ⟨first, first.length⟩ := by
      rw [h.ready]
      exact h.packet
    exact hbuffer ▸ isPacket_of_length h.lower h.upper
  have hstate : (s.step .silent).state = .receivedData := by
    rw [h.ready]
    rfl
  obtain ⟨s', hreceive, hstable, hreaction, hsettled⟩ :=
    receivedData_spec h.stable hpacket h.number
  rw [begun, step_receivedData hstate hreceive]
  exact ⟨(eq_of_frame Server.state (fun _ => rfl) hsettled :), hstable, hreaction⟩

def items (first : Datagram) (arrivals : List (Peer × Datagram)) : List (ℕ × Bytes) :=
  (fieldOf first, payloadOf first) :: arrivals.filterMap fun arrival => dataOf? arrival.2

theorem acceptAll_items_append {first : Datagram} {arrivals : List (Peer × Datagram)}
    {arrival : Peer × Datagram} {receiver : Receiver width Bytes} :
    receiver.acceptAll (items first (arrivals ++ [arrival])) =
      (receiver.acceptAll (items first arrivals)).acceptAll (dataOf? arrival.2).toList := by
  rw [← Receiver.acceptAll_append]
  congr 1
  simp only [items, List.filterMap_append, List.cons_append]
  cases hdata : dataOf? arrival.2 <;> simp [hdata]

/-- Between two datagrams the server waits for the next one, and its ring represents
the receiver that accepted the packets fed so far. -/
theorem run_stable {s : Server} {first : Datagram} (hstart : StartsData width s first)
    {arrivals : List (Peer × Datagram)}
    (hfeed : ∀ arrival ∈ arrivals, Feedable packetLimit arrival.2) :
    (Runs.run feed (begun s) arrivals).state = .readyForNextDataPacket ∧
      Stable width packetLimit (Runs.run feed (begun s) arrivals)
        (Receiver.start.acceptAll (items first arrivals)) := by
  induction arrivals using List.reverseRecOn with
  | nil => exact ⟨hstart.begun_spec.1, hstart.begun_spec.2.1⟩
  | append_singleton arrivals arrival ih =>
      obtain ⟨hstate, hstable⟩ := ih fun other hother => hfeed other (by simp [hother])
      obtain ⟨hstate', houtcome⟩ :=
        feed_spec arrival.1 hstate hstable (hfeed arrival (by simp))
      rw [Runs.run_append, acceptAll_items_append]
      refine ⟨hstate', ?_⟩
      cases houtcome with
      | dropped hdata _ hstable' => rwa [hdata]
      | accepted number data hdata hstable' _ _ _ => rwa [hdata]

structure Simulates (width : ℕ) (s : Server) (receiver : Receiver width Bytes) : Prop where
  waiting : s.state = .readyForNextDataPacket
  next : s.curRRnum = receiver.next
  winMin : s.winMin = s.curRRnum - 1
  winMax : s.winMax = s.winMin + width
  srej : s.hasSREJ = true → s.numSREJ = s.curRRnum
  slots : ∀ i, s.winMin < i → i < s.winMax → ∃ chunk, s.window[i % width]? = some chunk ∧
    (chunk.len ≠ unusedLen ↔ i + 1 ∈ receiver.held) ∧
    ∀ data, receiver.held.lookup (i + 1) = some data →
      fieldOf chunk.buf = i + 1 ∧ load chunk.buf 11 (chunk.len - 12) = data
  expected : ∃ chunk, s.window[s.winMin % width]? = some chunk ∧ chunk.len = unusedLen
  writes : s.trace.writes = receiver.output

theorem Stable.simulates {s : Server} {receiver : Receiver width Bytes}
    (hstate : s.state = .readyForNextDataPacket) (h : Stable width limit s receiver) :
    Simulates width s receiver := by
  have hmin := h.winMin
  have hmax := h.winMax
  have hpositive := h.positive
  refine
    { waiting := hstate
      next := h.next
      winMin := by omega
      winMax := hmax
      srej := h.srej
      slots := ?_
      expected := ?_
      writes := h.writes }
  · intro i hlow hhigh
    obtain ⟨chunk, hslot, hholds⟩ := h.slots i hlow.le hhigh
    rw [Ring.slot?, h.length] at hslot
    refine ⟨chunk, hslot, ?_⟩
    cases hlookup : receiver.held.lookup (i + 1) with
    | none =>
        have hfree : chunk.len = unusedLen := by rwa [hlookup] at hholds
        exact ⟨by simp [hfree, Finmap.lookup_eq_none.mp hlookup], by simp⟩
    | some data =>
        have hpacket : IsPacket chunk (i + 1) data := by rwa [hlookup] at hholds
        refine ⟨by simp [hpacket.used, Finmap.mem_of_lookup_eq_some hlookup], ?_⟩
        intro other hother
        cases hother
        exact ⟨hpacket.number, hpacket.data⟩
  · obtain ⟨chunk, hslot, hholds⟩ := h.slots s.winMin (Nat.le_refl _) (by omega)
    rw [Ring.slot?, h.length] at hslot
    rw [hmin, h.next, receiver.lookup_next] at hholds
    exact ⟨chunk, hslot, hholds⟩

/-- For any window size the initialisation handles, and whatever sequence of
datagrams the server is fed, its state mirrors the receiver that accepts the data
packets among them, in the order they arrive, and nothing else. -/
theorem ring_refines_receiver {s : Server} {first : Datagram}
    (hstart : StartsData width s first) (arrivals : List (Peer × Datagram))
    (hfeed : ∀ arrival ∈ arrivals, Feedable packetLimit arrival.2) :
    Simulates width (Runs.run feed (begun s) arrivals)
      (Receiver.start.acceptAll (items first arrivals)) :=
  have hstable := run_stable hstart hfeed
  Stable.simulates hstable.1 hstable.2

def ready (winSize : ℕ) (first : Datagram) : Server :=
  { Server.forked .rcopy [] with
    state := .readyForDataPacketsSetup
    winSize := winSize
    fileOpen := true
    fileGood := true
    bufGood := true
    winGood := true
    bufSize := 400
    recvPacket := ⟨first, first.length⟩ }

theorem startsData_ready {winSize : ℕ} {first : Datagram} (hpositive : 1 ≤ winSize)
    (hslots : winSize ≤ 255) (hlower : 12 ≤ first.length)
    (hupper : first.length ≤ maxPacketLen) (hnumber : fieldOf first < packetLimit) :
    StartsData winSize (ready winSize first) first where
  state := rfl
  winSize := rfl
  positive := hpositive
  slots := hslots
  packet := rfl
  lower := hlower
  upper := hupper
  number := hnumber
  writes := rfl
  quiet := rfl

/-- Packets 3 and 2 of a three-packet file, after packet 1, in a ring of two slots. -/
theorem ring_refines_receiver_reordered :
    Simulates 2
      (Runs.run feed (begun (ready 2 (numberedDatagram [65] .data 1 1)))
        [(.rcopy, numberedDatagram [67] .data 3 3), (.rcopy, numberedDatagram [66] .data 2 2)])
      (Receiver.start.acceptAll (items (numberedDatagram [65] .data 1 1)
        [(.rcopy, numberedDatagram [67] .data 3 3),
          (.rcopy, numberedDatagram [66] .data 2 2)])) := by
  apply ring_refines_receiver
  · apply startsData_ready <;> decide
  · intro arrival harrival
    simp only [List.mem_cons, List.not_mem_nil, or_false] at harrival
    rcases harrival with rfl | rfl <;> apply feedable_numberedDatagram <;> decide

end SlidingWindow.DataPhase

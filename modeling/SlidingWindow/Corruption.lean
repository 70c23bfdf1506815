import SlidingWindow.Session
import SlidingWindow.ClientTurns
import SlidingWindow.ServerTurns

/-! What a datagram that fails the checksum changes. Every receiver of both programs
has chosen the state it goes on with before it calls `recv_buf`, and `recvfrom` has
stored the sender before the checksum is tested. -/
namespace SlidingWindow.Corruption

open Library

def Corrupted (datagram : Datagram) : Prop := inCksum (datagram.take maxPacketLen) ≠ 0

instance : DecidablePred Corrupted := fun _ => inferInstanceAs (Decidable (_ ≠ _))

section Client

variable {c before : Client} {input : Input} {src : Peer} {datagram : Datagram}

/-- The client that polls its socket in this turn, in the setup and in the transfer. -/
def polling? (c : Client) : Option Client :=
  if c.state = .waitForSetupAcks then some c else c.listening?

/-- Where a wait goes on when nothing is read: between two polls an open window sends. -/
def goesOn : ClientState → ClientState
  | .receiveDataWindowOpen => .sendData
  | state => state

/-- A corrupted datagram that is read resets the timeout counter and does nothing else. -/
def ClientUnmoved (c : Client) (input : Input) : Prop :=
  ∀ src datagram before, input = .datagram src datagram → Corrupted datagram →
    polling? c = some before →
      c.step input = { before with timeout := 0, state := goesOn c.state }

/-- A corrupted datagram is read only from the peer, and not in the EOF phase. -/
def ClientUndisturbed (c : Client) (input : Input) : Prop :=
  ∀ src datagram before, input = .datagram src datagram → Corrupted datagram →
    polling? c = some before → src = c.server ∧ c.state ≠ .sendEofAndQuit

theorem step_waiting (hwait : c.state = .waitForSetupAcks) (hcorrupt : Corrupted datagram) :
    c.step (.datagram src datagram) = { c with timeout := 0, server := src } := by
  apply Client.step_of_ok
  simp only [Client.enterStateMachine, hwait, Client.waitForSetupAcks,
    World.recvBuf_corrupted hcorrupt]

theorem heard_state (hgauged : c.Gauged)
    (hstate : c.state = .receiveDataWindowOpen ∨ c.state = .receiveDataWindowClosed) :
    (c.heard src).state = goesOn c.state := by
  rcases hstate with hopen | hclosed
  · simp [Client.heard, hopen, goesOn, hgauged.1 hopen]
  · simp [Client.heard, hclosed, goesOn, hgauged.2 hclosed]

theorem heard_state_sentEof (heof : c.state = .sendEofAndQuit) :
    (c.sentEof.heard src).state ≠ goesOn c.state := by
  simp only [Client.heard, heof, goesOn]
  split <;> simp

theorem clientUnmoved_iff (hgauged : c.Gauged) (input : Input) :
    ClientUnmoved c input ↔ ClientUndisturbed c input := by
  constructor <;> intro h src datagram before hinput hcorrupt hpolling
  · have hsame := h src datagram before hinput hcorrupt hpolling
    subst hinput
    by_cases hwait : c.state = .waitForSetupAcks
    · obtain rfl : c = before := by simpa [polling?, hwait] using hpolling
      rw [step_waiting hwait hcorrupt] at hsame
      exact ⟨congrArg Client.server hsame, by simp [hwait]⟩
    · have hlistens : c.listening? = some before := by simpa [polling?, hwait] using hpolling
      rw [Client.step_corrupted hlistens (World.recvBuf_corrupted hcorrupt)] at hsame
      rcases Client.listening?_eq_some hlistens with ⟨rfl, hstate⟩ | ⟨rfl, heof⟩
      · refine ⟨congrArg Client.server hsame, ?_⟩
        rcases hstate with hstate | hstate <;> simp [hstate]
      · exact absurd (congrArg Client.state hsame) (heard_state_sentEof heof)
  · obtain ⟨hpeer, hnotEof⟩ := h src datagram before hinput hcorrupt hpolling
    subst hinput
    by_cases hwait : c.state = .waitForSetupAcks
    · obtain rfl : c = before := by simpa [polling?, hwait] using hpolling
      rw [step_waiting hwait hcorrupt, hpeer, hwait]
      rfl
    · have hlistens : c.listening? = some before := by simpa [polling?, hwait] using hpolling
      rw [Client.step_corrupted hlistens (World.recvBuf_corrupted hcorrupt)]
      rcases Client.listening?_eq_some hlistens with ⟨rfl, hstate⟩ | ⟨rfl, heof⟩
      · rw [← @heard_state before src hgauged hstate, hpeer]
        rfl
      · exact absurd heof hnotEof

end Client

section Server

variable {s : Server} {src : Peer} {datagram : Datagram}

/-- Besides the timeout counter only the packet buffer changes. -/
def ServerUnmoved (s : Server) (input : Input) : Prop :=
  ∀ src datagram, input = .datagram src datagram → Corrupted datagram → s.waits →
    s.step input = { s with timeout := 0, recvPacket.buf := [] }

def ServerUndisturbed (s : Server) (input : Input) : Prop :=
  ∀ src datagram, input = .datagram src datagram → Corrupted datagram → s.waits →
    src = s.client

theorem step_waits (hwaits : s.waits) (hcorrupt : Corrupted datagram) :
    s.step (.datagram src datagram) =
      { s with timeout := 0, client := src, recvPacket.buf := [] } := by
  have hrecv := World.recvBuf_corrupted hcorrupt
  rcases hwaits with hsetup | hdata
  · apply Server.step_of_ok
    simp only [Server.processClient, hsetup, Server.readyForNextSetupPacket, hrecv]
  · apply Server.step_of_ok
    simp only [Server.processClient, hdata, Server.readyForNextDataPacket, hrecv]

theorem serverUnmoved_iff (s : Server) (input : Input) :
    ServerUnmoved s input ↔ ServerUndisturbed s input := by
  constructor <;> intro h src datagram hinput hcorrupt hwaits
  · have hsame := h src datagram hinput hcorrupt hwaits
    subst hinput
    rw [step_waits hwaits hcorrupt] at hsame
    exact congrArg Server.client hsame
  · have hpeer := h src datagram hinput hcorrupt hwaits
    subst hinput
    rw [step_waits hwaits hcorrupt, hpeer]

end Server

/-- Along every run of the client, and of a child, a corrupted datagram is ignored, exactly
when each one that is read comes from the peer the endpoint is talking to, and the client
reads none in its EOF phase. -/
theorem corruption_ignored_iff (localFile : List Bytes) (name : Bytes) (bufSize winSize : Nat)
    (client : Peer) (packet : Bytes) (inputs : List Input) :
    (Runs.Along Client.step ClientUnmoved (Client.started localFile name bufSize winSize)
        inputs ↔
      Runs.Along Client.step ClientUndisturbed
        (Client.started localFile name bufSize winSize) inputs) ∧
    (Runs.Along Server.step ServerUnmoved (Server.forked client packet) inputs ↔
      Runs.Along Server.step ServerUndisturbed (Server.forked client packet) inputs) := by
  constructor
  · exact Runs.along_iff_of_invariant Client.Gauged (fun c input _ _ => c.step_gauged input)
      (fun c input h => clientUnmoved_iff h input) (by simp [Client.Gauged, Client.started])
      Runs.along_true
  · exact Runs.along_iff_of_invariant (fun _ => True) (fun _ _ _ _ => trivial)
      (fun s input _ => serverUnmoved_iff s input) trivial Runs.along_true

def acknowledgedUpload : List Input :=
  [.silent, .silent, .datagram (.child 0) (plainDatagram [] .ackFileName 1),
    .silent, .datagram (.child 0) (plainDatagram [] .ackBufferSize 2),
    .silent, .datagram (.child 0) (plainDatagram [] .ackWindowSize 3),
    .silent, .silent, .datagram (.child 0) (numberedDatagram [] .rr 4 2),
    .silent, .datagram (.child 0) (numberedDatagram [] .rr 5 2)]

/-- An `ACK_EOF` whose type was changed on its way. -/
def garbledAnswer : Datagram := (plainDatagram [] .ackEof 6).set 6 0

/-- The client leaves its EOF phase for the garbled answer of its own peer, and a child
takes a stranger's garbled answer for its client's. -/
theorem garbled_answer_disturbs :
    ¬ Runs.Along Client.step ClientUnmoved (Client.started [[65]] [102] 400 1)
        (acknowledgedUpload ++ [.datagram (.child 0) garbledAnswer]) ∧
      ¬ Runs.Along Server.step ServerUnmoved
        (Server.forked .rcopy (plainDatagram (htonl 1 ++ [102]) .fileName 1))
        ([.silent, .silent, .silent] ++ [.datagram (.child 1) garbledAnswer]) := by
  constructor
  · intro h
    have hsame := (Runs.along_append.mp h).2.1 (.child 0) garbledAnswer
      (Runs.run Client.step (Client.started [[65]] [102] 400 1) acknowledgedUpload).sentEof
      rfl (by decide +kernel) (by decide +kernel)
    have hstate := congrArg Client.state hsame
    revert hstate
    decide +kernel
  · intro h
    have hsame := (Runs.along_append.mp h).2.1 (.child 1) garbledAnswer rfl
      (by decide +kernel) (.inl (by decide +kernel))
    have hclient := congrArg Server.client hsame
    revert hclient
    decide +kernel

end SlidingWindow.Corruption

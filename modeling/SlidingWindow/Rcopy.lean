import SlidingWindow.Process

/-! The client, function by function: `enter_state_machine` and the states it runs
through. The globals of `rcopy.c`, the static flags of `wait_for_setup_acks` and
the local `SREJ_num` of the state machine are the fields of `Client`. The local
file is the list of buffers its successive `read` calls return, none of them
empty; after the last one `read` returns 0. -/
namespace SlidingWindow

inductive ClientState where
  | start
  | sendRemoteFileName
  | waitForSetupAcks
  | sendBufferSize
  | sendWindowSize
  | readyToSendDataSetup
  | sendData
  | sendDataSREJ
  | receiveDataWindowOpen
  | receiveDataWindowClosed
  | timeoutOnSetupServer
  | timeoutOnServer
  | sendEofAndQuit
  | done
  /-- Not a state of the source: the process stopped with a fault or by `exit`. -/
  | exited
  deriving DecidableEq

structure Client where
  state : ClientState
  curPacketNum : Nat
  winMin : Nat
  winCur : Nat
  winMax : Nat
  winSize : Nat
  seqNum : Nat
  doneTransmitting : Bool
  /-- What the `read` calls still to come return. -/
  localFile : List Bytes
  bufSize : Nat
  timeout : Nat
  window : List BufferChunk
  numSREJ : Nat
  fileSuccess : Bool
  bufSuccess : Bool
  winSuccess : Bool
  remoteFileName : Bytes
  /-- `server->remote`. -/
  server : Peer
  trace : Trace
  deriving DecidableEq

namespace Client

def started (localFile : List Bytes) (remoteFileName : Bytes) (bufSize winSize : Nat) :
    Client where
  state := .start
  curPacketNum := 0
  winMin := 0
  winCur := 0
  winMax := 0
  winSize := winSize
  seqNum := startSeqNum
  doneTransmitting := false
  localFile := localFile
  bufSize := bufSize
  timeout := 0
  window := []
  numSREJ := 0
  fileSuccess := false
  bufSuccess := false
  winSuccess := false
  remoteFileName := remoteFileName
  server := .main
  trace := []

def send (c : Client) (datagram : Datagram) : Client :=
  { c with trace := c.trace ++ [.sent c.server datagram] }

def isWindowClosed (c : Client) : Bool := c.doneTransmitting ∨ c.winMax ≤ c.winCur

/-- `send_buf(dataBuf, .., server, flag, seq_num++, sendPacket)`. -/
def sendSetup (c : Client) (flag : Flag) (data : Bytes) : Client :=
  { c.send (plainDatagram data flag c.seqNum) with
    seqNum := u32 (c.seqNum + 1)
    state := .waitForSetupAcks }

def sendRemoteFileName (c : Client) : Client :=
  c.sendSetup .fileName (htonl c.remoteFileName.length ++ c.remoteFileName)

def sendBufferSize (c : Client) : Client := c.sendSetup .bufferSize (htonl c.bufSize)

def sendWindowSize (c : Client) : Client := c.sendSetup .windowSize (htonl c.winSize)

def waitForSetupAcks (c : Client) : Input → Except Fault Client
  | .datagram src datagram =>
      -- `recvfrom` stores the sender before the checksum is tested
      let c := { c with timeout := 0, server := src }
      match recvBuf datagram with
      | .error fault => .error fault
      | .ok none => .ok c
      | .ok (some received) =>
          match received.flag with
          | some .ackFileName => .ok { c with fileSuccess := true, state := .sendBufferSize }
          | some .rejFileName => .ok { c with state := .sendRemoteFileName }
          | some .rejFileNameNoOpen => .ok { c with state := .done }
          | some .ackBufferSize => .ok { c with bufSuccess := true, state := .sendWindowSize }
          | some .rejBufferSize => .ok { c with state := .sendBufferSize }
          | some .ackWindowSize =>
              .ok { c with winSuccess := true, state := .readyToSendDataSetup }
          | some .rejWindowSize => .ok { c with state := .sendWindowSize }
          | _ => .ok c
  | _ =>
      let c := { c with timeout := u32 (c.timeout + 1) }
      if 10 < c.timeout then .ok { c with state := .timeoutOnSetupServer }
      else if ¬ c.fileSuccess then .ok { c with state := .sendRemoteFileName }
      else if ¬ c.bufSuccess then .ok { c with state := .sendBufferSize }
      else .ok { c with state := .sendWindowSize }

def readyToSendDataSetup (c : Client) : Client :=
  { c with
    window := List.replicate c.winSize ⟨[], 0⟩
    curPacketNum := 1
    winMin := 0
    winCur := 0
    winMax := c.winSize
    timeout := 0
    state := .sendData }

def slotIndex (c : Client) (index : Nat) : Except Fault Nat :=
  if c.winSize = 0 then .error .divideByZero
  else if c.window.length ≤ index % c.winSize then .error .memoryOverrun
  else .ok (index % c.winSize)

/-- The state after a send: `isWindowClosed` is also true once the file has ended. -/
def afterSend (c : Client) : ClientState :=
  if c.isWindowClosed then .receiveDataWindowClosed else .receiveDataWindowOpen

/-- What `send_buf_with_packet_num` leaves in `sendPacket`, and what it returns. -/
def nextPacket (c : Client) (chunk : Bytes) : BufferChunk :=
  ⟨sendBufWithPacketNum chunk .data c.seqNum [] c.curPacketNum, chunk.length + 8 + 4⟩

def sendPacket (c : Client) (packet : BufferChunk) : Client :=
  c.send (sendtoErr packet.buf packet.len)

def keepPacket (c : Client) (packet : BufferChunk) : Except Fault Client := do
  let slot ← c.slotIndex c.winCur
  let c :=
    { c with
      seqNum := u32 (c.seqNum + 1)
      winCur := u32 (c.winCur + 1)
      curPacketNum := u32 (c.curPacketNum + 1)
      window := c.window.set slot packet }
  return { c with state := c.afterSend }

/-- The slot is computed after the send. -/
def sendChunk (c : Client) (chunk : Bytes) : Except Fault Client :=
  (c.sendPacket (c.nextPacket chunk)).keepPacket (c.nextPacket chunk)

def sendData (c : Client) (input : Input) : Except Fault Client :=
  match input, c.localFile with
  | .failure, _ => .ok { c with state := .done }
  | _, [] => .ok { c with doneTransmitting := true, state := .receiveDataWindowClosed }
  | _, chunk :: rest => { c with localFile := rest }.sendChunk chunk

/-- Resend the packet in the slot of `index`. `sendtoErr` answers a length of
zero with `exit(1)`. -/
def sendDataFromWindow (c : Client) (index : Nat) : Except Fault Client := do
  let slot ← c.slotIndex index
  let chunk := c.window.getD slot ⟨[], 0⟩
  if chunk.len = 0 then .error .emptySend
  else
    let c := c.send (sendtoErr chunk.buf chunk.len)
    return { c with state := c.afterSend }

/-- Returns the client and what it leaves in `*SREJ_num`. Any flag other than the
three expected ones ends the client. -/
def processIncomingData (c : Client) (src : Peer) (datagram : Datagram) (numSREJ : Nat) :
    Except Fault (Client × Nat) :=
  let c :=
    { c with
      server := src
      state := if c.isWindowClosed then .receiveDataWindowClosed else .sendData }
  match recvBuf datagram with
  | .error fault => .error fault
  | .ok none => .ok (c, numSREJ)
  | .ok (some received) =>
      let c := { c with seqNum := received.seqNum }
      let packetNum := fieldOf received.packet
      match received.flag with
      | some .rr =>
          let c :=
            { c with
              winMin := sub32 packetNum 1
              winMax := sub32 (u32 (packetNum + c.winSize)) 1 }
          if c.doneTransmitting ∧ packetNum = c.curPacketNum then
            .ok ({ c with state := .sendEofAndQuit }, numSREJ)
          else .ok ({ c with state := .sendData }, numSREJ)
      | some .srej => .ok ({ c with state := .sendDataSREJ }, packetNum)
      | some .ackEof => .ok ({ c with state := .done }, numSREJ)
      | _ => .ok ({ c with state := .done }, numSREJ)

/-- The two window states pass the `SREJ_num` of the state machine on. -/
def receiveData (c : Client) (src : Peer) (datagram : Datagram) :
    Except Fault Client := do
  let (c, numSREJ) ←
    { c with timeout := 0 }.processIncomingData src datagram c.numSREJ
  return { c with numSREJ := numSREJ }

def receiveDataWindowClosed (c : Client) : Input → Except Fault Client
  | .datagram src datagram => c.receiveData src datagram
  | _ =>
      let c := { c with timeout := u32 (c.timeout + 1) }
      if 10 < c.timeout then .ok { c with state := .timeoutOnServer }
      else c.sendDataFromWindow c.winMin

def receiveDataWindowOpen (c : Client) : Input → Except Fault Client
  | .datagram src datagram => c.receiveData src datagram
  | _ =>
      if c.winCur < c.winMax then .ok { c with state := .sendData }
      else .ok { c with state := .receiveDataWindowClosed }

def sentEof (c : Client) : Client :=
  { c.send (plainDatagram [] .endOfFile c.seqNum) with seqNum := u32 (c.seqNum + 1) }

/-- `SREJ_num` is a local of this function here, so a number read in this state
is lost. -/
def sendEofAndQuit (c : Client) (input : Input) : Except Fault Client :=
  let c := c.sentEof
  match input with
  | .datagram src datagram =>
      do
        let (c, _) ← { c with timeout := 0 }.processIncomingData src datagram 0
        return c
  | _ =>
      let c := { c with timeout := u32 (c.timeout + 1) }
      if 10 < c.timeout then .ok { c with state := .timeoutOnServer }
      else .ok { c with state := .sendEofAndQuit }

def timeoutOnSetupServer (c : Client) : Client := { c with state := .done }

def timeoutOnServer (c : Client) : Client := { c with state := .done }

def enterStateMachine (c : Client) (input : Input) : Except Fault Client :=
  match c.state with
  | .start => .ok { c with state := .sendRemoteFileName }
  | .waitForSetupAcks => c.waitForSetupAcks input
  | .sendRemoteFileName => .ok c.sendRemoteFileName
  | .sendBufferSize => .ok c.sendBufferSize
  | .sendWindowSize => .ok c.sendWindowSize
  | .readyToSendDataSetup => .ok c.readyToSendDataSetup
  | .sendData => c.sendData input
  | .sendDataSREJ => c.sendDataFromWindow (sub32 c.numSREJ 1)
  | .receiveDataWindowOpen => c.receiveDataWindowOpen input
  | .receiveDataWindowClosed => c.receiveDataWindowClosed input
  | .timeoutOnSetupServer => .ok c.timeoutOnSetupServer
  | .timeoutOnServer => .ok c.timeoutOnServer
  | .sendEofAndQuit => c.sendEofAndQuit input
  | .done => .ok c
  | .exited => .ok c

/-- What a turn that stops with a fault has sent before. -/
def beforeFault (c : Client) : Client :=
  match c.state, c.localFile with
  | .sendData, chunk :: rest =>
      { c with localFile := rest }.sendPacket (c.nextPacket chunk)
  | .sendEofAndQuit, _ => c.sentEof
  | _, _ => c

def step (c : Client) (input : Input) : Client :=
  match c.enterStateMachine input with
  | .ok c => c
  | .error _ => { c.beforeFault with state := .exited }

end Client

end SlidingWindow

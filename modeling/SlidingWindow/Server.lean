import SlidingWindow.Process

/-! The server child, function by function: `process_client` and the states it
runs through. The globals of `server.c` are the fields of `Server`. All window
counters are `uint32_t`; a signed packet number is converted before it is compared
with them, so packet numbers are kept in their unsigned form. -/
namespace SlidingWindow

inductive ServerState where
  | start
  | setupClientSocket
  | readyForNextSetupPacket
  | receivedRemoteFileName
  | receivedBufferSize
  | receivedWindowSize
  | readyForDataPacketsSetup
  | readyForNextDataPacket
  | receivedData
  | receivedEof
  | timeoutOnClientSetup
  | timeoutOnClient
  | done
  /-- Not states of the source: the process stopped with a fault, or never leaves its
  last turn. -/
  | exited
  | hung
  deriving DecidableEq

structure Server where
  state : ServerState
  curRRnum : Nat
  winMin : Nat
  winCur : Nat
  winMax : Nat
  winSize : Nat
  hasSREJ : Bool
  numSREJ : Nat
  seqNum : Nat
  fileName : Bytes
  /-- `fileFD` is not negative. -/
  fileOpen : Bool
  timeout : Nat
  fileGood : Bool
  bufGood : Bool
  winGood : Bool
  bufSize : Nat
  window : List BufferChunk
  recvPacket : BufferChunk
  /-- `client->remote`. -/
  client : Peer
  trace : Trace
  deriving DecidableEq

namespace Server

/-- The globals as `main` leaves them when it forks for the datagram `packet`. -/
def forked (client : Peer) (packet : Bytes) : Server where
  state := .start
  curRRnum := 0
  winMin := 0
  winCur := 0
  winMax := 0
  winSize := 0
  hasSREJ := false
  numSREJ := 0
  seqNum := startSeqNum
  fileName := []
  fileOpen := false
  timeout := 0
  fileGood := false
  bufGood := false
  winGood := false
  bufSize := 0
  window := []
  recvPacket := ⟨packet, 0⟩
  client := client
  trace := []

/-- The loop of `main`: a datagram that passes the checksum makes it fork. So would one
that is shorter than a header, but no process sends such a datagram. -/
def forkedFor : Input → Option Server
  | .datagram src datagram =>
      match recvBuf datagram with
      | .ok (some received) => some (forked src received.packet)
      | _ => none
  | _ => none

theorem forkedFor_of_accepted {src : Peer} {datagram : Datagram} {received : Received}
    (h : recvBuf datagram = .ok (some received)) :
    forkedFor (.datagram src datagram) = some (forked src received.packet) := by
  simp only [forkedFor, h]

def log (s : Server) (event : Event) : Server := { s with trace := s.trace ++ [event] }

/-- `send_buf_with_packet_num(response, 0, client, flag, seq_num++, .., cur_RRnum)`. The
rest of `sendPacket` is zero: it is cleared before every setup answer and by
`ready_for_data_packet_setup`, and no answer carries data. -/
def sendResponse (s : Server) (flag : Flag) : Server :=
  { s.log (.sent s.client (numberedDatagram [] flag s.seqNum s.curRRnum)) with
    seqNum := u32 (s.seqNum + 1) }

def sendSREJ (s : Server) : Server :=
  { s.sendResponse .srej with hasSREJ := true, numSREJ := s.curRRnum }

def slotIndex (s : Server) (pos : Nat) : Except Fault Nat :=
  if s.winSize = 0 then .error .divideByZero
  else if s.window.length ≤ pos % s.winSize then .error .memoryOverrun
  else .ok (pos % s.winSize)

def arePacketsBuffered (s : Server) : Bool :=
  (s.window.take s.winSize).any fun chunk => chunk.len ≠ unusedLen

/-- Copy the data part of a packet out of its buffer. The length is computed in
`uint32_t`, and a packet shorter than 12 bytes makes it wrap. -/
def fileData (chunk : BufferChunk) : Except Fault Bytes :=
  let dataLen := sub32 chunk.len (headerLen + 4 + 1)
  if maxPacketLen < headerLen + 4 + dataLen then .error .memoryOverrun
  else .ok (load chunk.buf (headerLen + 4) dataLen)

/-- Extract the data of `chunk` and append it to the file. A failed `write` is
only reported on the terminal. -/
def writeData (s : Server) (chunk : BufferChunk) : Except Fault Server := do
  let data ← fileData chunk
  return s.log (.wrote data)

/-- `cur_RRnum++; win_min++; win_max++; win_cur++`. -/
def advance (s : Server) : Server :=
  { s with
    curRRnum := u32 (s.curRRnum + 1)
    winMin := u32 (s.winMin + 1)
    winMax := u32 (s.winMax + 1)
    winCur := u32 (s.winCur + 1) }

def free (s : Server) (index : Nat) (chunk : BufferChunk) : Server :=
  { s with window := s.window.set index { chunk with len := unusedLen } }

/-- The loop of `check_for_and_write_buffered_packets` from position `pos`. -/
def flushFrom : Nat → Server → Nat → Except Fault (Server × Nat)
  | 0, _, _ => .error .diverges
  | fuel + 1, s, pos => do
      let index ← s.slotIndex pos
      let chunk := s.window.getD index ⟨[], unusedLen⟩
      if chunk.len = unusedLen then
        return (s, u32 (pos + 1))
      else
        let s ← s.writeData chunk
        flushFrom fuel (s.free index chunk).advance (u32 (pos + 1))

/-- Each iteration frees a slot, so `win_size + 1` tests are enough for any ring. -/
def checkForAndWriteBufferedPackets (s : Server) (curRR : Nat) :
    Except Fault (Server × Nat) :=
  flushFrom (s.winSize + 1) s (sub32 curRR 1)

def sendRRorSREJ (s : Server) (nextPacketNum : Nat) : Server :=
  if s.curRRnum = nextPacketNum ∧ ¬ s.arePacketsBuffered then s.sendResponse .rr
  else if nextPacketNum < s.curRRnum ∧ ¬ s.hasSREJ then s.sendSREJ
  else s

def handleClientRecovery (s : Server) : Server :=
  if ¬ s.arePacketsBuffered then s.sendResponse .rr else s.sendResponse .srej

/-- From `cur_RRnum++` on, the two functions below are the same. -/
def deliverAndFlush (s : Server) : Except Fault Server := do
  let s := s.advance
  let (s, nextPacketNum) ← s.checkForAndWriteBufferedPackets s.curRRnum
  return s.sendRRorSREJ nextPacketNum

def handleExpectedSREJpacket (s : Server) : Except Fault Server := do
  let s ← s.writeData s.recvPacket
  { s with hasSREJ := false }.deliverAndFlush

def handleExpectedPacketNumber (s : Server) : Except Fault Server := do
  let s ← s.writeData s.recvPacket
  s.deliverAndFlush

/-- Packet `n` has index `n - 1`; `win_min` and `win_max` are indexes. -/
def isInWindow (s : Server) (recvPackNum : Nat) : Bool :=
  let recvPackNumIndex := sub32 recvPackNum 1
  s.winMin ≤ recvPackNumIndex ∧ recvPackNumIndex < s.winMax

def storePacket (s : Server) (recvPackNum : Nat) : Except Fault Server := do
  let index ← s.slotIndex (sub32 recvPackNum 1)
  return { s with window := s.window.set index s.recvPacket }

def sendSREJonce (s : Server) : Server := if ¬ s.hasSREJ then s.sendSREJ else s

def bufferPacket (s : Server) (recvPackNum : Nat) : Except Fault Server := do
  if s.isInWindow recvPackNum then
    let s ← s.storePacket recvPackNum
    return s.sendSREJonce
  else return s.sendSREJonce

def receivedData (s : Server) : Except Fault Server :=
  let recvPackNum := fieldOf s.recvPacket.buf
  let s := { s with state := .readyForNextDataPacket }
  if s.hasSREJ ∧ recvPackNum = s.numSREJ then s.handleExpectedSREJpacket
  else if recvPackNum = s.curRRnum then s.handleExpectedPacketNumber
  else if recvPackNum < s.curRRnum then .ok s.handleClientRecovery
  else s.bufferPacket recvPackNum

def readyForNextDataPacket (s : Server) : Input → Except Fault Server
  | .datagram src datagram =>
      -- `recvfrom` stores the sender before the checksum is tested
      let s := { s with timeout := 0, client := src, recvPacket.buf := [] }
      match recvBuf datagram with
      | .error fault => .error fault
      | .ok none => .ok s
      | .ok (some received) =>
          let s := { s with seqNum := received.seqNum, recvPacket.buf := received.packet }
          match received.flag with
          | some .data =>
              .ok { s with recvPacket.len := received.packet.length, state := .receivedData }
          | some .endOfFile => .ok { s with state := .receivedEof }
          | _ => .ok s
  | _ => .ok { s with recvPacket.buf := [], state := .timeoutOnClient }

/-- The loop of `ready_for_data_packet_setup` from slot `i`, a `uint8_t`. -/
def markUnused : Nat → Nat → List BufferChunk → Nat → Except Fault (List BufferChunk)
  | 0, _, _, _ => .error .diverges
  | fuel + 1, winSize, window, i =>
      if i < winSize then
        markUnused fuel winSize
          (window.set i { window.getD i ⟨[], 0⟩ with len := unusedLen }) ((i + 1) % 256)
      else .ok window

def readyForDataPacketSetup (s : Server) : Except Fault Server := do
  let window ←
    markUnused (s.winSize + 1) s.winSize (List.replicate s.winSize ⟨[], 0⟩) 0
  return { s with
    state := .receivedData
    curRRnum := 1
    winMin := 0
    winCur := 0
    winMax := s.winSize
    hasSREJ := false
    numSREJ := 0
    window := window }

/-- `send_buf(response, 0, client, flag, seq_num++, sendPacket)`. -/
def sendAnswer (s : Server) (flag : Flag) : Server :=
  { s.log (.sent s.client (plainDatagram [] flag s.seqNum)) with
    seqNum := u32 (s.seqNum + 1) }

def setupClientSocket (s : Server) : Server := { s with state := .receivedRemoteFileName }

def readyForNextSetupPacket (s : Server) : Input → Except Fault Server
  | .datagram src datagram =>
      let s := { s with timeout := 0, client := src, recvPacket.buf := [] }
      match recvBuf datagram with
      | .error fault => .error fault
      | .ok none => .ok s
      | .ok (some received) =>
          let s := { s with seqNum := received.seqNum, recvPacket.buf := received.packet }
          match received.flag with
          | some .fileName => .ok { s with state := .receivedRemoteFileName }
          | some .bufferSize => .ok { s with state := .receivedBufferSize }
          | some .windowSize => .ok { s with state := .receivedWindowSize }
          | some .data =>
              if s.fileGood ∧ s.bufGood ∧ s.winGood then
                .ok
                  { s with
                    recvPacket.len := received.packet.length
                    state := .readyForDataPacketsSetup }
              else .ok s
          | _ => .ok s
  | _ =>
      let s := { s with timeout := u32 (s.timeout + 1) }
      if 10 < s.timeout then .ok { s with state := .timeoutOnClient } else .ok s

/-- Copy the file name out of the packet; `nameLen` is not checked. -/
def nameOf (packet : Bytes) : Except Fault Bytes :=
  let nameLen := fieldOf packet
  if maxPacketLen < headerLen + 4 + nameLen then .error .memoryOverrun
  else .ok (load packet (headerLen + 4) nameLen)

def openFile (s : Server) : Server :=
  -- `open` reads the name up to its first zero byte
  { s.log (.opened (s.fileName.takeWhile (· ≠ 0))) with fileOpen := true }

def acceptFileName (s : Server) : Server :=
  { s.sendAnswer .ackFileName with fileGood := true, state := .readyForNextSetupPacket }

def rejectFileName (s : Server) : Server :=
  { s.sendAnswer .rejFileNameNoOpen with state := .done }

def receivedRemoteFileName (s : Server) (input : Input) : Except Fault Server := do
  let name ← nameOf s.recvPacket.buf
  let s := { s with fileName := name }
  if s.fileOpen then return s.acceptFileName
  else
    match input with
    | .failure => return s.rejectFileName
    | _ => return s.openFile.acceptFileName

def receivedBufferSize (s : Server) : Server :=
  { s.sendAnswer .ackBufferSize with
    bufSize := fieldOf s.recvPacket.buf
    bufGood := true
    state := .readyForNextSetupPacket }

def receivedWindowSize (s : Server) : Server :=
  { s.sendAnswer .ackWindowSize with
    winSize := fieldOf s.recvPacket.buf
    winGood := true
    state := .readyForNextSetupPacket }

def answerEof (s : Server) : Server := { s.sendAnswer .ackEof with state := .done }

/-- The answer is written into `sendPacket`, which has just been freed. The bytes that
leave are the ones the send sets, unless the allocator aborts the process before. -/
def receivedEof (s : Server) : Input → Except Fault Server
  | .failure => .error .useAfterFree
  | _ => .ok s.answerEof

def timeoutOnClient (s : Server) : Server := { s with state := .done }

def timeoutOnClientSetup (s : Server) : Server := { s with state := .done }

def processClient (s : Server) (input : Input) : Except Fault Server :=
  match s.state with
  | .start => .ok { s with state := .setupClientSocket }
  | .setupClientSocket => .ok s.setupClientSocket
  | .readyForNextSetupPacket => s.readyForNextSetupPacket input
  | .receivedRemoteFileName => s.receivedRemoteFileName input
  | .receivedBufferSize => .ok s.receivedBufferSize
  | .receivedWindowSize => .ok s.receivedWindowSize
  | .readyForDataPacketsSetup => s.readyForDataPacketSetup
  | .readyForNextDataPacket => s.readyForNextDataPacket input
  | .receivedData => s.receivedData
  | .receivedEof => s.receivedEof input
  | .timeoutOnClientSetup => .ok s.timeoutOnClientSetup
  | .timeoutOnClient => .ok s.timeoutOnClient
  | .done => .ok s
  | .exited => .ok s
  | .hung => .ok s

/-- A process whose turn never ends goes on running. -/
def faultState : Fault → ServerState
  | .diverges => .hung
  | _ => .exited

def step (s : Server) (input : Input) : Server :=
  match s.processClient input with
  | .ok s => s
  | .error fault => { s with state := faultState fault }

end Server

end SlidingWindow

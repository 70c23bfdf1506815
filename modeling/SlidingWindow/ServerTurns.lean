import SlidingWindow.Server

/-! Everything one turn of the server child can do. -/
namespace SlidingWindow.Server

/-- The setup state that a packet with this flag leads to. The first data packet is
accepted once the three setup packets have been. -/
def setupState (s : Server) : Option Flag → ServerState
  | some .fileName => .receivedRemoteFileName
  | some .bufferSize => .receivedBufferSize
  | some .windowSize => .receivedWindowSize
  | some .data =>
      if s.fileGood ∧ s.bufGood ∧ s.winGood then .readyForDataPacketsSetup
      else .readyForNextSetupPacket
  | _ => .readyForNextSetupPacket

def dataState : Option Flag → ServerState
  | some .data => .receivedData
  | some .endOfFile => .receivedEof
  | _ => .readyForNextDataPacket

/-- The server after `recv_buf` accepted a packet; only a data packet that it goes
on to process has its length stored. -/
def read (s : Server) (src : Peer) (received : Received) (state : ServerState) : Server :=
  { s with
    timeout := 0
    client := src
    seqNum := received.seqNum
    recvPacket :=
      ⟨received.packet,
        if state = .readyForDataPacketsSetup ∨ state = .receivedData then
          received.packet.length
        else s.recvPacket.len⟩
    state := state }

def waits (s : Server) : Prop :=
  s.state = .readyForNextSetupPacket ∨ s.state = .readyForNextDataPacket

inductive Turn (s : Server) : Input → Server → Prop
  | halted {input : Input}
      (state : s.state = .done ∨ s.state = .exited ∨ s.state = .hung) : Turn s input s
  | gaveUp {input : Input}
      (state : s.state = .timeoutOnClient ∨ s.state = .timeoutOnClientSetup) :
      Turn s input { s with state := .done }
  | started {input : Input} (state : s.state = .start) :
      Turn s input { s with state := .setupClientSocket }
  | socketMade {input : Input} (state : s.state = .setupClientSocket) :
      Turn s input { s with state := .receivedRemoteFileName }
  | badName {input : Input} {fault : Fault} (state : s.state = .receivedRemoteFileName)
      (overrun : nameOf s.recvPacket.buf = .error fault) :
      Turn s input { s with state := .exited }
  | keptOpen {input : Input} {name : Bytes} (state : s.state = .receivedRemoteFileName)
      (copied : nameOf s.recvPacket.buf = .ok name) (isOpen : s.fileOpen = true) :
      Turn s input { s with fileName := name }.acceptFileName
  | refused {name : Bytes} (state : s.state = .receivedRemoteFileName)
      (copied : nameOf s.recvPacket.buf = .ok name) (notOpen : s.fileOpen = false) :
      Turn s .failure { s with fileName := name }.rejectFileName
  | opened {input : Input} {name : Bytes} (state : s.state = .receivedRemoteFileName)
      (copied : nameOf s.recvPacket.buf = .ok name) (notOpen : s.fileOpen = false) :
      Turn s input { s with fileName := name }.openFile.acceptFileName
  | bufferSize {input : Input} (state : s.state = .receivedBufferSize) :
      Turn s input s.receivedBufferSize
  | windowSize {input : Input} (state : s.state = .receivedWindowSize) :
      Turn s input s.receivedWindowSize
  | allocated {input : Input} {s' : Server} (state : s.state = .readyForDataPacketsSetup)
      (allocates : s.readyForDataPacketSetup = .ok s') : Turn s input s'
  | diverged {input : Input} (state : s.state = .readyForDataPacketsSetup)
      (loops : s.readyForDataPacketSetup = .error .diverges) :
      Turn s input { s with state := .hung }
  | delivered {input : Input} {s' : Server} (state : s.state = .receivedData)
      (delivers : s.receivedData = .ok s') : Turn s input s'
  | undelivered {input : Input} {fault : Fault} (state : s.state = .receivedData)
      (faults : s.receivedData = .error fault) (stops : fault ≠ .diverges) :
      Turn s input { s with state := .exited }
  | stuck {input : Input} (state : s.state = .receivedData)
      (loops : s.receivedData = .error .diverges) : Turn s input { s with state := .hung }
  | ended {input : Input} (state : s.state = .receivedEof) (survives : input ≠ .failure) :
      Turn s input s.answerEof
  | aborted (state : s.state = .receivedEof) : Turn s .failure { s with state := .exited }
  | setupUnanswered {input : Input} (state : s.state = .readyForNextSetupPacket)
      (quiet : ∀ src datagram, input ≠ .datagram src datagram) :
      Turn s input
        { s with
          timeout := u32 (s.timeout + 1)
          state :=
            if 10 < u32 (s.timeout + 1) then .timeoutOnClient else .readyForNextSetupPacket }
  | dataUnanswered {input : Input} (state : s.state = .readyForNextDataPacket)
      (quiet : ∀ src datagram, input ≠ .datagram src datagram) :
      Turn s input { s with recvPacket.buf := [], state := .timeoutOnClient }
  | crashed {src : Peer} {datagram : Datagram} {fault : Fault} (state : s.waits)
      (runt : recvBuf datagram = .error fault) :
      Turn s (.datagram src datagram) { s with state := .exited }
  | corrupted {src : Peer} {datagram : Datagram} (state : s.waits)
      (crcError : recvBuf datagram = .ok none) :
      Turn s (.datagram src datagram)
        { s with timeout := 0, client := src, recvPacket.buf := [] }
  | setupRead {src : Peer} {datagram : Datagram} {received : Received}
      (state : s.state = .readyForNextSetupPacket)
      (accepted : recvBuf datagram = .ok (some received)) :
      Turn s (.datagram src datagram) (s.read src received (s.setupState received.flag))
  | dataRead {src : Peer} {datagram : Datagram} {received : Received}
      (state : s.state = .readyForNextDataPacket)
      (accepted : recvBuf datagram = .ok (some received)) :
      Turn s (.datagram src datagram) (s.read src received (dataState received.flag))

def delivering (s : Server) (data : Bytes) (hasSREJ : Bool) : Server :=
  { s.log (.wrote data) with state := .readyForNextDataPacket, hasSREJ := hasSREJ }.advance

/-- What `received_data` does with a packet: it writes the packet and what that releases
from the ring, it answers a packet that it has, or it may store the packet in its slot. -/
inductive DataTurn (s : Server) : Server → Prop
  | delivered {flushed : Server} {data : Bytes} {hasSREJ : Bool} {next : Nat}
      (due : s.hasSREJ = true ∧ fieldOf s.recvPacket.buf = s.numSREJ ∨
        fieldOf s.recvPacket.buf = s.curRRnum)
      (copied : fileData s.recvPacket = .ok data)
      (flushes : (s.delivering data hasSREJ).flushFrom (s.winSize + 1)
        (sub32 (u32 (s.curRRnum + 1)) 1) = .ok (flushed, next)) :
      DataTurn s (flushed.sendRRorSREJ next)
  | repeated {flag : Flag} (old : fieldOf s.recvPacket.buf < s.curRRnum)
      (answer : flag = .rr ∨ flag = .srej) :
      DataTurn s ({ s with state := .readyForNextDataPacket }.sendResponse flag)
  | parked {index : Nat} (early : s.curRRnum < fieldOf s.recvPacket.buf)
      (inWindow : s.isInWindow (fieldOf s.recvPacket.buf) = true)
      (slot : s.slotIndex (sub32 (fieldOf s.recvPacket.buf) 1) = .ok index) :
      DataTurn s { s with
        state := .readyForNextDataPacket
        window := s.window.set index s.recvPacket }.sendSREJonce
  | outside (early : s.curRRnum < fieldOf s.recvPacket.buf) :
      DataTurn s { s with state := .readyForNextDataPacket }.sendSREJonce

section Inversion

variable {s s' : Server} {input : Input} {src : Peer} {datagram : Datagram}

theorem step_of_ok (h : s.processClient input = .ok s') : s.step input = s' := by
  simp only [Server.step, h]

theorem step_of_error {fault : Fault} (h : s.processClient input = .error fault) :
    s.step input = { s with state := faultState fault } := by
  simp only [Server.step, h]

theorem step_of_stop {fault : Fault} (h : s.processClient input = .error fault)
    (hreturns : fault ≠ .diverges) : s.step input = { s with state := .exited } := by
  rw [step_of_error h]
  cases fault <;> first | rfl | exact absurd rfl hreturns

theorem nameOf_fault {packet : Bytes} {fault : Fault} (h : nameOf packet = .error fault) :
    fault = .memoryOverrun := by
  unfold nameOf at h
  dsimp only at h
  split at h
  · cases h
    rfl
  · contradiction

theorem markUnused_fault {fuel winSize i : Nat} {window : List BufferChunk} {fault : Fault}
    (h : markUnused fuel winSize window i = .error fault) : fault = .diverges := by
  induction fuel generalizing window i with
  | zero =>
      cases h
      rfl
  | succ fuel ih =>
      unfold markUnused at h
      split at h
      · exact ih h
      · contradiction

theorem readyForDataPacketSetup_fault {fault : Fault}
    (h : s.readyForDataPacketSetup = .error fault) : fault = .diverges := by
  have hall : ∀ fault, s.readyForDataPacketSetup = .error fault → fault = .diverges := by
    apply fault_of_bind (fun _ => markUnused_fault)
    intro window _ fault h
    contradiction
  exact hall fault h

theorem turn_receivedRemoteFileName (hstate : s.state = .receivedRemoteFileName) :
    Turn s input (s.step input) := by
  have hstep : s.processClient input = s.receivedRemoteFileName input := by
    simp only [processClient, hstate]
  unfold receivedRemoteFileName at hstep
  cases hname : nameOf s.recvPacket.buf with
  | error fault =>
      rw [hname] at hstep
      rw [step_of_stop hstep (by simp [nameOf_fault hname])]
      exact .badName hstate hname
  | ok name =>
      rw [hname] at hstep
      simp only [bind, Except.bind] at hstep
      cases hopen : s.fileOpen with
      | true =>
          rw [if_pos hopen] at hstep
          rw [step_of_ok hstep]
          exact .keptOpen hstate hname hopen
      | false =>
          rw [if_neg (by simp [hopen])] at hstep
          cases input with
          | failure =>
              rw [step_of_ok hstep]
              exact .refused hstate hname hopen
          | silent =>
              rw [step_of_ok hstep]
              exact .opened hstate hname hopen
          | datagram src datagram =>
              rw [step_of_ok hstep]
              exact .opened hstate hname hopen

theorem turn_readyForNextSetupPacket (hstate : s.state = .readyForNextSetupPacket) :
    Turn s (.datagram src datagram) (s.step (.datagram src datagram)) := by
  have hstep : s.processClient (.datagram src datagram) =
      s.readyForNextSetupPacket (.datagram src datagram) := by
    simp only [processClient, hstate]
  unfold readyForNextSetupPacket at hstep
  cases hrecv : recvBuf datagram with
  | error fault =>
      simp only [hrecv] at hstep
      rw [step_of_stop hstep (by simp [recvBuf_fault hrecv])]
      exact .crashed (.inl hstate) hrecv
  | ok outcome =>
      cases outcome with
      | none =>
          simp only [hrecv] at hstep
          rw [step_of_ok hstep]
          exact .corrupted (.inl hstate) hrecv
      | some received =>
          have hread : s.processClient (.datagram src datagram) =
              .ok (s.read src received (s.setupState received.flag)) := by
            rw [hstep]
            simp only [hrecv]
            unfold setupState
            split <;> (try split) <;> simp_all [read]
          rw [step_of_ok hread]
          exact .setupRead hstate hrecv

theorem turn_readyForNextDataPacket (hstate : s.state = .readyForNextDataPacket) :
    Turn s (.datagram src datagram) (s.step (.datagram src datagram)) := by
  have hstep : s.processClient (.datagram src datagram) =
      s.readyForNextDataPacket (.datagram src datagram) := by
    simp only [processClient, hstate]
  unfold readyForNextDataPacket at hstep
  cases hrecv : recvBuf datagram with
  | error fault =>
      simp only [hrecv] at hstep
      rw [step_of_stop hstep (by simp [recvBuf_fault hrecv])]
      exact .crashed (.inr hstate) hrecv
  | ok outcome =>
      cases outcome with
      | none =>
          simp only [hrecv] at hstep
          rw [step_of_ok hstep]
          exact .corrupted (.inr hstate) hrecv
      | some received =>
          have hread : s.processClient (.datagram src datagram) =
              .ok (s.read src received (dataState received.flag)) := by
            rw [hstep]
            simp only [hrecv]
            unfold dataState
            split <;> simp_all [read]
          rw [step_of_ok hread]
          exact .dataRead hstate hrecv

theorem turn_unanswered (hquiet : ∀ src datagram, input ≠ .datagram src datagram)
    (hstate : s.waits) : Turn s input (s.step input) := by
  rcases hstate with hstate | hstate
  · have hstep : s.processClient input = .ok { s with
        timeout := u32 (s.timeout + 1)
        state :=
          if 10 < u32 (s.timeout + 1) then .timeoutOnClient else .readyForNextSetupPacket } := by
      simp only [processClient, hstate]
      unfold readyForNextSetupPacket
      cases input with
      | datagram src datagram => exact absurd rfl (hquiet src datagram)
      | silent => by_cases h : 10 < u32 (s.timeout + 1) <;> simp [h, hstate]
      | failure => by_cases h : 10 < u32 (s.timeout + 1) <;> simp [h, hstate]
    rw [step_of_ok hstep]
    exact .setupUnanswered hstate hquiet
  · have hstep : s.processClient input =
        .ok { s with recvPacket.buf := [], state := .timeoutOnClient } := by
      simp only [processClient, hstate]
      unfold readyForNextDataPacket
      cases input with
      | datagram src datagram => exact absurd rfl (hquiet src datagram)
      | silent => rfl
      | failure => rfl
    rw [step_of_ok hstep]
    exact .dataUnanswered hstate hquiet

theorem turn (s : Server) (input : Input) : Turn s input (s.step input) := by
  cases hstate : s.state with
  | start =>
      rw [step_of_ok (by simp only [processClient, hstate]; rfl)]
      exact .started hstate
  | setupClientSocket =>
      rw [step_of_ok (by simp only [processClient, hstate]; rfl)]
      exact .socketMade hstate
  | readyForNextSetupPacket =>
      rcases input.datagram_or_quiet with ⟨src, datagram, rfl⟩ | hquiet
      · exact turn_readyForNextSetupPacket hstate
      · exact turn_unanswered hquiet (.inl hstate)
  | receivedRemoteFileName => exact turn_receivedRemoteFileName hstate
  | receivedBufferSize =>
      rw [step_of_ok (by simp only [processClient, hstate]; rfl)]
      exact .bufferSize hstate
  | receivedWindowSize =>
      rw [step_of_ok (by simp only [processClient, hstate]; rfl)]
      exact .windowSize hstate
  | readyForDataPacketsSetup =>
      have hstep : s.processClient input = s.readyForDataPacketSetup := by
        simp only [processClient, hstate]
      cases hsetup : s.readyForDataPacketSetup with
      | error fault =>
          obtain rfl := readyForDataPacketSetup_fault hsetup
          rw [step_of_error (hstep.trans hsetup)]
          exact .diverged hstate hsetup
      | ok s' =>
          rw [step_of_ok (hstep.trans hsetup)]
          exact .allocated hstate hsetup
  | readyForNextDataPacket =>
      rcases input.datagram_or_quiet with ⟨src, datagram, rfl⟩ | hquiet
      · exact turn_readyForNextDataPacket hstate
      · exact turn_unanswered hquiet (.inr hstate)
  | receivedData =>
      have hstep : s.processClient input = s.receivedData := by
        simp only [processClient, hstate]
      cases hdata : s.receivedData with
      | error fault =>
          by_cases hloops : fault = .diverges
          · subst hloops
            rw [step_of_error (hstep.trans hdata)]
            exact .stuck hstate hdata
          · rw [step_of_stop (hstep.trans hdata) hloops]
            exact .undelivered hstate hdata hloops
      | ok s' =>
          rw [step_of_ok (hstep.trans hdata)]
          exact .delivered hstate hdata
  | receivedEof =>
      have hstep : s.processClient input = s.receivedEof input := by
        simp only [processClient, hstate]
      cases input with
      | failure =>
          rw [step_of_error hstep]
          exact .aborted hstate
      | silent =>
          rw [step_of_ok hstep]
          exact .ended hstate (by simp)
      | datagram src datagram =>
          rw [step_of_ok hstep]
          exact .ended hstate (by simp)
  | timeoutOnClientSetup =>
      rw [step_of_ok (by simp only [processClient, hstate]; rfl)]
      exact .gaveUp (.inr hstate)
  | timeoutOnClient =>
      rw [step_of_ok (by simp only [processClient, hstate]; rfl)]
      exact .gaveUp (.inl hstate)
  | done =>
      rw [step_of_ok (by simp only [processClient, hstate]; rfl)]
      exact .halted (.inl hstate)
  | exited =>
      rw [step_of_ok (by simp only [processClient, hstate]; rfl)]
      exact .halted (.inr (.inl hstate))
  | hung =>
      rw [step_of_ok (by simp only [processClient, hstate]; rfl)]
      exact .halted (.inr (.inr hstate))

theorem read_fault {fault : Fault}
    (hfault : s.readyForNextSetupPacket input = .error fault ∨
      s.readyForNextDataPacket input = .error fault) :
    ∃ src datagram, input = .datagram src datagram ∧ recvBuf datagram = .error fault := by
  unfold readyForNextSetupPacket readyForNextDataPacket at hfault
  cases input with
  | datagram src datagram =>
      refine ⟨src, datagram, rfl, ?_⟩
      cases hrecv : recvBuf datagram with
      | error cause =>
          simp only [hrecv, or_self] at hfault
          cases hfault
          rfl
      | ok outcome =>
          rcases hfault with hfault | hfault <;> grind
  | silent => rcases hfault with hfault | hfault <;> grind
  | failure => rcases hfault with hfault | hfault <;> grind

theorem receivedRemoteFileName_fault {fault : Fault}
    (hfault : s.receivedRemoteFileName input = .error fault) :
    nameOf s.recvPacket.buf = .error fault := by
  unfold receivedRemoteFileName at hfault
  cases hname : nameOf s.recvPacket.buf with
  | error cause =>
      rw [hname] at hfault
      cases hfault
      rfl
  | ok name =>
      rw [hname] at hfault
      cases hopen : s.fileOpen <;> cases input <;>
        simp [hopen, bind, Except.bind, pure, Except.pure] at hfault

theorem fault_cases {fault : Fault} (h : s.processClient input = .error fault) :
    (∃ src datagram, s.waits ∧ input = .datagram src datagram ∧
        recvBuf datagram = .error fault) ∨
      s.state = .receivedRemoteFileName ∧ nameOf s.recvPacket.buf = .error fault ∨
      s.state = .readyForDataPacketsSetup ∧ s.readyForDataPacketSetup = .error fault ∨
      s.state = .receivedData ∧ s.receivedData = .error fault ∨
      s.state = .receivedEof ∧ input = .failure ∧ fault = .useAfterFree := by
  cases hstate : s.state with
  | readyForNextSetupPacket =>
      simp only [processClient, hstate] at h
      obtain ⟨src, datagram, hinput, hrecv⟩ := read_fault (.inl h)
      exact .inl ⟨src, datagram, .inl hstate, hinput, hrecv⟩
  | readyForNextDataPacket =>
      simp only [processClient, hstate] at h
      obtain ⟨src, datagram, hinput, hrecv⟩ := read_fault (.inr h)
      exact .inl ⟨src, datagram, .inr hstate, hinput, hrecv⟩
  | receivedRemoteFileName =>
      simp only [processClient, hstate] at h
      exact .inr (.inl ⟨rfl, receivedRemoteFileName_fault h⟩)
  | readyForDataPacketsSetup =>
      simp only [processClient, hstate] at h
      exact .inr (.inr (.inl ⟨rfl, h⟩))
  | receivedData =>
      simp only [processClient, hstate] at h
      exact .inr (.inr (.inr (.inl ⟨rfl, h⟩)))
  | receivedEof =>
      simp only [processClient, hstate] at h
      cases input with
      | failure =>
          cases h
          exact .inr (.inr (.inr (.inr ⟨rfl, rfl, rfl⟩)))
      | silent => contradiction
      | datagram src datagram => contradiction
  | _ => simp [processClient, hstate] at h

theorem writeData_ok {chunk : BufferChunk} (h : s.writeData chunk = .ok s') :
    ∃ data, fileData chunk = .ok data ∧ s' = s.log (.wrote data) := by
  unfold writeData at h
  obtain ⟨data, hdata, h⟩ := exists_of_bind_ok h
  cases h
  exact ⟨data, hdata, rfl⟩

theorem mem_of_used {window : List BufferChunk} {index : Nat} {chunk : BufferChunk}
    (h : window.getD index ⟨[], unusedLen⟩ = chunk) (hused : chunk.len ≠ unusedLen) :
    chunk ∈ window := by
  rw [List.getD_eq_getElem?_getD] at h
  cases hslot : window[index]? with
  | none =>
      rw [hslot, Option.getD_none] at h
      exact absurd (congrArg BufferChunk.len h).symm hused
  | some found =>
      rw [hslot, Option.getD_some] at h
      exact h ▸ List.mem_of_getElem? hslot

/-- Where the faults of the data phase come from, under a condition on the ring that lasts
while slots are freed. -/
structure RingFaults (keeps : List BufferChunk → Nat → Prop) (allowed : Fault → Prop) :
    Prop where
  slot : ∀ (s : Server) pos fault, keeps s.window s.winSize →
    s.slotIndex pos = .error fault → allowed fault
  chunk : ∀ window winSize chunk fault, keeps window winSize → chunk ∈ window →
    chunk.len ≠ unusedLen → fileData chunk = .error fault → allowed fault
  free : ∀ window winSize index (chunk : BufferChunk), keeps window winSize →
    keeps (window.set index { chunk with len := unusedLen }) winSize
  fuel : allowed .diverges

section Faults

variable {keeps : List BufferChunk → Nat → Prop} {allowed : Fault → Prop}

theorem RingFaults.flushFrom (rule : RingFaults keeps allowed) (fuel pos : Nat)
    (h : keeps s.window s.winSize) :
    ∀ fault, s.flushFrom fuel pos = .error fault → allowed fault := by
  induction fuel generalizing s pos with
  | zero =>
      intro fault hfault
      cases hfault
      exact rule.fuel
  | succ fuel ih =>
      apply fault_of_bind
      · exact fun fault hfault => rule.slot s pos fault h hfault
      · intro index _
        dsimp only
        split
        · intro fault hfault
          contradiction
        · rename_i hused
          apply fault_of_bind
          · apply fault_of_bind
            · exact fun fault hfault =>
                rule.chunk _ _ _ fault h (mem_of_used rfl hused) hused hfault
            · intro data _ fault hfault
              contradiction
          · intro written hwrite
            obtain ⟨data, -, rfl⟩ := writeData_ok hwrite
            apply ih
            exact rule.free _ _ _ _ h

theorem fault_of_receivedData
    (hpacket : s.hasSREJ = true ∧ fieldOf s.recvPacket.buf = s.numSREJ ∨
      fieldOf s.recvPacket.buf = s.curRRnum →
        ∀ fault, fileData s.recvPacket = .error fault → allowed fault)
    (hslot : ∀ pos fault, s.slotIndex pos = .error fault → allowed fault)
    (hflush : ∀ t : Server, t.window = s.window → t.winSize = s.winSize → ∀ pos fault,
      t.flushFrom (s.winSize + 1) pos = .error fault → allowed fault) :
    ∀ fault, s.receivedData = .error fault → allowed fault := by
  have hdeliver {t : Server} (hwindow : t.window = s.window) (hsize : t.winSize = s.winSize) :
      ∀ fault, t.deliverAndFlush = .error fault → allowed fault := by
    apply fault_of_bind
    · intro fault hfault
      unfold checkForAndWriteBufferedPackets at hfault
      rw [show t.advance.winSize = s.winSize from hsize] at hfault
      exact hflush t.advance hwindow hsize _ fault hfault
    · intro flushed _ fault hfault
      contradiction
  have hwrite (hdue : s.hasSREJ = true ∧ fieldOf s.recvPacket.buf = s.numSREJ ∨
      fieldOf s.recvPacket.buf = s.curRRnum) : ∀ fault,
      { s with state := .readyForNextDataPacket }.writeData s.recvPacket = .error fault →
        allowed fault := by
    apply fault_of_bind (hpacket hdue)
    intro data _ fault hfault
    contradiction
  unfold Server.receivedData
  dsimp only
  split
  · rename_i hsrej
    apply fault_of_bind (hwrite (.inl hsrej))
    intro written hwritten
    obtain ⟨data, -, rfl⟩ := writeData_ok hwritten
    exact hdeliver rfl rfl
  · split
    · rename_i hexpected
      apply fault_of_bind (hwrite (.inr hexpected))
      intro written hwritten
      obtain ⟨data, -, rfl⟩ := writeData_ok hwritten
      exact hdeliver rfl rfl
    · split
      · intro fault hfault
        contradiction
      · unfold Server.bufferPacket
        split
        · apply fault_of_bind
          · apply fault_of_bind
            · exact hslot _
            · intro index _ fault hfault
              contradiction
          · intro stored _ fault hfault
            contradiction
        · intro fault hfault
          contradiction

theorem RingFaults.receivedData (rule : RingFaults keeps allowed)
    (h : keeps s.window s.winSize)
    (hpacket : s.hasSREJ = true ∧ fieldOf s.recvPacket.buf = s.numSREJ ∨
      fieldOf s.recvPacket.buf = s.curRRnum →
        ∀ fault, fileData s.recvPacket = .error fault → allowed fault) :
    ∀ fault, s.receivedData = .error fault → allowed fault := by
  refine fault_of_receivedData hpacket (fun pos fault => rule.slot s pos fault h) ?_
  intro t hwindow hsize pos
  apply rule.flushFrom
  rwa [hwindow, hsize]

end Faults

def numUsed (s : Server) : Nat := s.window.countP fun chunk => chunk.len ≠ unusedLen

theorem numUsed_le (s : Server) : s.numUsed ≤ s.window.length := List.countP_le_length

theorem fileData_fault {chunk : BufferChunk} {fault : Fault}
    (h : fileData chunk = .error fault) : fault = .memoryOverrun := by
  unfold fileData at h
  dsimp only at h
  split at h
  · cases h
    rfl
  · contradiction

theorem slotIndex_ends {pos : Nat} : s.slotIndex pos ≠ .error .diverges := by
  unfold slotIndex
  split
  · simp
  · split <;> simp

/-- Each iteration frees a slot, so the loop ends when it has a test for each of them. -/
theorem flushFrom_ends {fuel pos : Nat} (h : s.numUsed < fuel) :
    ∀ fault, s.flushFrom fuel pos = .error fault → fault ≠ .diverges := by
  induction fuel generalizing s pos with
  | zero => exact absurd h (Nat.not_lt_zero _)
  | succ fuel ih =>
      apply fault_of_bind
      · rintro fault hfault rfl
        exact slotIndex_ends hfault
      · intro index hindex
        dsimp only
        split
        · intro fault hfault
          contradiction
        · rename_i hused
          apply fault_of_bind
          · apply fault_of_bind
            · intro fault hfault
              simp [fileData_fault hfault]
            · intro data _ fault hfault
              contradiction
          · intro written hwrite
            obtain ⟨data, -, rfl⟩ := writeData_ok hwrite
            apply ih
            have hlt : index < s.window.length := by
              by_contra hout
              simp [List.getD_eq_getElem?_getD, List.getElem?_eq_none (Nat.le_of_not_lt hout)]
                at hused
            have hheld : s.window[index].len ≠ unusedLen := by
              simpa [List.getD_eq_getElem?_getD, List.getElem?_eq_getElem hlt] using hused
            have hpositive : 0 < s.numUsed :=
              List.countP_pos_iff.mpr ⟨_, List.getElem_mem hlt, by simpa using hheld⟩
            have hfreed : ((s.log (.wrote data)).free index
                (s.window.getD index ⟨[], unusedLen⟩)).advance.numUsed = s.numUsed - 1 := by
              simp [numUsed, free, advance, log, List.countP_set hlt, hheld]
            rw [hfreed]
            omega

theorem receivedData_ends (hlength : s.window.length ≤ s.winSize) :
    s.receivedData ≠ .error .diverges := by
  have hall : ∀ fault, s.receivedData = .error fault → fault ≠ .diverges := by
    refine fault_of_receivedData (fun _ fault hfault => ?_) (fun pos fault hfault => ?_)
      (fun t hwindow hsize pos => ?_)
    · simp [fileData_fault hfault]
    · rintro rfl
      exact slotIndex_ends hfault
    · refine flushFrom_ends (Nat.lt_succ_of_le (Nat.le_trans t.numUsed_le ?_))
      rwa [hwindow]
  exact fun hloops => hall _ hloops rfl

theorem flushFrom_keeps (property : Nat → Server → Prop) (count : Nat) {fuel pos next : Nat}
    (hone : ∀ count s index chunk data, property count s →
      s.window.getD index ⟨[], unusedLen⟩ = chunk → chunk.len ≠ unusedLen →
      fileData chunk = .ok data →
      property (count + 1) ((s.log (.wrote data)).free index chunk).advance)
    (h : property count s) (hflush : s.flushFrom fuel pos = .ok (s', next)) :
    ∃ total ≤ count + fuel, property total s' := by
  induction fuel generalizing s count pos with
  | zero => contradiction
  | succ fuel ih =>
      unfold flushFrom at hflush
      obtain ⟨index, -, hflush⟩ := exists_of_bind_ok hflush
      dsimp only at hflush
      split at hflush
      · cases hflush
        exact ⟨count, Nat.le_add_right _ _, h⟩
      · rename_i hused
        obtain ⟨written, hwrite, hflush⟩ := exists_of_bind_ok hflush
        obtain ⟨data, hdata, rfl⟩ := writeData_ok hwrite
        obtain ⟨total, hle, htotal⟩ := ih _ (hone _ _ index _ data h rfl hused hdata) hflush
        exact ⟨total, by omega, htotal⟩

theorem dataTurn_of_deliverAndFlush {data : Bytes} {hasSREJ : Bool}
    (due : s.hasSREJ = true ∧ fieldOf s.recvPacket.buf = s.numSREJ ∨
      fieldOf s.recvPacket.buf = s.curRRnum)
    (copied : fileData s.recvPacket = .ok data)
    (h : { s.log (.wrote data) with
      state := .readyForNextDataPacket, hasSREJ := hasSREJ }.deliverAndFlush = .ok s') :
    DataTurn s s' := by
  unfold deliverAndFlush checkForAndWriteBufferedPackets at h
  obtain ⟨⟨flushed, next⟩, hflush, h⟩ := exists_of_bind_ok h
  cases h
  exact .delivered due copied hflush

theorem dataTurn (h : s.receivedData = .ok s') : DataTurn s s' := by
  unfold receivedData at h
  dsimp only at h
  split at h
  · rename_i hsrej
    obtain ⟨written, hwrite, h⟩ := exists_of_bind_ok h
    obtain ⟨data, hdata, rfl⟩ := writeData_ok hwrite
    exact dataTurn_of_deliverAndFlush (.inl hsrej) hdata h
  · split at h
    · rename_i hexpected
      obtain ⟨written, hwrite, h⟩ := exists_of_bind_ok h
      obtain ⟨data, hdata, rfl⟩ := writeData_ok hwrite
      exact @dataTurn_of_deliverAndFlush _ _ data s.hasSREJ (.inr hexpected) hdata h
    · split at h
      · rename_i hold
        cases h
        unfold handleClientRecovery
        split
        · exact .repeated hold (.inl rfl)
        · exact .repeated hold (.inr rfl)
      · have hearly : s.curRRnum < fieldOf s.recvPacket.buf := by omega
        unfold bufferPacket at h
        split at h
        · rename_i hwindow
          obtain ⟨stored, hstored, h⟩ := exists_of_bind_ok h
          obtain ⟨index, hindex, hstored⟩ := exists_of_bind_ok hstored
          cases hstored
          cases h
          exact .parked hearly hwindow hindex
        · cases h
          exact .outside hearly

theorem DataTurn.length_window (h : DataTurn s s') : s'.window.length = s.window.length := by
  cases h with
  | delivered due copied flushes =>
      rename_i flushed data hasSREJ next
      obtain ⟨-, -, hflushed⟩ := @flushFrom_keeps (s.delivering data hasSREJ) flushed
        (fun _ t => t.window.length = s.window.length) 0 _ _ _
        (fun _ t index chunk data h _ _ _ => by simpa [free, advance, log] using h) rfl flushes
      rw [← hflushed]
      unfold sendRRorSREJ
      split
      · rfl
      · split <;> rfl
  | repeated => rfl
  | parked | outside =>
      unfold sendSREJonce
      split <;> simp [sendSREJ, sendResponse, log]

end Inversion

end SlidingWindow.Server

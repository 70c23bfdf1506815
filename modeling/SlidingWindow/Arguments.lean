import SlidingWindow.Silence
import SlidingWindow.Completion

/-! The command line of `rcopy`. Its two sizes are signed results of `atoi` that are stored
in `uint32_t` globals before they are tested; what is accepted goes into the arithmetic of
both programs. -/
namespace SlidingWindow.Arguments

open Library ServerWindow

structure CommandLine where
  argc : ℕ
  localName : String
  remoteName : Bytes
  /-- `open` finds the local file. -/
  opens : Bool
  /-- `atoi(argv[3])`. -/
  bufferSize : BitVec 32
  /-- `atof(argv[4])`; `none` is not a number. -/
  errorPercent : Option Rat
  /-- `atoi(argv[5])`. -/
  windowSize : BitVec 32

structure Globals where
  remoteName : Bytes
  bufSize : ℕ
  winSize : ℕ
  deriving DecidableEq

/-- An error is what is printed before `exit(-1)`. Both sizes are compared as `uint32_t`,
but for the second test of the buffer size. -/
def processCommandlineArgs (args : CommandLine) : Except String Globals :=
  if args.argc ≠ 8 then
    .error "Usage: rcopy local-file remote-file buffer-size error-percent window-size remote-machine remote-port\n"
  else if 1000 < args.localName.utf8ByteSize then
    .error "Local file name needs to be less than 1000 characters"
  else if 1000 < args.remoteName.length then
    .error "Local file name needs to be less than 1000 characters"
  else if ¬ args.opens then
    .error ("Local file named " ++ args.localName ++ " could not be opened\n")
  else if args.bufferSize.toNat < 400 ∨ 1400 < args.bufferSize.toInt then
    .error "Buffer size must be between 400 and 1400 bytes\n"
  else if args.errorPercent.any fun percent => percent < 0 ∨ 1 < percent then
    .error "Error percentage must be between 0 and 1 inclusively\n"
  else if args.windowSize.toNat < 0 then
    .error "Window size must be greater than 0\n"
  else
    .ok
      { remoteName := args.remoteName
        bufSize := args.bufferSize.toNat
        winSize := args.windowSize.toNat }

/-- Everything that is tested passes, but a negative buffer size counts as a large one, and
no window size is refused. -/
structure Accepted (args : CommandLine) (globals : Globals) : Prop where
  remoteName : globals.remoteName.length ≤ 1000
  bufSize : globals.bufSize = args.bufferSize.toNat
  winSize : globals.winSize = args.windowSize.toNat
  lower : 400 ≤ args.bufferSize.toNat
  upper : args.bufferSize.toInt ≤ 1400

theorem accepted_of_ok {args : CommandLine} {globals : Globals}
    (h : processCommandlineArgs args = .ok globals) : Accepted args globals := by
  unfold processCommandlineArgs at h
  split at h
  · contradiction
  split at h
  · contradiction
  split at h
  · contradiction
  rename_i hname
  split at h
  · contradiction
  split at h
  · contradiction
  rename_i hsize
  split at h
  · contradiction
  split at h
  · contradiction
  cases h
  exact ⟨Nat.le_of_not_lt hname, rfl, rfl, by omega, by omega⟩

theorem bufSize_range_iff {args : CommandLine} {globals : Globals}
    (h : Accepted args globals) :
    400 ≤ globals.bufSize ∧ globals.bufSize ≤ 1400 ↔ 0 ≤ args.bufferSize.toInt := by
  have hlower := h.lower
  have hupper := h.upper
  rw [h.bufSize]
  rw [BitVec.toInt_eq_toNat_cond] at hupper ⊢
  split at hupper <;> omega

theorem winSize_pos_iff {args : CommandLine} {globals : Globals}
    (h : Accepted args globals) : 0 < globals.winSize ↔ args.windowSize ≠ 0 := by
  rw [h.winSize]
  bv_omega

/-- One turn divides by zero nowhere, reads no more than its buffer holds, and what has been
sent after it fits in a packet. -/
structure SafeTurn (w : World) (label : World.Label) : Prop where
  client : ∀ choice, label = .client choice →
    w.client.enterStateMachine (World.resolve (w.inbox .rcopy) choice) ≠
      .error .divideByZero
  child : ∀ index choice s, label = .child index choice → w.children[index]? = some s →
    s.processClient (World.resolve (w.inbox (.child index)) choice) ≠ .error .divideByZero
  read : w.client.state = .sendData → w.client.bufSize ≤ maxPacketLen
  clientSent : ∀ dst datagram, .sent dst datagram ∈ (w.step label).client.trace →
    datagram.length ≤ maxPacketLen
  childSent : ∀ s ∈ (w.step label).children, ∀ dst datagram,
    .sent dst datagram ∈ s.trace → datagram.length ≤ maxPacketLen

def CutBy (bufSize : ℕ) (localFile : List Bytes) : Prop :=
  ∀ chunk ∈ localFile, 1 ≤ chunk.length ∧ chunk.length ≤ bufSize

def launched (globals : Globals) (localFile : List Bytes) : World :=
  World.start (Client.started localFile globals.remoteName globals.bufSize globals.winSize)

/-- The sizes are those that the messages ask for, and safe in every run on any file. -/
structure Safe (globals : Globals) : Prop where
  bufSize : 400 ≤ globals.bufSize ∧ globals.bufSize ≤ 1400
  winSize : 0 < globals.winSize
  runs : ∀ localFile labels, CutBy globals.bufSize localFile →
    Runs.Along World.step SafeTurn (launched globals localFile) labels

section Divides

variable {c : Client} {s : Server} {input : Input}

theorem client_slotIndex_fault (hpositive : 0 < c.winSize) (index : ℕ) (fault : Fault)
    (h : c.slotIndex index = .error fault) : fault ≠ .divideByZero := by
  unfold Client.slotIndex at h
  rw [if_neg (by omega)] at h
  split at h
  · cases h
    simp
  · contradiction

theorem keepPacket_fault (hpositive : 0 < c.winSize) (packet : BufferChunk) :
    ∀ fault, c.keepPacket packet = .error fault → fault ≠ .divideByZero := by
  apply fault_of_bind
  · exact client_slotIndex_fault hpositive c.winCur
  · intro slot _ fault h
    contradiction

theorem sendDataFromWindow_fault (hpositive : 0 < c.winSize) (index : ℕ) :
    ∀ fault, c.sendDataFromWindow index = .error fault → fault ≠ .divideByZero := by
  apply fault_of_bind
  · exact client_slotIndex_fault hpositive index
  · intro slot _ fault h
    dsimp only at h
    split at h
    · cases h
      simp
    · contradiction

theorem processIncomingData_fault (src : Peer) (datagram : Datagram) (numSREJ : ℕ) :
    ∀ fault, c.processIncomingData src datagram numSREJ = .error fault →
      fault ≠ .divideByZero := by
  intro fault h
  unfold Client.processIncomingData at h
  cases hrecv : recvBuf datagram with
  | error cause =>
      simp only [hrecv] at h
      cases h
      simp [recvBuf_fault hrecv]
  | ok outcome => grind

theorem receiveData_fault (src : Peer) (datagram : Datagram) :
    ∀ fault, c.receiveData src datagram = .error fault → fault ≠ .divideByZero := by
  apply fault_of_bind
  · exact processIncomingData_fault src datagram c.numSREJ
  · intro after _ fault h
    contradiction

theorem waitForSetupAcks_fault {fault : Fault} (h : c.waitForSetupAcks input = .error fault) :
    fault ≠ .divideByZero := by
  unfold Client.waitForSetupAcks at h
  cases input with
  | datagram src datagram =>
      cases hrecv : recvBuf datagram with
      | error cause =>
          simp only [hrecv] at h
          cases h
          simp [recvBuf_fault hrecv]
      | ok outcome => grind
  | silent => grind
  | failure => grind

theorem sendData_fault (hpositive : 0 < c.winSize) {fault : Fault}
    (h : c.sendData input = .error fault) : fault ≠ .divideByZero := by
  unfold Client.sendData at h
  split at h
  · contradiction
  · contradiction
  · apply keepPacket_fault _ _ fault h
    exact hpositive

theorem enterStateMachine_fault (hpositive : 0 < c.winSize) {fault : Fault}
    (h : c.enterStateMachine input = .error fault) : fault ≠ .divideByZero := by
  cases hstate : c.state with
  | waitForSetupAcks =>
      simp only [Client.enterStateMachine, hstate] at h
      exact waitForSetupAcks_fault h
  | sendData =>
      simp only [Client.enterStateMachine, hstate] at h
      exact sendData_fault hpositive h
  | sendDataSREJ =>
      simp only [Client.enterStateMachine, hstate] at h
      exact sendDataFromWindow_fault hpositive _ fault h
  | receiveDataWindowOpen =>
      simp only [Client.enterStateMachine, hstate, Client.receiveDataWindowOpen] at h
      split at h
      · exact receiveData_fault _ _ fault h
      · split at h <;> contradiction
  | receiveDataWindowClosed =>
      simp only [Client.enterStateMachine, hstate, Client.receiveDataWindowClosed] at h
      split at h
      · exact receiveData_fault _ _ fault h
      · split at h
        · contradiction
        · apply sendDataFromWindow_fault _ _ fault h
          exact hpositive
  | sendEofAndQuit =>
      simp only [Client.enterStateMachine, hstate, Client.sendEofAndQuit] at h
      split at h
      · exact fault_of_bind (processIncomingData_fault _ _ _)
          (fun _ _ _ h => by contradiction) fault h
      · split at h <;> contradiction
  | _ => simp [Client.enterStateMachine, hstate] at h

theorem positive_faults :
    Server.RingFaults (fun _ winSize => 0 < winSize) (· ≠ .divideByZero) where
  slot s pos fault hpositive hfault := by
    unfold Server.slotIndex at hfault
    rw [if_neg (by omega)] at hfault
    split at hfault
    · cases hfault
      simp
    · contradiction
  chunk _ _ chunk _ _ _ _ hfault := by simp [Server.fileData_fault hfault]
  free _ _ _ _ hpositive := hpositive
  fuel := by simp

theorem processClient_fault (hpositive : s.state = .receivedData → 0 < s.winSize)
    {fault : Fault} (h : s.processClient input = .error fault) : fault ≠ .divideByZero := by
  rcases Server.fault_cases h with ⟨src, datagram, -, -, hrecv⟩ | ⟨-, hname⟩ | ⟨-, hloop⟩ |
    ⟨hstate, hdata⟩ | ⟨-, -, rfl⟩
  · simp [recvBuf_fault hrecv]
  · simp [Server.nameOf_fault hname]
  · simp [Server.readyForDataPacketSetup_fault hloop]
  · exact positive_faults.receivedData (hpositive hstate)
      (fun _ _ hfault => by simp [Server.fileData_fault hfault]) fault hdata
  · simp

end Divides

structure Outgoing (width : ℕ) (datagram : Datagram) : Prop where
  length : datagram.length ≤ maxPacketLen
  announces : flagOf datagram = some .windowSize → fieldOf datagram = width

def Sends (width : ℕ) (trace : Trace) : Prop :=
  ∀ dst datagram, .sent dst datagram ∈ trace → Outgoing width datagram

section Sent

variable {width : ℕ} {trace : Trace} {data : Bytes} {flag : Flag} {seqNum number : ℕ}

theorem outgoing_plain (hlen : data.length + 8 ≤ maxPacketLen) (hflag : flag ≠ .windowSize) :
    Outgoing width (plainDatagram data flag seqNum) := by
  constructor
  · rwa [length_plainDatagram]
  · intro hwindow
    rw [flagOf_plainDatagram] at hwindow
    exact absurd (Option.some.inj hwindow) hflag

theorem outgoing_numbered (hlen : data.length + 12 ≤ maxPacketLen)
    (hflag : flag ≠ .windowSize) :
    Outgoing width (numberedDatagram data flag seqNum number) := by
  constructor
  · rwa [length_numberedDatagram]
  · intro hwindow
    rw [flagOf_numberedDatagram] at hwindow
    exact absurd (Option.some.inj hwindow) hflag

theorem outgoing_windowSize (hwidth : width < 4294967296) :
    Outgoing width (plainDatagram (htonl width) .windowSize seqNum) := by
  constructor
  · simp [maxPacketLen]
  · intro _
    rw [fieldOf_plainDatagram_htonl, u32_of_lt hwidth]

theorem Sends.concat (h : Sends width trace) {dst : Peer} {datagram : Datagram}
    (hsent : Outgoing width datagram) : Sends width (trace ++ [.sent dst datagram]) := by
  intro other found hmem
  rcases List.mem_append.mp hmem with hbefore | hnew
  · exact h other found hbefore
  · cases List.mem_singleton.mp hnew
    exact hsent

end Sent

section Client

variable {width size : ℕ} {c c' : Client} {input : Input}

structure Launched (width size : ℕ) (c : Client) : Prop where
  winSize : c.winSize = width
  bufSize : c.bufSize = size
  name : c.remoteFileName.length ≤ 1000
  file : ∀ chunk ∈ c.localFile, chunk.length ≤ size
  slots : ∀ slot ∈ c.window, slot.len ≠ 0 → Outgoing width (sendtoErr slot.buf slot.len)
  sends : Sends width c.trace

theorem Launched.same (h : Launched width size c) (hwin : c'.winSize = c.winSize)
    (hbuf : c'.bufSize = c.bufSize) (hname : c'.remoteFileName = c.remoteFileName)
    (hfile : c'.localFile = c.localFile) (hwindow : c'.window = c.window)
    (htrace : Sends width c'.trace) : Launched width size c' where
  winSize := hwin.trans h.winSize
  bufSize := hbuf.trans h.bufSize
  name := hname ▸ h.name
  file := hfile ▸ h.file
  slots := hwindow ▸ h.slots
  sends := htrace

theorem launched_setupTurn (h : Launched width size c) (hwidth : width < 4294967296)
    (hturn : Client.SetupTurn c input c') : Launched width size c' := by
  have hname := h.name
  cases hturn with
  | fileName =>
      refine h.same rfl rfl rfl rfl rfl (h.sends.concat (outgoing_plain ?_ (by simp)))
      simp only [List.length_append, length_htonl, maxPacketLen]
      omega
  | bufferSize =>
      exact h.same rfl rfl rfl rfl rfl (h.sends.concat (outgoing_plain (by simp [maxPacketLen])
        (by simp)))
  | windowSize =>
      refine h.same rfl rfl rfl rfl rfl (h.sends.concat ?_)
      rw [h.winSize]
      exact outgoing_windowSize hwidth
  | allocated =>
      refine ⟨h.winSize, h.bufSize, hname, h.file, ?_, h.sends⟩
      intro slot hslot hlen
      rw [List.eq_of_mem_replicate hslot] at hlen
      contradiction
  | answered =>
      unfold Client.answered
      split <;> exact h.same rfl rfl rfl rfl rfl h.sends
  | _ => exact h.same rfl rfl rfl rfl rfl h.sends

theorem launched_sentChunk (h : Launched width size c) (hsize : size ≤ 1400) {chunk : Bytes}
    {rest : List Bytes} (hfile : c.localFile = chunk :: rest) :
    Launched width size (c.sentChunk chunk rest) := by
  have hlength : chunk.length ≤ size := h.file chunk (by simp [hfile])
  have hsent {seqNum number : ℕ} :
      Outgoing width (numberedDatagram chunk .data seqNum number) :=
    outgoing_numbered (by simp only [maxPacketLen]; omega) (by simp)
  refine ⟨h.winSize, h.bufSize, h.name, ?_, ?_, h.sends.concat hsent⟩
  · intro other hother
    exact h.file other (by rw [hfile]; exact List.mem_cons_of_mem _ hother)
  · intro slot hslot hlen
    rcases List.mem_or_eq_of_mem_set hslot with hbefore | rfl
    · exact h.slots slot hbefore hlen
    · exact hsent

theorem launched_turn (h : Launched width size c) (hsize : size ≤ 1400)
    (hturn : Client.Turn c input c') : Launched width size c' := by
  have heof {seqNum : ℕ} : Outgoing width (plainDatagram [] .endOfFile seqNum) :=
    outgoing_plain (by simp [maxPacketLen]) (by simp)
  have hlistens {before : Client} (listens : c.listening? = some before) :
      Launched width size before := by
    rcases Client.listening?_eq_some listens with ⟨rfl, -⟩ | ⟨rfl, -⟩
    · exact h
    · exact h.same rfl rfl rfl rfl rfl (h.sends.concat heof)
  cases hturn with
  | sent state chunk rest file => exact launched_sentChunk h hsize file
  | resent source held filled =>
      obtain ⟨timeout, rfl⟩ := Client.resending?_frame source
      refine h.same rfl rfl rfl rfl rfl (h.sends.concat ?_)
      exact h.slots _ (List.mem_of_getElem? held) filled
  | eofUnanswered => exact h.same rfl rfl rfl rfl rfl (h.sends.concat heof)
  | crashed listens | corrupted listens | acknowledged listens | rejected listens
  | ended listens =>
      have hbefore := hlistens listens
      exact hbefore.same rfl rfl rfl rfl rfl hbefore.sends
  | _ => exact h.same rfl rfl rfl rfl rfl h.sends

end Client

section Child

variable {width : ℕ} {s s' : Server} {input : Input}

def Heard (width : ℕ) (input : Input) : Prop :=
  ∀ src datagram received, input = .datagram src datagram →
    recvBuf datagram = .ok (some received) → received.flag = some .windowSize →
      fieldOf received.packet = width

/-- A child that has a window size has the one of the command line, and it has one in the
data phase. -/
structure Child (width : ℕ) (s : Server) : Prop where
  good : s.winGood = true → s.winSize = width
  read : s.state = .receivedWindowSize → fieldOf s.recvPacket.buf = width
  data : s.state = .readyForDataPacketsSetup ∨ s.state = .readyForNextDataPacket ∨
    s.state = .receivedData → s.winSize = width
  sends : Sends width s.trace

def Unbound (state : ServerState) : Prop :=
  state ≠ .receivedWindowSize ∧ state ≠ .readyForDataPacketsSetup ∧
    state ≠ .readyForNextDataPacket ∧ state ≠ .receivedData

theorem Child.same (h : Child width s) (hgood : s'.winGood = s.winGood)
    (hsize : s'.winSize = s.winSize) (hstate : Unbound s'.state)
    (hsends : Sends width s'.trace) : Child width s' where
  good hset := hsize.trans (h.good (hgood ▸ hset))
  read hread := absurd hread hstate.1
  data hdata := by
    obtain ⟨-, hready, hnext, hreceived⟩ := hstate
    rcases hdata with hdata | hdata | hdata <;> contradiction
  sends := hsends

theorem Sends.answer {trace : Trace} (h : Sends width trace) {dst : Peer} {flag : Flag}
    {seqNum : ℕ} (hflag : flag ≠ .windowSize) :
    Sends width (trace ++ [.sent dst (plainDatagram [] flag seqNum)]) :=
  h.concat (outgoing_plain (by simp [maxPacketLen]) hflag)

theorem Sends.delivered (h : Sends width s.trace) (hhandles : Handles s s') :
    Sends width s'.trace := by
  obtain ⟨response, ⟨written, seqNum, htrace⟩, hflag⟩ := hhandles.emits
  have hwrites : Sends width (s.trace ++ written.map Event.wrote) := by
    intro dst datagram hmem
    rcases List.mem_append.mp hmem with hbefore | hwritten
    · exact h dst datagram hbefore
    · simp at hwritten
  rw [htrace]
  cases response with
  | none => simpa using hwrites
  | some flag =>
      apply hwrites.concat
      apply outgoing_numbered (by simp [maxPacketLen])
      rcases hflag flag rfl with rfl | rfl <;> simp

theorem flag_of_setupState {flag : Option Flag}
    (h : s.setupState flag = .receivedWindowSize) : flag = some .windowSize := by
  unfold Server.setupState at h
  grind

theorem child_turn (h : Child width s) (hheard : Heard width input)
    (hturn : Server.Turn s input s') : Child width s' := by
  have hsends := h.sends
  cases hturn with
  | halted => exact h
  | keptOpen | refused | bufferSize | ended =>
      refine h.same rfl rfl ?_ (hsends.answer (by simp))
      simp [Unbound, Server.acceptFileName, Server.rejectFileName, Server.receivedBufferSize,
        Server.answerEof]
  | opened =>
      dsimp only [Server.openFile, Server.acceptFileName, Server.sendAnswer, Server.log]
      refine h.same rfl rfl (by simp [Unbound]) ?_
      have hopened (name : Bytes) : Sends width (s.trace ++ [.opened name]) := by
        intro dst datagram hmem
        exact hsends dst datagram (by simpa using hmem)
      exact (hopened _).answer (by simp)
  | windowSize state =>
      exact ⟨fun _ => h.read state, by simp [Server.receivedWindowSize],
        by simp [Server.receivedWindowSize], hsends.answer (by simp)⟩
  | allocated state allocates =>
      rw [DataPhase.readyForDataPacketSetup_ok allocates]
      exact ⟨h.good, by simp [DataPhase.allocated], fun _ => h.data (.inl state), hsends⟩
  | delivered state delivers =>
      have hhandles := handles_of_dataTurn (Server.dataTurn delivers)
      have hsize := eq_of_frame Server.winSize (fun _ => rfl) hhandles.settled
      have hgood := eq_of_frame Server.winGood (fun _ => rfl) hhandles.settled
      have hstate := eq_of_frame Server.state (fun _ => rfl) hhandles.settled
      refine ⟨fun hset => hsize.trans (h.good (hgood ▸ hset)), by simp [hstate], ?_,
        hsends.delivered hhandles⟩
      exact fun _ => hsize.trans (h.data (.inr (.inr state)))
  | setupRead state accepted =>
      rename_i src datagram received
      refine ⟨h.good, fun hread => ?_, fun hdata => h.good ?_, hsends⟩
      · exact hheard src datagram received rfl accepted
          (flag_of_setupState (s := s) hread)
      · simp only [Server.read, Server.setupState] at hdata
        grind
  | dataRead state accepted =>
      refine ⟨h.good, fun hread => ?_, fun _ => h.data (.inr (.inl state)), hsends⟩
      simp only [Server.read, Server.dataState] at hread
      grind
  | corrupted state =>
      refine ⟨h.good, fun hread => ?_, h.data, hsends⟩
      rcases state with state | state <;> simp [state] at hread
  | setupUnanswered =>
      refine h.same rfl rfl ?_ hsends
      dsimp only
      split <;> simp [Unbound]
  | _ => exact h.same rfl rfl (by simp [Unbound]) hsends

end Child

structure Bound (width size : ℕ) (w : World) : Prop where
  patient : Silence.Patient w.client
  client : Launched width size w.client
  children : ∀ s ∈ w.children, Child width s

section Worlds

variable {width size : ℕ} {w : World}

theorem Bound.heard (h : Bound width size w) (peer : Peer) (choice : World.Choice) :
    Heard width (World.resolve (w.inbox peer) choice) := by
  intro src datagram received hinput haccepted hflag
  have hinbox : ∀ src datagram, (src, datagram) ∈ w.inbox peer →
      True ∧ Outgoing width datagram := by
    intro src datagram hmem
    refine ⟨trivial, ?_⟩
    rcases World.mem_inbox.mp hmem with ⟨-, hsent⟩ | ⟨index, s, hchild, -, hsent⟩
    · exact h.client.sends _ _ hsent
    · exact (h.children s (List.mem_of_getElem? hchild)).sends _ _ hsent
  have hoffered := World.offered_resolve (w.inbox peer) choice
  rw [hinput] at hoffered
  rcases (World.of_offered hinbox hoffered).2 with hcorrupt | hsent
  · exact absurd (hcorrupt.symm.trans haccepted) (by simp)
  · obtain ⟨hpacket, hsame⟩ := recvBuf_eq_some_of_length hsent.length haccepted
    rw [hpacket]
    exact hsent.announces (hsame ▸ hflag)

theorem Bound.client_step (h : Bound width size w) (hwidth : width < 4294967296)
    (hsize : size ≤ 1400) (input : Input) : Launched width size (w.client.step input) := by
  rcases h.patient.turns input with ⟨-, hturn⟩ | ⟨-, hturn⟩ | ⟨hsame, -⟩
  · exact launched_setupTurn h.client hwidth hturn
  · exact launched_turn h.client hsize hturn
  · rw [hsame]
    exact h.client

theorem child_forked (client : Peer) (packet : Bytes) :
    Child width (Server.forked client packet) :=
  ⟨by simp [Server.forked], by simp [Server.forked], by simp [Server.forked],
    by simp [Sends, Server.forked]⟩

theorem bound_session {u : Upload} (hpositive : 1 ≤ u.width) :
    Bound u.width u.bufSize (Completion.session u) where
  patient := ⟨hpositive, .inl (.inl rfl), .inl (Nat.zero_le _)⟩
  client := ⟨rfl, rfl, u.name_length, fun chunk hmem => (u.chunk_length chunk hmem).2,
    fun _ hmem => absurd hmem List.not_mem_nil, fun _ _ hmem => absurd hmem List.not_mem_nil⟩
  children _ hmem := absurd hmem List.not_mem_nil

theorem Bound.step (h : Bound width size w) (hwidth : width < 4294967296)
    (hsize : size ≤ 1400) (label : World.Label) : Bound width size (w.step label) := by
  cases label with
  | client choice =>
      exact ⟨h.patient.step _, h.client_step hwidth hsize _, h.children⟩
  | child index choice =>
      refine ⟨h.patient, h.client, ?_⟩
      apply World.forall_children_step h.children
      intro s hchild
      exact child_turn (h.children s (List.mem_of_getElem? hchild)) (h.heard _ _)
        (Server.turn s _)
  | main choice =>
      rcases w.step_main choice with hsame | ⟨src, datagram, received, -, -, hfork⟩
      · rwa [hsame]
      · rw [hfork]
        refine ⟨h.patient, h.client, fun s hs => ?_⟩
        rcases List.mem_append.mp hs with hbefore | hforked
        · exact h.children s hbefore
        · rw [List.mem_singleton.mp hforked]
          exact child_forked src received.packet

theorem Bound.safeTurn (h : Bound width size w) (hwidth : 0 < width ∧ width < 4294967296)
    (hsize : size ≤ 1400) (label : World.Label) : SafeTurn w label := by
  have hstep := h.step hwidth.2 hsize label
  constructor
  · intro choice _ hfault
    apply enterStateMachine_fault _ hfault rfl
    rw [h.client.winSize]
    exact hwidth.1
  · intro index choice s _ hchild hfault
    apply processClient_fault _ hfault rfl
    intro hstate
    rw [(h.children s (List.mem_of_getElem? hchild)).data (.inr (.inr hstate))]
    exact hwidth.1
  · intro _
    rw [h.client.bufSize]
    exact hsize.trans (by simp [maxPacketLen])
  · intro dst datagram hsent
    exact (hstep.client.sends dst datagram hsent).length
  · intro s hs dst datagram hsent
    exact ((hstep.children s hs).sends dst datagram hsent).length

end Worlds

theorem safe_of_sizes {globals : Globals} (hname : globals.remoteName.length ≤ 1000)
    (hbuf : 400 ≤ globals.bufSize ∧ globals.bufSize ≤ 1400)
    (hwin : 0 < globals.winSize ∧ globals.winSize < 4294967296) : Safe globals := by
  refine ⟨hbuf, hwin.1, fun localFile labels hcut => ?_⟩
  apply Runs.along_of_invariant (Bound globals.winSize globals.bufSize) _ _ _
    Runs.along_true
  · intro w label h _
    exact h.step hwin.2 hbuf.2 label
  · intro w label h _
    exact h.safeTurn hwin hbuf.2 label
  · refine ⟨⟨hwin.1, .inl (.inl rfl), .inl (Nat.zero_le _)⟩, ?_,
      fun _ hmem => absurd hmem List.not_mem_nil⟩
    exact ⟨rfl, rfl, hname, fun chunk hmem => (hcut chunk hmem).2,
      fun _ hmem => absurd hmem List.not_mem_nil,
      fun _ _ hmem => absurd hmem List.not_mem_nil⟩

/-- What the command line accepts is safe for every transfer exactly when the buffer size is
not negative and the window size is not zero. -/
theorem accepted_safe_iff {args : CommandLine} {globals : Globals}
    (h : processCommandlineArgs args = .ok globals) :
    Safe globals ↔ 0 ≤ args.bufferSize.toInt ∧ args.windowSize ≠ 0 := by
  have haccepted := accepted_of_ok h
  rw [← bufSize_range_iff haccepted, ← winSize_pos_iff haccepted]
  constructor
  · intro hsafe
    exact ⟨hsafe.bufSize, hsafe.winSize⟩
  · rintro ⟨hbuf, hwin⟩
    apply safe_of_sizes haccepted.remoteName hbuf ⟨hwin, ?_⟩
    rw [haccepted.winSize]
    exact args.windowSize.isLt

def commandLine (bufferSize windowSize : BitVec 32) : CommandLine :=
  ⟨8, "notes", [102], true, bufferSize, some 0, windowSize⟩

theorem accepted_safe_iff_usual : Safe ⟨[102], 1000, 4⟩ :=
  (@accepted_safe_iff (commandLine 1000 4) _ rfl).mpr (by decide)

/-- Both are accepted: a window of no slots, by which the client divides when it has sent its
first packet, and a buffer of -1 bytes, which `read` takes for more than its buffer holds. -/
theorem zero_window_divides :
    processCommandlineArgs (commandLine 1000 0) = .ok ⟨[102], 1000, 0⟩ ∧
      ¬ Runs.Along World.step SafeTurn (launched ⟨[102], 1000, 0⟩ [[65]])
        (Completion.handshake.take 16 ++ [.client .quiet]) ∧
      processCommandlineArgs (commandLine (-1) 4) = .ok ⟨[102], 4294967295, 4⟩ ∧
      ¬ Runs.Along World.step SafeTurn (launched ⟨[102], 4294967295, 4⟩ [[65]])
        (Completion.handshake.take 16 ++ [.client .quiet]) := by
  refine ⟨rfl, fun h => ?_, rfl, fun h => ?_⟩
  · apply (Runs.along_append.mp h).2.1.client .quiet rfl
    decide +kernel
  · have hread := (Runs.along_append.mp h).2.1.read (by decide +kernel)
    revert hread
    decide +kernel

end SlidingWindow.Arguments

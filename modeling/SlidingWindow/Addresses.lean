import SlidingWindow.Session

/-! The addresses that a process deals with. It has them from `recvfrom` and gives them to
`sendto`, and looks at none: with other addresses in their places it does the same. So it
knows no address but those it was started with and those that it has read from. -/
namespace SlidingWindow

def Event.readdress (f : Peer → Peer) : Event → Event
  | .opened name => .opened name
  | .wrote data => .wrote data
  | .sent dst datagram => .sent (f dst) datagram

def Input.readdress (f : Peer → Peer) : Input → Input
  | .silent => .silent
  | .failure => .failure
  | .datagram src received => .datagram (f src) received

def Client.readdress (f : Peer → Peer) (c : Client) : Client :=
  { c with server := f c.server, trace := c.trace.map (Event.readdress f) }

def Server.readdress (f : Peer → Peer) (s : Server) : Server :=
  { s with client := f s.client, trace := s.trace.map (Event.readdress f) }

variable {f : Peer → Peer} {input : Input} {peer : Peer}

theorem map_bind {α β : Type} {first : Except Fault α} {g : α → α} {h : β → β}
    {next next' : α → Except Fault β} (hnext : ∀ value, next (g value) = (next' value).map h) :
    first.map g >>= next = (first >>= next').map h := by
  cases first with
  | error fault => rfl
  | ok value => exact hnext value

namespace Client

variable {c : Client}

theorem send_readdress (datagram : Datagram) :
    (c.readdress f).send datagram = (c.send datagram).readdress f := by
  simp [send, readdress, Event.readdress]

theorem sendSetup_readdress (flag : Flag) (data : Bytes) :
    (c.readdress f).sendSetup flag data = (c.sendSetup flag data).readdress f := by
  simp [sendSetup, send, readdress, Event.readdress]

theorem waitForSetupAcks_readdress :
    (c.readdress f).waitForSetupAcks (input.readdress f) =
      (c.waitForSetupAcks input).map (readdress f) := by
  cases input with
  | datagram src datagram =>
      cases hrecv : recvBuf datagram with
      | error fault => simp [waitForSetupAcks, Input.readdress, hrecv, Except.map]
      | ok outcome =>
          cases outcome with
          | none => simp [waitForSetupAcks, Input.readdress, hrecv, Except.map, readdress]
          | some received =>
              simp only [waitForSetupAcks, Input.readdress, hrecv, readdress]
              split <;> rfl
  | silent =>
      simp only [waitForSetupAcks, Input.readdress, apply_ite (Except.map (readdress f))]
      rfl
  | failure =>
      simp only [waitForSetupAcks, Input.readdress, apply_ite (Except.map (readdress f))]
      rfl

theorem slotIndex_readdress (index : ℕ) : (c.readdress f).slotIndex index = c.slotIndex index :=
  rfl

theorem keepPacket_readdress (packet : BufferChunk) :
    (c.readdress f).keepPacket packet = (c.keepPacket packet).map (readdress f) := by
  unfold keepPacket
  rw [slotIndex_readdress]
  change c.slotIndex c.winCur >>= _ = Except.map _ (c.slotIndex c.winCur >>= _)
  cases c.slotIndex c.winCur with
  | error fault => rfl
  | ok slot => rfl

theorem sendChunk_readdress (chunk : Bytes) :
    (c.readdress f).sendChunk chunk = (c.sendChunk chunk).map (readdress f) := by
  unfold sendChunk sendPacket
  rw [send_readdress]
  exact keepPacket_readdress _

theorem sendData_readdress :
    (c.readdress f).sendData (input.readdress f) = (c.sendData input).map (readdress f) := by
  have hchunks : (c.readdress f).localFile = c.localFile := rfl
  unfold sendData
  rw [hchunks]
  cases input with
  | failure => rfl
  | silent =>
      cases c.localFile with
      | nil => rfl
      | cons chunk rest => exact @sendChunk_readdress f { c with localFile := rest } chunk
  | datagram src datagram =>
      cases c.localFile with
      | nil => rfl
      | cons chunk rest => exact @sendChunk_readdress f { c with localFile := rest } chunk

theorem sendDataFromWindow_readdress (index : ℕ) :
    (c.readdress f).sendDataFromWindow index = (c.sendDataFromWindow index).map (readdress f) := by
  unfold sendDataFromWindow
  rw [slotIndex_readdress]
  cases c.slotIndex index with
  | error fault => rfl
  | ok slot =>
      simp only [bind, Except.bind, send_readdress]
      rw [apply_ite (Except.map (readdress f))]
      rfl

theorem processIncomingData_readdress (src : Peer) (datagram : Datagram) (numSREJ : ℕ) :
    (c.readdress f).processIncomingData (f src) datagram numSREJ =
      (c.processIncomingData src datagram numSREJ).map (Prod.map (readdress f) id) := by
  unfold processIncomingData
  cases recvBuf datagram with
  | error fault => rfl
  | ok outcome =>
      cases outcome with
      | none => rfl
      | some received =>
          dsimp only
          split
          · rw [apply_ite (Except.map (Prod.map (readdress f) id))]
            rfl
          all_goals simp only [Except.map, Prod.map, readdress, id]

theorem receiveData_readdress (src : Peer) (datagram : Datagram) :
    (c.readdress f).receiveData (f src) datagram =
      (c.receiveData src datagram).map (readdress f) := by
  have hdata := @processIncomingData_readdress f { c with timeout := 0 } src datagram c.numSREJ
  unfold receiveData
  exact (congrArg (· >>= _) hdata).trans (map_bind fun _ => rfl)

theorem receiveDataWindowClosed_readdress :
    (c.readdress f).receiveDataWindowClosed (input.readdress f) =
      (c.receiveDataWindowClosed input).map (readdress f) := by
  cases input with
  | datagram src datagram => exact receiveData_readdress src datagram
  | _ =>
      simp only [receiveDataWindowClosed, Input.readdress, apply_ite (Except.map (readdress f)),
        ← sendDataFromWindow_readdress]
      rfl

theorem receiveDataWindowOpen_readdress :
    (c.readdress f).receiveDataWindowOpen (input.readdress f) =
      (c.receiveDataWindowOpen input).map (readdress f) := by
  cases input with
  | datagram src datagram => exact receiveData_readdress src datagram
  | _ =>
      simp only [receiveDataWindowOpen, Input.readdress, apply_ite (Except.map (readdress f))]
      rfl

theorem sentEof_readdress : (c.readdress f).sentEof = c.sentEof.readdress f := by
  unfold sentEof
  rw [send_readdress]
  rfl

theorem sendEofAndQuit_readdress :
    (c.readdress f).sendEofAndQuit (input.readdress f) =
      (c.sendEofAndQuit input).map (readdress f) := by
  cases input with
  | datagram src datagram =>
      have hdata := @processIncomingData_readdress f { c.sentEof with timeout := 0 } src
        datagram 0
      unfold sendEofAndQuit
      rw [sentEof_readdress]
      exact (congrArg (· >>= _) hdata).trans (map_bind fun _ => rfl)
  | _ =>
      simp only [sendEofAndQuit, Input.readdress, sentEof_readdress,
        apply_ite (Except.map (readdress f))]
      rfl

theorem beforeFault_readdress : (c.readdress f).beforeFault = c.beforeFault.readdress f := by
  have hstate : (c.readdress f).state = c.state := rfl
  have hchunks : (c.readdress f).localFile = c.localFile := rfl
  unfold beforeFault
  rw [hstate, hchunks]
  split
  · rename_i chunk rest _ _
    exact @send_readdress f { c with localFile := rest } _
  · exact sentEof_readdress
  · rfl

theorem step_readdress : (c.readdress f).step (input.readdress f) = (c.step input).readdress f := by
  have hmachine : (c.readdress f).enterStateMachine (input.readdress f) =
      (c.enterStateMachine input).map (readdress f) := by
    have hstate : (c.readdress f).state = c.state := rfl
    cases hcase : c.state with
    | sendRemoteFileName | sendBufferSize | sendWindowSize =>
        simp only [enterStateMachine, hstate, hcase, Except.map]
        exact congrArg Except.ok (sendSetup_readdress _ _)
    | waitForSetupAcks =>
        simpa only [enterStateMachine, hstate, hcase] using waitForSetupAcks_readdress
    | sendData => simpa only [enterStateMachine, hstate, hcase] using sendData_readdress
    | sendDataSREJ =>
        simp only [enterStateMachine, hstate, hcase]
        exact sendDataFromWindow_readdress _
    | receiveDataWindowOpen =>
        simpa only [enterStateMachine, hstate, hcase] using receiveDataWindowOpen_readdress
    | receiveDataWindowClosed =>
        simpa only [enterStateMachine, hstate, hcase] using receiveDataWindowClosed_readdress
    | sendEofAndQuit =>
        simpa only [enterStateMachine, hstate, hcase] using sendEofAndQuit_readdress
    | _ =>
        simp only [enterStateMachine, hstate, hcase]
        rfl
  unfold step
  rw [hmachine]
  cases c.enterStateMachine input with
  | error fault =>
      change { (c.readdress f).beforeFault with state := .exited } = _
      rw [beforeFault_readdress]
      rfl
  | ok after => rfl

end Client

namespace Server

variable {s : Server}

theorem log_readdress (event : Event) :
    (s.readdress f).log (event.readdress f) = (s.log event).readdress f := by
  simp [log, readdress]

theorem sendResponse_readdress (flag : Flag) :
    (s.readdress f).sendResponse flag = (s.sendResponse flag).readdress f := by
  have hlog := @log_readdress f s (.sent s.client (numberedDatagram [] flag s.seqNum s.curRRnum))
  exact congrArg (fun t : Server => { t with seqNum := u32 (s.seqNum + 1) }) hlog

theorem sendAnswer_readdress (flag : Flag) :
    (s.readdress f).sendAnswer flag = (s.sendAnswer flag).readdress f := by
  have hlog := @log_readdress f s (.sent s.client (plainDatagram [] flag s.seqNum))
  exact congrArg (fun t : Server => { t with seqNum := u32 (s.seqNum + 1) }) hlog

theorem sendSREJ_readdress : (s.readdress f).sendSREJ = s.sendSREJ.readdress f := by
  unfold sendSREJ
  rw [sendResponse_readdress]
  rfl

theorem sendSREJonce_readdress : (s.readdress f).sendSREJonce = s.sendSREJonce.readdress f := by
  unfold sendSREJonce
  rw [sendSREJ_readdress, apply_ite (readdress f)]
  rfl

theorem sendRRorSREJ_readdress (nextPacketNum : ℕ) :
    (s.readdress f).sendRRorSREJ nextPacketNum = (s.sendRRorSREJ nextPacketNum).readdress f := by
  unfold sendRRorSREJ
  rw [sendResponse_readdress, sendSREJ_readdress, apply_ite (readdress f),
    apply_ite (readdress f)]
  rfl

theorem handleClientRecovery_readdress :
    (s.readdress f).handleClientRecovery = s.handleClientRecovery.readdress f := by
  unfold handleClientRecovery
  rw [sendResponse_readdress, sendResponse_readdress, apply_ite (readdress f)]
  rfl

theorem writeData_readdress (chunk : BufferChunk) :
    (s.readdress f).writeData chunk = (s.writeData chunk).map (readdress f) := by
  unfold writeData
  cases fileData chunk with
  | error fault => rfl
  | ok data => exact congrArg Except.ok (log_readdress (.wrote data))

theorem flushFrom_readdress (fuel pos : ℕ) :
    flushFrom fuel (s.readdress f) pos =
      (flushFrom fuel s pos).map (Prod.map (readdress f) id) := by
  induction fuel generalizing s pos with
  | zero => rfl
  | succ fuel ih =>
      have hslot : (s.readdress f).slotIndex pos = s.slotIndex pos := rfl
      have hwindow : (s.readdress f).window = s.window := rfl
      unfold flushFrom
      rw [hslot, hwindow]
      cases s.slotIndex pos with
      | error fault => rfl
      | ok index =>
          generalize hchunk : s.window.getD index ⟨[], unusedLen⟩ = chunk
          have hrest : ((s.readdress f).writeData chunk >>= fun t =>
              flushFrom fuel (t.free index chunk).advance (u32 (pos + 1))) =
              (s.writeData chunk >>= fun t =>
                flushFrom fuel (t.free index chunk).advance (u32 (pos + 1))).map
                  (Prod.map (readdress f) id) := by
            rw [writeData_readdress]
            exact map_bind fun t => @ih (t.free index chunk).advance _
          by_cases hfree : chunk.len = unusedLen
          · simp only [bind, Except.bind, hchunk, if_pos hfree]
            rfl
          · simp only [bind, Except.bind, hchunk, if_neg hfree]
            exact hrest

theorem deliverAndFlush_readdress :
    (s.readdress f).deliverAndFlush = s.deliverAndFlush.map (readdress f) := by
  unfold deliverAndFlush checkForAndWriteBufferedPackets
  have hflush := @flushFrom_readdress f s.advance (s.winSize + 1) (sub32 s.advance.curRRnum 1)
  refine (congrArg (· >>= _) hflush).trans (map_bind fun result => ?_)
  exact congrArg Except.ok (sendRRorSREJ_readdress result.2)

theorem handleExpectedSREJpacket_readdress :
    (s.readdress f).handleExpectedSREJpacket = s.handleExpectedSREJpacket.map (readdress f) := by
  unfold handleExpectedSREJpacket
  rw [writeData_readdress]
  exact map_bind fun t => @deliverAndFlush_readdress f { t with hasSREJ := false }

theorem handleExpectedPacketNumber_readdress :
    (s.readdress f).handleExpectedPacketNumber =
      s.handleExpectedPacketNumber.map (readdress f) := by
  unfold handleExpectedPacketNumber
  rw [writeData_readdress]
  exact map_bind fun _ => deliverAndFlush_readdress

theorem storePacket_readdress (recvPackNum : ℕ) :
    (s.readdress f).storePacket recvPackNum = (s.storePacket recvPackNum).map (readdress f) := by
  have hslot : (s.readdress f).slotIndex (sub32 recvPackNum 1) =
      s.slotIndex (sub32 recvPackNum 1) := rfl
  unfold storePacket
  rw [hslot]
  cases s.slotIndex (sub32 recvPackNum 1) with
  | error fault => rfl
  | ok index => rfl

theorem bufferPacket_readdress (recvPackNum : ℕ) :
    (s.readdress f).bufferPacket recvPackNum = (s.bufferPacket recvPackNum).map (readdress f) := by
  have hwindow : (s.readdress f).isInWindow recvPackNum = s.isInWindow recvPackNum := rfl
  unfold bufferPacket
  rw [hwindow, storePacket_readdress, apply_ite (Except.map (readdress f))]
  congr 1
  · exact map_bind fun _ => congrArg Except.ok sendSREJonce_readdress
  · exact congrArg Except.ok sendSREJonce_readdress

theorem receivedData_readdress :
    (s.readdress f).receivedData = s.receivedData.map (readdress f) := by
  let t : Server := { s with state := .readyForNextDataPacket }
  let number := fieldOf s.recvPacket.buf
  change (if s.hasSREJ ∧ number = s.numSREJ then (t.readdress f).handleExpectedSREJpacket
    else if number = s.curRRnum then (t.readdress f).handleExpectedPacketNumber
    else if number < s.curRRnum then .ok (t.readdress f).handleClientRecovery
    else (t.readdress f).bufferPacket number) =
    Except.map (readdress f) (if s.hasSREJ ∧ number = s.numSREJ then t.handleExpectedSREJpacket
      else if number = s.curRRnum then t.handleExpectedPacketNumber
      else if number < s.curRRnum then .ok t.handleClientRecovery
      else t.bufferPacket number)
  simp only [apply_ite (Except.map (readdress f)), handleExpectedSREJpacket_readdress,
    handleExpectedPacketNumber_readdress, handleClientRecovery_readdress,
    bufferPacket_readdress]
  rfl

theorem readyForNextDataPacket_readdress :
    (s.readdress f).readyForNextDataPacket (input.readdress f) =
      (s.readyForNextDataPacket input).map (readdress f) := by
  cases input with
  | datagram src datagram =>
      simp only [readyForNextDataPacket, Input.readdress]
      cases recvBuf datagram with
      | error fault => rfl
      | ok outcome =>
          cases outcome with
          | none => rfl
          | some received =>
              dsimp only
              split <;> rfl
  | _ => rfl

theorem readyForNextSetupPacket_readdress :
    (s.readdress f).readyForNextSetupPacket (input.readdress f) =
      (s.readyForNextSetupPacket input).map (readdress f) := by
  cases input with
  | datagram src datagram =>
      simp only [readyForNextSetupPacket, Input.readdress]
      cases recvBuf datagram with
      | error fault => rfl
      | ok outcome =>
          cases outcome with
          | none => rfl
          | some received =>
              dsimp only
              split
              · rfl
              · rfl
              · rfl
              · rw [apply_ite (Except.map (readdress f))]
                rfl
              · rfl
  | _ =>
      simp only [readyForNextSetupPacket, Input.readdress, apply_ite (Except.map (readdress f))]
      rfl

theorem readyForDataPacketSetup_readdress :
    (s.readdress f).readyForDataPacketSetup = s.readyForDataPacketSetup.map (readdress f) := by
  have hloop : markUnused ((s.readdress f).winSize + 1) (s.readdress f).winSize
      (List.replicate (s.readdress f).winSize ⟨[], 0⟩) 0 =
      markUnused (s.winSize + 1) s.winSize (List.replicate s.winSize ⟨[], 0⟩) 0 := rfl
  unfold readyForDataPacketSetup
  rw [hloop]
  cases markUnused (s.winSize + 1) s.winSize (List.replicate s.winSize ⟨[], 0⟩) 0 with
  | error fault => rfl
  | ok window => rfl

theorem acceptFileName_readdress :
    (s.readdress f).acceptFileName = s.acceptFileName.readdress f := by
  unfold acceptFileName
  rw [sendAnswer_readdress]
  rfl

theorem receivedRemoteFileName_readdress :
    (s.readdress f).receivedRemoteFileName (input.readdress f) =
      (s.receivedRemoteFileName input).map (readdress f) := by
  have hpacket : (s.readdress f).recvPacket = s.recvPacket := rfl
  unfold receivedRemoteFileName
  rw [hpacket]
  cases nameOf s.recvPacket.buf with
  | error fault => rfl
  | ok name =>
      let t : Server := { s with fileName := name }
      have hrefused : (t.readdress f).rejectFileName = t.rejectFileName.readdress f := by
        unfold rejectFileName
        rw [sendAnswer_readdress]
        rfl
      have hopened : (t.readdress f).openFile.acceptFileName =
          t.openFile.acceptFileName.readdress f := by
        rw [← acceptFileName_readdress]
        exact congrArg (fun t : Server => { t with fileOpen := true }.acceptFileName)
          (log_readdress (.opened _))
      have hcases {rest rest' : Server} (hrest : rest' = rest.readdress f) :
          (if s.fileOpen then Except.ok (t.readdress f).acceptFileName else .ok rest') =
            Except.map (ε := Fault) (readdress f)
              (if s.fileOpen then .ok t.acceptFileName else .ok rest) := by
        rw [apply_ite (Except.map (readdress f)), acceptFileName_readdress, hrest]
        rfl
      cases input with
      | failure => exact hcases hrefused
      | _ => exact hcases hopened

theorem receivedEof_readdress :
    (s.readdress f).receivedEof (input.readdress f) =
      (s.receivedEof input).map (readdress f) := by
  have hanswered : (s.readdress f).answerEof = s.answerEof.readdress f := by
    unfold answerEof
    rw [sendAnswer_readdress]
    rfl
  cases input with
  | failure => rfl
  | _ => exact congrArg Except.ok hanswered

theorem step_readdress : (s.readdress f).step (input.readdress f) = (s.step input).readdress f := by
  have hclient : (s.readdress f).processClient (input.readdress f) =
      (s.processClient input).map (readdress f) := by
    have hstate : (s.readdress f).state = s.state := rfl
    cases hcase : s.state with
    | readyForNextSetupPacket =>
        simpa only [processClient, hstate, hcase] using readyForNextSetupPacket_readdress
    | receivedRemoteFileName =>
        simpa only [processClient, hstate, hcase] using receivedRemoteFileName_readdress
    | readyForDataPacketsSetup =>
        simpa only [processClient, hstate, hcase] using readyForDataPacketSetup_readdress
    | readyForNextDataPacket =>
        simpa only [processClient, hstate, hcase] using readyForNextDataPacket_readdress
    | receivedData => simpa only [processClient, hstate, hcase] using receivedData_readdress
    | receivedBufferSize | receivedWindowSize =>
        simp only [processClient, hstate, hcase, receivedBufferSize, receivedWindowSize,
          sendAnswer_readdress]
        rfl
    | receivedEof =>
        simp only [processClient, hstate, hcase]
        exact receivedEof_readdress
    | _ =>
        simp only [processClient, hstate, hcase]
        rfl
  unfold step
  rw [hclient]
  cases s.processClient input with
  | error fault => rfl
  | ok after => rfl

end Server

/-- The peer of a process, and all that it has sent to. -/
def Mentions (current : Peer) (trace : Trace) (peer : Peer) : Prop :=
  current = peer ∨ ∃ datagram, .sent peer datagram ∈ trace

theorem readdress_of_mentions {current : Peer} {trace : Trace}
    (h : ∀ peer, Mentions current trace peer → f peer = peer) :
    f current = current ∧ trace.map (Event.readdress f) = trace := by
  refine ⟨h _ (.inl rfl), ?_⟩
  rw [List.map_congr_left (g := id), List.map_id]
  intro event hevent
  cases event with
  | opened name => rfl
  | wrote data => rfl
  | sent dst datagram => simp [Event.readdress, h dst (.inr ⟨datagram, hevent⟩)]

theorem mentions_of_readdress {current : Peer} {trace : Trace} (hcurrent : f current = current)
    (htrace : trace.map (Event.readdress f) = trace) (h : Mentions current trace peer) :
    f peer = peer := by
  rcases h with rfl | ⟨datagram, hsent⟩
  · exact hcurrent
  · obtain ⟨index, hindex⟩ := List.mem_iff_getElem?.mp hsent
    have hsame := congrArg (·[index]?) htrace
    simpa [List.getElem?_map, hindex, Event.readdress] using hsame

def elsewhere (peer : Peer) : Peer → Peer :=
  Function.update id peer (if peer = .main then .rcopy else .main)

theorem elsewhere_ne (peer : Peer) : elsewhere peer peer ≠ peer := by
  simp only [elsewhere, Function.update_self]
  split <;> simp_all [eq_comm]

theorem elsewhere_of_ne {other : Peer} (h : other ≠ peer) : elsewhere peer other = other :=
  Function.update_of_ne h _ _

theorem Input.readdress_elsewhere (h : ∀ datagram, input ≠ .datagram peer datagram) :
    input.readdress (elsewhere peer) = input := by
  cases input with
  | silent => rfl
  | failure => rfl
  | datagram src received =>
      have hne : src ≠ peer := fun hsame => h received (hsame ▸ rfl)
      simp [Input.readdress, elsewhere_of_ne hne]

theorem Client.mentions_of_step {c : Client}
    (h : Mentions (c.step input).server (c.step input).trace peer) :
    Mentions c.server c.trace peer ∨ ∃ datagram, input = .datagram peer datagram := by
  by_contra hnone
  obtain ⟨hold, hread⟩ := not_or.mp hnone
  have hkept : ∀ other, Mentions c.server c.trace other → elsewhere peer other = other :=
    fun other hother => elsewhere_of_ne fun hsame => hold (hsame ▸ hother)
  obtain ⟨hserver, htrace⟩ := readdress_of_mentions hkept
  have hsame : c.readdress (elsewhere peer) = c := by
    unfold readdress
    rw [hserver, htrace]
  have hstep := @step_readdress (elsewhere peer) input c
  rw [hsame, Input.readdress_elsewhere (not_exists.mp hread)] at hstep
  refine elsewhere_ne peer (mentions_of_readdress ?_ ?_ h)
  · exact (congrArg Client.server hstep).symm
  · exact (congrArg Client.trace hstep).symm

theorem Server.mentions_of_step {s : Server}
    (h : Mentions (s.step input).client (s.step input).trace peer) :
    Mentions s.client s.trace peer ∨ ∃ datagram, input = .datagram peer datagram := by
  by_contra hnone
  obtain ⟨hold, hread⟩ := not_or.mp hnone
  have hkept : ∀ other, Mentions s.client s.trace other → elsewhere peer other = other :=
    fun other hother => elsewhere_of_ne fun hsame => hold (hsame ▸ hother)
  obtain ⟨hclient, htrace⟩ := readdress_of_mentions hkept
  have hsame : s.readdress (elsewhere peer) = s := by
    unfold readdress
    rw [hclient, htrace]
  have hstep := @step_readdress (elsewhere peer) input s
  rw [hsame, Input.readdress_elsewhere (not_exists.mp hread)] at hstep
  refine elsewhere_ne peer (mentions_of_readdress ?_ ?_ h)
  · exact (congrArg Server.client hstep).symm
  · exact (congrArg Server.trace hstep).symm

end SlidingWindow

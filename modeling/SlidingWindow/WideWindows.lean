import SlidingWindow.Recovery
import SlidingWindow.Arguments

/-! A window of more than 255 slots. `rcopy` accepts it and every child takes it, but the
loop that marks the slots of the child counts in a byte and never ends. Here the children
are as many as the main port forks, for whatever is delivered to it. -/
namespace SlidingWindow.WideWindows

open Library Transfer Completion Progress Recovery Arguments

variable {u : Upload} {c c' : Client} {s s' : Server} {w : World} {input : Input}

def Acknowledges (datagram : Datagram) : Prop :=
  flagOf datagram = some .rr ∨ flagOf datagram = some .srej

/-- A child that has not come past its setup. -/
structure Unserved (s : Server) : Prop where
  state : s.state ≠ .readyForNextDataPacket ∧ s.state ≠ .receivedData ∧ s.state ≠ .receivedEof
  writes : s.trace.writes = []
  sends : ∀ dst datagram, .sent dst datagram ∈ s.trace → ¬ Acknowledges datagram

theorem unserved_forked (client : Peer) (packet : Bytes) :
    Unserved (Server.forked client packet) where
  state := by simp [Server.forked]
  writes := rfl
  sends := by simp [Server.forked]

theorem Unserved.quiet (h : Unserved s) (htrace : s'.trace = s.trace)
    (hstate : s'.state ≠ .readyForNextDataPacket ∧ s'.state ≠ .receivedData ∧
      s'.state ≠ .receivedEof) : Unserved s' where
  state := hstate
  writes := htrace ▸ h.writes
  sends := htrace ▸ h.sends

theorem Unserved.answers (h : Unserved s) {before : Trace} {flag : Flag} {seqNum : ℕ}
    (htrace : s'.trace = s.trace ++ (before ++ [.sent s.client (plainDatagram [] flag seqNum)]))
    (hbefore : before.writes = [] ∧ ∀ dst datagram, .sent dst datagram ∉ before)
    (hflag : flag ≠ .rr ∧ flag ≠ .srej)
    (hstate : s'.state ≠ .readyForNextDataPacket ∧ s'.state ≠ .receivedData ∧
      s'.state ≠ .receivedEof) : Unserved s' where
  state := hstate
  writes := by simp [htrace, h.writes, hbefore.1]
  sends dst datagram hsent := by
    rw [htrace, List.mem_append, List.mem_append] at hsent
    rcases hsent with hold | hopened | hnew
    · exact h.sends dst datagram hold
    · exact absurd hopened (hbefore.2 _ _)
    · cases List.mem_singleton.mp hnew
      simpa [Acknowledges] using hflag

theorem Unserved.turn {width : ℕ} (hwide : 255 < width) (hsize : Child width s)
    (h : Unserved s) (hturn : Server.Turn s input s') : Unserved s' := by
  obtain ⟨hnext, hreceived, heof⟩ := h.state
  have hsend (flag : Flag) : s.trace ++ [.sent s.client (plainDatagram [] flag s.seqNum)] =
      s.trace ++ ([] ++ [.sent s.client (plainDatagram [] flag s.seqNum)]) := by
    rw [List.nil_append]
  cases hturn with
  | halted => exact h
  | keptOpen => exact h.answers (hsend _) (by simp) (by simp) (by simp [Server.acceptFileName])
  | @opened _ name =>
      refine @Unserved.answers s _ h [.opened (name.takeWhile (· ≠ 0))] .ackFileName s.seqNum ?_
        (by simp) (by simp) (by simp [Server.acceptFileName])
      dsimp only [Server.openFile, Server.acceptFileName, Server.sendAnswer, Server.log]
      rw [List.append_assoc]
  | refused => exact h.answers (hsend _) (by simp) (by simp) (by simp [Server.rejectFileName])
  | bufferSize =>
      exact h.answers (hsend _) (by simp) (by simp) (by simp [Server.receivedBufferSize])
  | windowSize =>
      exact h.answers (hsend _) (by simp) (by simp) (by simp [Server.receivedWindowSize])
  | allocated state allocates =>
      have hslots := DataPhase.slots_of_readyForDataPacketSetup allocates
      have hwidth := hsize.data (.inl state)
      omega
  | delivered state => exact absurd state hreceived
  | ended state => exact absurd state heof
  | dataUnanswered state | dataRead state => exact absurd state hnext
  | setupUnanswered =>
      refine h.quiet rfl ?_
      dsimp only
      split <;> simp
  | corrupted => exact h.quiet rfl h.state
  | setupRead =>
      refine h.quiet rfl ?_
      simp only [Server.read]
      unfold Server.setupState
      grind
  | _ => exact h.quiet rfl (by simp)

structure Unheard (u : Upload) (c : Client) : Prop where
  phase : ClientPhase u c
  edge : c.winMin = 0
  slots : c.inTransfer → c.state = .done ∨ c.state = .exited ∨ c.winMax = u.width
  room : c.state = .sendData → c.winCur < u.width
  sent : c.winCur ≤ u.width
  state : c.state ≠ .sendEofAndQuit ∧ c.state ≠ .sendDataSREJ

def Deaf (input : Input) : Prop :=
  ∀ src datagram received, input = .datagram src datagram →
    recvBuf datagram = .ok (some received) →
      received.flag ≠ some .rr ∧ received.flag ≠ some .srej

theorem Unheard.congr (h : Unheard u c) (hphase : ClientPhase u c') (hmin : c'.winMin = c.winMin)
    (hmax : c'.winMax = c.winMax) (hcur : c'.winCur = c.winCur)
    (hactive : c'.state = .done ∨ c'.state = .exited ∨ c.winMax = u.width)
    (hroom : c'.state = .sendData → c.winCur < u.width)
    (hstate : c'.state ≠ .sendEofAndQuit ∧ c'.state ≠ .sendDataSREJ) : Unheard u c' where
  phase := hphase
  edge := hmin.trans h.edge
  slots _ := hmax ▸ hactive
  room hsending := hcur ▸ hroom hsending
  sent := hcur ▸ h.sent
  state := hstate

theorem Unheard.turn (hcountable : u.Countable) (h : Unheard u c)
    (hupload : Sender.Uploading u c) (hdeaf : Deaf input) (hphase : ClientPhase u c')
    (hturn : Client.Turn c input c') : Unheard u c' := by
  have hcount := count_lt hcountable
  have hslots := h.slots hupload.transfer
  have hnever := h.state
  have hlistens {before : Client} (listens : c.listening? = some before) : before = c ∧
      (c.state = .receiveDataWindowOpen ∨ c.state = .receiveDataWindowClosed) := by
    rcases Client.listening?_eq_some listens with hwindow | ⟨-, heof⟩
    · exact hwindow
    · exact absurd heof hnever.1
  cases hturn with
  | halted => exact h
  | gaveUp | readFailed | emptySlot =>
      exact h.congr hphase rfl rfl rfl (by simp) (by simp) (by simp)
  | crashed listens =>
      obtain ⟨hsame, -⟩ := hlistens listens
      rw [hsame] at hphase ⊢
      exact h.congr hphase rfl rfl rfl (by simp) (by simp) (by simp)
  | expired state =>
      exact h.congr hphase rfl rfl rfl (by simp_all) (by simp) (by simp)
  | fileEnded state =>
      exact h.congr hphase rfl rfl rfl (by simp_all) (by simp) (by simp)
  | sent state chunk rest file =>
      have hroom := h.room state
      obtain ⟨hlt, -, -⟩ := hupload.next_chunk file
      have hcur : (c.sentChunk chunk rest).winCur = c.winCur + 1 := u32_of_lt (by omega)
      have hafter := Client.sentChunk_state c chunk rest
      refine ⟨hphase, h.edge, fun _ => ?_, fun hsending => ?_, ?_, ?_⟩
      · change _ ∨ _ ∨ c.winMax = u.width
        grind
      · grind
      · omega
      · grind
  | resent source =>
      rename_i before index slot held filled
      have hactive : c.winMax = u.width := by
        rcases Client.resending?_eq_some source with ⟨-, -, hstate⟩ | ⟨-, -, hstate, -⟩
        · exact absurd hstate hnever.2
        · simpa [hstate] using hslots
      obtain ⟨timeout, rfl⟩ := Client.resending?_frame source
      have hafter := Client.resent_state { c with timeout := timeout } slot
      exact h.congr hphase rfl rfl rfl (.inr (.inr hactive)) (by grind) (by grind)
  | polled state =>
      have hactive : c.winMax = u.width := by simpa [state] using hslots
      refine h.congr hphase rfl rfl rfl (.inr (.inr hactive)) (fun hsending => ?_) ?_
      · dsimp only at hsending
        grind
      · dsimp only
        grind
  | eofUnanswered state => exact absurd state hnever.1
  | corrupted listens =>
      obtain ⟨hsame, hwindow⟩ := hlistens listens
      have hactive : c.winMax = u.width := by
        rcases hwindow with hstate | hstate <;> simpa [hstate] using hslots
      rw [hsame] at hphase ⊢
      refine h.congr hphase rfl rfl rfl (.inr (.inr hactive)) (fun hsending => ?_) ?_
      · simp only [Client.heard, Client.isWindowClosed] at hsending
        grind
      · simp only [Client.heard]
        grind
  | acknowledged listens accepted flag =>
      exact absurd flag (hdeaf _ _ _ rfl accepted).1
  | rejected listens accepted flag =>
      exact absurd flag (hdeaf _ _ _ rfl accepted).2
  | ended listens =>
      obtain ⟨rfl, -⟩ := hlistens listens
      exact h.congr hphase rfl rfl rfl (by simp) (by simp) (by simp)

theorem Unheard.setupTurn (hcountable : u.Countable) (h : Unheard u c) (hprepare : Preparing u c)
    (hphase : ClientPhase u c') (hturn : Client.SetupTurn c input c') : Unheard u c' := by
  have hpositive := hcountable.positive
  have hsize := hprepare.winSize
  rcases hprepare.turn_cases hturn with hafter | ⟨-, rfl⟩
  · have hstate := hafter.state
    unfold Client.inSetup at hstate
    refine ⟨hphase, ?_, fun htransfer => ?_, fun hsending => ?_, ?_, by grind⟩
    · cases hturn with
      | answered =>
          unfold Client.answered
          split <;> exact h.edge
      | allocated => rfl
      | _ => exact h.edge
    · unfold Client.inTransfer at htransfer
      grind
    · grind
    · rw [hafter.fresh]
      exact Nat.zero_le _
  · refine ⟨hphase, rfl, fun _ => .inr (.inr hsize), fun _ => ?_, Nat.zero_le _, ?_⟩
    · change 0 < u.width
      omega
    · simp [Client.readyToSendDataSetup]

theorem Unheard.step (hcountable : u.Countable) (h : Unheard u c) (hdeaf : Deaf input) :
    Unheard u (c.step input) := by
  obtain ⟨hphase, -⟩ := h.phase.step hcountable input
  rcases h.phase.turns input with ⟨hprepare, -, hturn⟩ | ⟨hsame, -⟩ | ⟨hupload, hturn⟩
  · exact h.setupTurn hcountable hprepare hphase hturn
  · rwa [hsame]
  · exact h.turn hcountable hupload hdeaf hphase hturn

structure Starved (u : Upload) (w : World) : Prop where
  bound : Bound u.width u.bufSize w
  client : Unheard u w.client
  sends : ∀ dst datagram, .sent dst datagram ∈ w.client.trace → ¬ Acknowledges datagram
  children : ∀ s ∈ w.children, Unserved s

theorem FromClient.unacknowledging {top : ℕ} {complete : Prop} {datagram : Datagram}
    (h : u.FromClient top complete datagram) : ¬ Acknowledges datagram := by
  cases h <;> simp [Acknowledges]

theorem Starved.deaf (h : Starved u w) (peer : Peer) (choice : World.Choice) :
    Deaf (World.resolve (w.inbox peer) choice) := by
  intro src datagram received hinput haccepted
  have hinbox : ∀ src datagram, (src, datagram) ∈ w.inbox peer →
      True ∧ (datagram.length ≤ maxPacketLen ∧ ¬ Acknowledges datagram) := by
    intro src datagram hmem
    refine ⟨trivial, ?_⟩
    rcases World.mem_inbox.mp hmem with ⟨-, hsent⟩ | ⟨index, s, hchild, -, hsent⟩
    · exact ⟨(h.bound.client.sends _ _ hsent).length, h.sends _ _ hsent⟩
    · have hs := List.mem_of_getElem? hchild
      exact ⟨((h.bound.children s hs).sends _ _ hsent).length, (h.children s hs).sends _ _ hsent⟩
  have hoffered := World.offered_resolve (w.inbox peer) choice
  rw [hinput] at hoffered
  rcases (World.of_offered hinbox hoffered).2 with hcorrupt | ⟨hlength, hother⟩
  · exact absurd (hcorrupt.symm.trans haccepted) (by simp)
  · obtain ⟨-, hsame⟩ := recvBuf_eq_some_of_length hlength haccepted
    rw [hsame]
    exact not_or.mp hother

theorem Starved.step (hcountable : u.Countable) (hwide : 255 < u.width) (h : Starved u w)
    (label : World.Label) : Starved u (w.step label) := by
  have hbound := h.bound.step u.width_lt u.bufSize_range.2 label
  cases label with
  | client choice =>
      have hdeaf := h.deaf .rcopy choice
      obtain ⟨added, htrace, hadded⟩ :=
        h.client.phase.sends hcountable (fun _ => trivial) (World.resolve (w.inbox .rcopy) choice)
      refine ⟨hbound, h.client.step hcountable hdeaf, fun dst datagram hsent => ?_, h.children⟩
      change .sent dst datagram ∈ (w.client.step _).trace at hsent
      rw [htrace, List.mem_append] at hsent
      rcases hsent with hbefore | hnow
      · exact h.sends dst datagram hbefore
      · obtain ⟨found, hfound, hclient⟩ := hadded _ hnow
        cases hfound
        exact FromClient.unacknowledging hclient
  | child index choice =>
      refine ⟨hbound, h.client, h.sends, World.forall_children_step h.children ?_⟩
      intro s hchild
      have hs := List.mem_of_getElem? hchild
      exact (h.children s hs).turn hwide (h.bound.children s hs) (s.turn _)
  | main choice =>
      rcases w.step_main choice with hsame | ⟨src, datagram, received, -, -, hfork⟩
      · rwa [hsame]
      · rw [hfork] at hbound ⊢
        refine ⟨hbound, h.client, h.sends, fun s hs => ?_⟩
        rcases List.mem_append.mp hs with hbefore | hforked
        · exact h.children s hbefore
        · rw [List.mem_singleton.mp hforked]
          exact unserved_forked src received.packet

end SlidingWindow.WideWindows

import SlidingWindow.Completion

/-! The handshake of one client with any number of children. The client keeps one
record of what has been acknowledged and follows the child it heard last, so a child
that answers the window size need not be the one that answered the buffer size. -/
namespace SlidingWindow.Agreement

open Library Phases Transfer

variable {u : Upload} {c c' : Client} {s s' : Server} {w : World} {input : Input}

/-- The child will take the first data packet, and with the sizes of the client. -/
structure Agreed (u : Upload) (s : Server) : Prop where
  fileGood : s.fileGood = true
  bufGood : s.bufGood = true
  winGood : s.winGood = true
  bufSize : s.bufSize = u.bufSize
  winSize : s.winSize = u.width

theorem Agreed.accepts (h : Agreed u s) :
    s.setupState (some .data) = .readyForDataPacketsSetup := by
  simp [Server.setupState, h.fileGood, h.bufGood, h.winGood]

/-- What a child has recorded is what the client asked for, and only a child that has
recorded everything has answered the window size. -/
structure Knows (u : Upload) (s : Server) : Prop where
  bufSize : s.bufGood = true → s.bufSize = u.bufSize
  winSize : s.winGood = true → s.winSize = u.width
  client : s.client = .rcopy
  sends : ∀ dst datagram, .sent dst datagram ∈ s.trace → dst = .rcopy ∧
    ∃ flag seqNum, datagram = plainDatagram [] flag seqNum ∧
      (flag = .ackWindowSize → Agreed u s)

inductive Stage (u : Upload) (s : Server) : Prop
  | opening (state : s.state = .start ∨ s.state = .setupClientSocket ∨
      s.state = .receivedRemoteFileName)
  | ready (state : s.state = .readyForNextSetupPacket) (named : s.fileGood = true)
  | bufferSize (state : s.state = .receivedBufferSize) (named : s.fileGood = true)
      (size : fieldOf s.recvPacket.buf = u.bufSize)
  | windowSize (state : s.state = .receivedWindowSize) (named : s.fileGood = true)
      (size : fieldOf s.recvPacket.buf = u.width)
  | stopped (state : s.state = .timeoutOnClient ∨ s.state = .timeoutOnClientSetup ∨
      s.state = .done ∨ s.state = .exited ∨ s.state = .hung)

theorem Knows.answer (h : Knows u s) (hbuf : s'.bufGood = true → s'.bufSize = u.bufSize)
    (hwin : s'.winGood = true → s'.winSize = u.width) (hclient : s'.client = s.client)
    (hagreed : Agreed u s → Agreed u s') {before : Trace} {flag : Flag} {seqNum : ℕ}
    (htrace : s'.trace = s.trace ++ (before ++ [.sent s.client (plainDatagram [] flag seqNum)]))
    (hbefore : ∀ dst datagram, .sent dst datagram ∉ before)
    (hready : flag = .ackWindowSize → Agreed u s') : Knows u s' := by
  refine ⟨hbuf, hwin, hclient.trans h.client, fun dst datagram hsent => ?_⟩
  rw [htrace, List.mem_append] at hsent
  rcases hsent with hold | hnew
  · obtain ⟨hdst, flag, seqNum, hdatagram, hready⟩ := h.sends dst datagram hold
    exact ⟨hdst, flag, seqNum, hdatagram, fun hflag => hagreed (hready hflag)⟩
  · rcases List.mem_append.mp hnew with hopened | hanswer
    · exact absurd hopened (hbefore dst datagram)
    · simp only [List.mem_singleton, Event.sent.injEq] at hanswer
      exact ⟨hanswer.1.trans h.client, flag, seqNum, hanswer.2, hready⟩

theorem Knows.quiet (h : Knows u s) (hclient : s'.client = .rcopy)
    (hfile : s'.fileGood = s.fileGood) (hbuf : s'.bufGood = s.bufGood)
    (hwin : s'.winGood = s.winGood) (hbufSize : s'.bufSize = s.bufSize)
    (hwinSize : s'.winSize = s.winSize) (htrace : s'.trace = s.trace) : Knows u s' := by
  refine ⟨by rw [hbuf, hbufSize]; exact h.bufSize, by rw [hwin, hwinSize]; exact h.winSize,
    hclient, fun dst datagram hsent => ?_⟩
  obtain ⟨hdst, flag, seqNum, hdatagram, hready⟩ := h.sends dst datagram (htrace ▸ hsent)
  refine ⟨hdst, flag, seqNum, hdatagram, fun hflag => ?_⟩
  have hagreed := hready hflag
  exact ⟨hfile.trans hagreed.fileGood, hbuf.trans hagreed.bufGood, hwin.trans hagreed.winGood,
    hbufSize.trans hagreed.bufSize, hwinSize.trans hagreed.winSize⟩

section Inversion

theorem Stage.bufferSize_of (h : Stage u s) (hstate : s.state = .receivedBufferSize) :
    s.fileGood = true ∧ fieldOf s.recvPacket.buf = u.bufSize := by
  cases h with
  | bufferSize _ named size => exact ⟨named, size⟩
  | _ => simp_all

theorem Stage.windowSize_of (h : Stage u s) (hstate : s.state = .receivedWindowSize) :
    s.fileGood = true ∧ fieldOf s.recvPacket.buf = u.width := by
  cases h with
  | windowSize _ named size => exact ⟨named, size⟩
  | _ => simp_all

theorem Stage.ready_of (h : Stage u s) (hstate : s.state = .readyForNextSetupPacket) :
    s.fileGood = true := by
  cases h with
  | ready _ named => exact named
  | _ => simp_all

theorem Stage.not_receiving (h : Stage u s) : s.state ≠ .readyForDataPacketsSetup ∧
    s.state ≠ .readyForNextDataPacket ∧ s.state ≠ .receivedData ∧ s.state ≠ .receivedEof := by
  cases h <;> grind

end Inversion

theorem knows_turn (h : Knows u s) (hstage : Stage u s) (hreads : Reads u 0 False input)
    (hfull : s.state = .receivedWindowSize → s.bufGood = true)
    (hturn : Server.Turn s input s') : Knows u s' ∧ Stage u s' := by
  have hclient := h.client
  have hquiet {state : ServerState} (hover : state = .timeoutOnClient ∨
      state = .timeoutOnClientSetup ∨ state = .done ∨ state = .exited ∨ state = .hung) :
      Knows u { s with state := state } ∧ Stage u { s with state := state } :=
    ⟨h.quiet hclient rfl rfl rfl rfl rfl rfl, .stopped hover⟩
  cases hturn with
  | halted => exact ⟨h, hstage⟩
  | gaveUp => exact hquiet (by simp)
  | started => exact ⟨h.quiet hclient rfl rfl rfl rfl rfl rfl, .opening (by simp)⟩
  | socketMade => exact ⟨h.quiet hclient rfl rfl rfl rfl rfl rfl, .opening (by simp)⟩
  | badName => exact hquiet (by simp)
  | keptOpen =>
      refine ⟨@Knows.answer u s _ h h.bufSize h.winSize rfl (fun hagreed => ?_) [] _ _ rfl
        (by simp) (by simp), .ready rfl rfl⟩
      exact ⟨rfl, hagreed.bufGood, hagreed.winGood, hagreed.bufSize, hagreed.winSize⟩
  | refused =>
      refine ⟨@Knows.answer u s _ h h.bufSize h.winSize rfl (fun hagreed => ?_) [] _ _ rfl
        (by simp) (by simp), .stopped (by simp [Server.rejectFileName])⟩
      exact ⟨hagreed.fileGood, hagreed.bufGood, hagreed.winGood, hagreed.bufSize,
        hagreed.winSize⟩
  | opened =>
      dsimp only [Server.openFile, Server.acceptFileName, Server.sendAnswer, Server.log]
      refine ⟨@Knows.answer u s _ h h.bufSize h.winSize rfl (fun hagreed => ?_) [.opened _] _ _
        (List.append_assoc ..) (by simp) (by simp), .ready rfl rfl⟩
      exact ⟨rfl, hagreed.bufGood, hagreed.winGood, hagreed.bufSize, hagreed.winSize⟩
  | bufferSize state =>
      obtain ⟨hnamed, hsize⟩ := hstage.bufferSize_of state
      refine ⟨@Knows.answer u s _ h (fun _ => hsize) h.winSize rfl (fun hagreed => ?_) [] _ _
        rfl (by simp) (by simp), .ready rfl hnamed⟩
      exact ⟨hnamed, rfl, hagreed.winGood, hsize, hagreed.winSize⟩
  | windowSize state =>
      obtain ⟨hnamed, hsize⟩ := hstage.windowSize_of state
      have hagreed : Agreed u s.receivedWindowSize :=
        ⟨hnamed, hfull state, rfl, h.bufSize (hfull state), hsize⟩
      exact ⟨@Knows.answer u s _ h h.bufSize (fun _ => hsize) rfl (fun _ => hagreed) [] _ _ rfl
        (by simp) (fun _ => hagreed), .ready rfl hnamed⟩
  | setupUnanswered state =>
      have hnamed := hstage.ready_of state
      refine ⟨h.quiet hclient rfl rfl rfl rfl rfl rfl, ?_⟩
      by_cases hlate : 10 < u32 (s.timeout + 1)
      · exact .stopped (by simp [hlate])
      · exact .ready (by simp [hlate]) hnamed
  | crashed => exact hquiet (by simp)
  | corrupted state =>
      refine ⟨h.quiet hreads.1 rfl rfl rfl rfl rfl rfl, ?_⟩
      rcases state with state | state
      · exact .ready state (hstage.ready_of state)
      · exact absurd state hstage.not_receiving.2.1
  | setupRead state accepted =>
      rename_i src datagram received
      have hnamed := hstage.ready_of state
      obtain ⟨hsrc, hfrom, hflag⟩ := hreads.received accepted
      refine ⟨h.quiet hsrc rfl rfl rfl rfl rfl rfl, ?_⟩
      rcases hfrom.flag_of_setup with hname | hbuffer | hwindow
      · rw [hflag.trans hname]
        exact .opening (.inr (.inr rfl))
      · rw [hflag.trans hbuffer]
        exact .bufferSize rfl hnamed (hfrom.bufferSize_of_flag hbuffer)
      · rw [hflag.trans hwindow]
        exact .windowSize rfl hnamed (hfrom.windowSize_of_flag hwindow)
  | allocated state | diverged state => exact absurd state hstage.not_receiving.1
  | dataUnanswered state | dataRead state => exact absurd state hstage.not_receiving.2.1
  | delivered state | undelivered state | stuck state =>
      exact absurd state hstage.not_receiving.2.2.1
  | ended state | aborted state => exact absurd state hstage.not_receiving.2.2.2

structure Negotiating (u : Upload) (w : World) : Prop where
  client : Preparing u w.client
  server : w.client.server ≠ .rcopy
  sends : ∀ dst datagram, .sent dst datagram ∈ w.client.trace →
    dst ≠ .rcopy ∧ u.FromClient 0 False datagram
  children : ∀ s ∈ w.children, Knows u s ∧ Stage u s

/-- The condition on one turn of a child, as long as the client is in its setup: the
window size is answered after the buffer size. -/
def Ordered (w : World) : World.Label → Prop
  | .child index _ => w.client.inSetup → ∀ s, w.children[index]? = some s →
      s.state = .receivedWindowSize → s.bufGood = true
  | _ => True

theorem Negotiating.reads (h : Negotiating u w) (index : ℕ) (choice : World.Choice) :
    Reads u 0 False (World.resolve (w.inbox (.child index)) choice) := by
  have hoffered := World.offered_resolve (w.inbox (.child index)) choice
  generalize World.resolve (w.inbox (.child index)) choice = input at hoffered
  cases input with
  | silent => trivial
  | failure => trivial
  | datagram src datagram =>
      refine World.of_offered (P := (· = .rcopy)) (fun src datagram hmem => ?_) hoffered
      rcases World.mem_inbox.mp hmem with ⟨rfl, hsent⟩ | ⟨other, s, hchild, -, hsent⟩
      · exact ⟨rfl, (h.sends _ _ hsent).2⟩
      · have := ((h.children s (List.mem_of_getElem? hchild)).1.sends _ _ hsent).1
        contradiction

theorem Negotiating.heard (h : Negotiating u w) {choice : World.Choice} {src : Peer}
    {datagram : Datagram}
    (hinput : World.resolve (w.inbox .rcopy) choice = .datagram src datagram) :
    ∃ index s original, src = .child index ∧ w.children[index]? = some s ∧
      .sent .rcopy original ∈ s.trace ∧ (original = datagram ∨ recvBuf datagram = .ok none) := by
  have hinbox {original : Datagram} (hmem : (src, original) ∈ w.inbox .rcopy) :
      ∃ index s, src = .child index ∧ w.children[index]? = some s ∧
        .sent .rcopy original ∈ s.trace := by
    rcases World.mem_inbox.mp hmem with ⟨-, hsent⟩ | ⟨index, s, hchild, hsrc, hsent⟩
    · exact absurd rfl (h.sends _ _ hsent).1
    · exact ⟨index, s, hsrc, hchild, hsent⟩
  have hoffered := World.offered_resolve (w.inbox .rcopy) choice
  rw [hinput] at hoffered
  rcases hoffered with hmem | ⟨hcorrupt, original, hmem⟩
  · obtain ⟨index, s, hsrc, hchild, hsent⟩ := hinbox hmem
    exact ⟨index, s, datagram, hsrc, hchild, hsent, .inl rfl⟩
  · obtain ⟨index, s, hsrc, hchild, hsent⟩ := hinbox hmem
    exact ⟨index, s, original, hsrc, hchild, hsent, .inr hcorrupt⟩

theorem enters_transfer (hturn : Client.SetupTurn c input c')
    (hwait : c.state = .waitForSetupAcks) (henters : c'.state = .readyToSendDataSetup) :
    ∃ src datagram received, input = .datagram src datagram ∧ c'.server = src ∧
      recvBuf datagram = .ok (some received) ∧ received.flag = some .ackWindowSize := by
  cases hturn with
  | answered state accepted =>
      rename_i src datagram received
      refine ⟨src, datagram, received, rfl, ?_, accepted, ?_⟩
      · unfold Client.answered
        split <;> rfl
      · unfold Client.answered at henters
        grind
  | unanswered =>
      simp only [Client.unansweredState] at henters
      grind
  | corrupted => simp [hwait] at henters
  | _ => simp_all

theorem Negotiating.client_step (h : Negotiating u w) (choice : World.Choice) :
    (w.step (.client choice)).client.inTransfer ∨
      Negotiating u (w.step (.client choice)) := by
  have hserver {src : Peer} {datagram : Datagram}
      (hinput : World.resolve (w.inbox .rcopy) choice = .datagram src datagram) :
      src ≠ .rcopy := by
    obtain ⟨index, s, original, rfl, -⟩ := h.heard hinput
    simp
  simp only [World.step]
  rcases h.client.state with hsetup | hdone | hexited
  · have hturn := Client.setupTurn hsetup (World.resolve (w.inbox .rcopy) choice)
    obtain ⟨added, htrace, hadded⟩ := @sends_setupTurn u _ _ _ False h.client hturn
    rcases h.client.turn_cases hturn with hprepare | ⟨-, henter⟩
    · refine .inr ⟨hprepare, ?_, fun dst datagram hsent => ?_, h.children⟩
      · rcases (ClientPhase.preparing h.client).server_cases
          (World.resolve (w.inbox .rcopy) choice) with hsame | ⟨src, datagram, hinput, hsrc⟩
        · exact hsame ▸ h.server
        · exact hsrc ▸ hserver hinput
      · rw [htrace, List.mem_append] at hsent
        rcases hsent with hbefore | hnow
        · exact h.sends dst datagram hbefore
        · obtain ⟨found, hfound, hfrom⟩ := hadded _ hnow
          cases hfound
          rw [hprepare.fresh] at hfrom
          exact ⟨h.server, hfrom⟩
    · rw [henter]
      exact .inl (.inl rfl)
  · exact .inl (Client.step_inTransfer (by simp [Client.inTransfer, hdone]))
  · exact .inl (Client.step_inTransfer (by simp [Client.inTransfer, hexited]))

theorem knows_forked (u : Upload) (packet : Bytes) :
    Knows u (Server.forked .rcopy packet) ∧ Stage u (Server.forked .rcopy packet) :=
  ⟨⟨by simp [Server.forked], by simp [Server.forked], rfl, by simp [Server.forked]⟩,
    .opening (.inl rfl)⟩

theorem Negotiating.main_step (h : Negotiating u w) (choice : World.Choice) :
    Negotiating u (w.step (.main choice)) := by
  rcases w.step_main choice with hsame | ⟨src, datagram, received, hinput, haccepted, hfork⟩
  · rwa [hsame]
  · have hoffered := World.offered_resolve (w.inbox .main) choice
    rw [hinput] at hoffered
    have hsrc : src = .rcopy := by
      rcases hoffered with hmem | ⟨hcorrupt, -⟩
      · rcases World.mem_inbox.mp hmem with ⟨hsrc, -⟩ | ⟨index, s, hchild, -, hsent⟩
        · exact hsrc
        · have := ((h.children s (List.mem_of_getElem? hchild)).1.sends _ _ hsent).1
          contradiction
      · simp [hcorrupt] at haccepted
    rw [hfork, hsrc]
    refine ⟨h.client, h.server, h.sends, fun s hs => ?_⟩
    rcases List.mem_append.mp hs with hold | hnew
    · exact h.children s hold
    · rw [List.mem_singleton.mp hnew]
      exact knows_forked u received.packet

def Handshake (u : Upload) (w : World) : Prop := w.client.inTransfer ∨ Negotiating u w

theorem not_inSetup (h : c.inTransfer) : ¬ c.inSetup := by
  intro hsetup
  unfold Client.inTransfer at h
  unfold Client.inSetup at hsetup
  grind

theorem Handshake.step (h : Handshake u w) {label : World.Label} (hordered : Ordered w label) :
    Handshake u (w.step label) := by
  rcases h with htransfer | hnegotiating
  · cases label with
    | client choice => exact .inl (Client.step_inTransfer htransfer)
    | child index choice => exact .inl htransfer
    | main choice =>
        rcases w.step_main choice with hsame | ⟨src, datagram, received, -, -, hfork⟩
        · rw [hsame]
          exact .inl htransfer
        · rw [hfork]
          exact .inl htransfer
  · cases label with
    | client choice => exact hnegotiating.client_step choice
    | main choice => exact .inr (hnegotiating.main_step choice)
    | child index choice =>
        rcases hnegotiating.client.state with hsetup | hhalted
        · refine .inr ⟨hnegotiating.client, hnegotiating.server, hnegotiating.sends, ?_⟩
          refine World.forall_children_step hnegotiating.children fun s hchild => ?_
          obtain ⟨hknows, hstage⟩ := hnegotiating.children s (List.mem_of_getElem? hchild)
          exact knows_turn hknows hstage (hnegotiating.reads index choice)
            (hordered hsetup s hchild) (Server.turn s _)
        · refine .inl ?_
          change w.client.inTransfer
          unfold Client.inTransfer
          rcases hhalted with h | h <;> simp [h]

theorem negotiating_session (u : Upload) : Negotiating u (Completion.session u) where
  client := ⟨.inl (.inl rfl), rfl, rfl, rfl, rfl, rfl, rfl⟩
  server := by simp [Completion.session, World.start, Client.started]
  sends dst datagram hsent := by
    simp [Completion.session, World.start, Client.started] at hsent
  children := by simp [Completion.session, World.start]

/-- When a turn of the client enters the transfer, the child whose answer made it do so,
and to which it will send, has agreed. -/
def Agrees (u : Upload) (w : World) : World.Label → Prop
  | .client choice =>
      let c := w.client.step (World.resolve (w.inbox .rcopy) choice)
      w.client.state = .waitForSetupAcks → c.state = .readyToSendDataSetup →
        ∃ index s, c.server = .child index ∧ w.children[index]? = some s ∧ Agreed u s ∧
          s.setupState (some .data) = .readyForDataPacketsSetup
  | _ => True

theorem Handshake.agrees (h : Handshake u w) (label : World.Label) : Agrees u w label := by
  cases label with
  | main choice => trivial
  | child index choice => trivial
  | client choice =>
      intro hwait henters
      have hsetup : w.client.inSetup := by simp [Client.inSetup, hwait]
      rcases h with htransfer | hnegotiating
      · exact absurd hsetup (not_inSetup htransfer)
      · obtain ⟨src, datagram, received, hinput, hserver, haccepted, hflag⟩ :=
          enters_transfer (Client.setupTurn hsetup _) hwait henters
        obtain ⟨index, s, original, rfl, hchild, hsent, horiginal⟩ := hnegotiating.heard hinput
        obtain ⟨hknows, -⟩ := hnegotiating.children s (List.mem_of_getElem? hchild)
        obtain ⟨-, flag, seqNum, rfl, hagreed⟩ := hknows.sends _ _ hsent
        rcases horiginal with rfl | hcorrupt
        · obtain ⟨-, hread⟩ := recvBuf_eq_some_of_length (by simp [maxPacketLen]) haccepted
          rw [flagOf_plainDatagram] at hread
          have hready := hagreed (Option.some.inj (hread.symm.trans hflag))
          exact ⟨index, s, hserver, hchild, hready, hready.accepts⟩
        · simp [hcorrupt] at haccepted

/-- In every run in which each child that is asked for the window size, while the client
is in its setup, has the buffer size already, the client enters the transfer with a child
that agrees with it. -/
theorem setup_agrees (labels : List World.Label)
    (hordered : Runs.Along World.step Ordered (Completion.session u) labels) :
    Runs.Along World.step (Agrees u) (Completion.session u) labels :=
  Runs.along_of_invariant (Handshake u) (fun _ _ h hok => h.step hok)
    (fun _ label h _ => h.agrees label) (.inr (negotiating_session u)) hordered

instance : Decidable c.inSetup := inferInstanceAs (Decidable (_ ∨ _))

instance : (label : World.Label) → Decidable (Ordered w label)
  | .child index _ =>
      inferInstanceAs (Decidable (w.client.inSetup → ∀ s ∈ w.children[index]?,
        s.state = .receivedWindowSize → s.bufGood = true))
  | .client _ => .isTrue trivial
  | .main _ => .isTrue trivial

theorem setup_agrees_handshake :
    Runs.Along World.step (Agrees Completion.letter) (Completion.session Completion.letter)
      Completion.handshake :=
  setup_agrees Completion.handshake (by decide +kernel)

/-- Two children are forked. The first is asked for the buffer size, and then, when the
second is heard and the buffer size for it is lost, the second for the window size. -/
def mixedAnswers : List World.Label :=
  [.client .quiet, .client .quiet, .main (.deliver 0), .main (.deliver 0),
    .child 0 .quiet, .child 0 .quiet, .child 0 .quiet,
    .child 1 .quiet, .child 1 .quiet, .child 1 .quiet,
    .client (.deliver 0), .client .quiet, .child 0 (.deliver 0), .child 0 .quiet,
    .client (.deliver 1), .client .quiet, .client (.deliver 2), .client .quiet,
    .client .quiet, .client .quiet, .child 1 (.deliver 1), .child 1 .quiet]

/-- The client enters the transfer with a child that knows no buffer size. -/
theorem mixed_answers_disagree :
    ¬ Runs.Along World.step (Agrees Completion.letter)
      (Completion.session Completion.letter) (mixedAnswers ++ [.client (.deliver 3)]) := by
  intro h
  have hagrees := (Runs.along_append.mp h).2.1
  obtain ⟨index, s, hserver, hchild, hagreed, -⟩ :=
    hagrees (by decide +kernel) (by decide +kernel)
  have hsecond : ((Runs.run World.step (Completion.session Completion.letter)
      mixedAnswers).step (.client (.deliver 3))).client.server = .child 1 := by
    decide +kernel
  obtain rfl : index = 1 := Peer.child.inj (hserver.symm.trans hsecond)
  have hlacks : (Runs.run World.step (Completion.session Completion.letter)
      mixedAnswers).children[1]?.map (·.bufGood) = some false := by
    decide +kernel
  rw [hchild] at hlacks
  simp [hagreed.bufGood] at hlacks

end SlidingWindow.Agreement

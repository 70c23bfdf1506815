import SlidingWindow.Agreement
import SlidingWindow.Progress

/-! A session can be completed from wherever it has got to. Before the transfer, the
answer to the file name is delivered once more and the handshake runs again from there. -/
namespace SlidingWindow.Recovery

open Library Phases Transfer Underway Progress Completion Agreement

variable {u : Upload} {c c' : Client} {s s' : Server} {w : World} {input : Input}

structure Said (s : Server) : Prop where
  fileName : s.fileGood = true →
    ∃ seqNum, .sent .rcopy (plainDatagram [] .ackFileName seqNum) ∈ s.trace
  bufferSize : ∀ seqNum,
    .sent .rcopy (plainDatagram [] .ackBufferSize seqNum) ∈ s.trace → s.bufGood = true

theorem plainDatagram_ne {flag flag' : Flag} (hne : flag ≠ flag') (seqNum seqNum' : ℕ) :
    plainDatagram [] flag seqNum ≠ plainDatagram [] flag' seqNum' := by
  intro heq
  have hflag := congrArg flagOf heq
  simp only [flagOf_plainDatagram, Option.some.injEq] at hflag
  exact hne hflag

theorem Said.answer (h : Said s) (before : Trace) (flag : Flag)
    (htrace : s'.trace = s.trace ++ (before ++ [.sent .rcopy (plainDatagram [] flag s.seqNum)]))
    (hbefore : ∀ dst datagram, .sent dst datagram ∉ before)
    (hfile : s'.fileGood = true → s.fileGood = true ∨ flag = .ackFileName)
    (hbuf : s.bufGood = true → s'.bufGood = true)
    (hflag : flag = .ackBufferSize → s'.bufGood = true) : Said s' where
  fileName hgood := by
    rw [htrace]
    rcases hfile hgood with hbefore | rfl
    · obtain ⟨seqNum, hsent⟩ := h.fileName hbefore
      exact ⟨seqNum, List.mem_append_left _ hsent⟩
    · exact ⟨s.seqNum, List.mem_append_right _
        (List.mem_append_right _ (List.mem_singleton_self _))⟩
  bufferSize seqNum hsent := by
    rw [htrace, List.mem_append, List.mem_append] at hsent
    rcases hsent with hold | hopened | hnew
    · exact hbuf (h.bufferSize seqNum hold)
    · exact absurd hopened (hbefore _ _)
    · simp only [List.mem_singleton, Event.sent.injEq, true_and] at hnew
      by_contra hmissing
      exact plainDatagram_ne (fun heq => hmissing (hflag heq.symm)) _ _ hnew

theorem Said.quiet (h : Said s) (htrace : s'.trace = s.trace)
    (hfile : s'.fileGood = s.fileGood) (hbuf : s'.bufGood = s.bufGood) : Said s' where
  fileName := by rw [htrace, hfile]; exact h.fileName
  bufferSize := by rw [htrace, hbuf]; exact h.bufferSize

theorem Said.turn (h : Said s) (hstage : Stage u s) (hclient : s.client = .rcopy)
    (hturn : Server.Turn s input s') : Said s' := by
  have hsend (flag : Flag) : s.trace ++ [.sent s.client (plainDatagram [] flag s.seqNum)] =
      s.trace ++ ([] ++ [.sent .rcopy (plainDatagram [] flag s.seqNum)]) := by
    rw [hclient, List.nil_append]
  cases hturn with
  | keptOpen => exact h.answer [] _ (hsend _) (by simp) (fun _ => .inr rfl) id (by simp)
  | @opened _ name =>
      refine h.answer [.opened (name.takeWhile (· ≠ 0))] .ackFileName ?_ (by simp)
        (fun _ => .inr rfl) id (by simp)
      dsimp only [Server.openFile, Server.acceptFileName, Server.sendAnswer, Server.log]
      rw [hclient, List.append_assoc]
  | refused => exact h.answer [] _ (hsend _) (by simp) (fun hgood => .inl hgood) id (by simp)
  | bufferSize =>
      exact h.answer [] _ (hsend _) (by simp) (fun hgood => .inl hgood) (fun _ => rfl) fun _ => rfl
  | windowSize => exact h.answer [] _ (hsend _) (by simp) (fun hgood => .inl hgood) id (by simp)
  | allocated state | diverged state => exact absurd state hstage.not_receiving.1
  | dataUnanswered state | dataRead state => exact absurd state hstage.not_receiving.2.1
  | delivered state | undelivered state => exact absurd state hstage.not_receiving.2.2.1
  | ended state => exact absurd state hstage.not_receiving.2.2.2
  | _ => exact h.quiet rfl rfl rfl

/-- Both are still in the setup, and the client has learnt what it knows from the child. -/
structure Greeting (u : Upload) (w : World) (s : Server) : Prop extends Carries u w s where
  negotiating : Negotiating u w
  named : Named u s
  said : Said s
  bufSuccess : w.client.bufSuccess = true ∨ w.client.state = .sendWindowSize →
    s.bufGood = true
  windowSent : ∀ dst datagram, .sent dst datagram ∈ w.client.trace →
    flagOf datagram = some .windowSize → s.bufGood = true
  ordered : s.state = .receivedWindowSize → s.bufGood = true
  ready : w.client.state = .readyToSendDataSetup → w.client.server = .child 0 ∧ Accepting s

theorem Greeting.knows (h : Greeting u w s) : Knows u s ∧ Stage u s :=
  h.negotiating.children s (by simp [h.children])

theorem Greeting.ordered_turn (h : Greeting u w s)
    (hoffered : World.Offered (w.inbox (.child 0)) input) (hturn : Server.Turn s input s')
    (hstate : s'.state = .receivedWindowSize) : s.bufGood = true := by
  obtain ⟨hknows, hstage⟩ := h.knows
  cases hturn with
  | halted => exact h.ordered hstate
  | setupRead state accepted =>
      rename_i src datagram received
      have hflag : received.flag = some .windowSize := by
        simp only [Server.read] at hstate
        unfold Server.setupState at hstate
        grind
      rcases hoffered with hmem | ⟨hcorrupt, -⟩
      · rcases World.mem_inbox.mp hmem with ⟨-, hsent⟩ | ⟨index, child, hchild, -, hsent⟩
        · have hlength := (h.negotiating.sends _ _ hsent).2.length.2
          obtain ⟨-, hread⟩ := recvBuf_eq_some_of_length hlength accepted
          exact h.windowSent _ _ hsent (hread ▸ hflag)
        · obtain rfl := only_child h.children hchild
          have := (hknows.sends _ _ hsent).1
          contradiction
      · simp [hcorrupt] at accepted
  | corrupted state => rcases state with state | state <;> simp [state] at hstate
  | setupUnanswered =>
      dsimp only at hstate
      split at hstate <;> contradiction
  | allocated state | diverged state => exact absurd state hstage.not_receiving.1
  | dataUnanswered state | dataRead state => exact absurd state hstage.not_receiving.2.1
  | delivered state | undelivered state => exact absurd state hstage.not_receiving.2.2.1
  | ended state => exact absurd state hstage.not_receiving.2.2.2
  | _ => simp [Server.acceptFileName, Server.rejectFileName, Server.receivedBufferSize,
      Server.receivedWindowSize] at hstate

theorem Greeting.child_step (hcountable : u.Countable) (h : Greeting u w s)
    (choice : World.Choice) :
    Greeting u (w.step (.child 0 choice))
      (s.step (World.resolve (w.inbox (.child 0)) choice)) := by
  obtain ⟨hknows, hstage⟩ := h.knows
  have hoffered := World.offered_resolve (w.inbox (.child 0)) choice
  have hreads := reads_of_offered h.pair h.children hoffered
  have hturn := s.turn (World.resolve (w.inbox (.child 0)) choice)
  have hnegotiated := knows_turn hknows hstage (h.negotiating.reads 0 choice) h.ordered hturn
  obtain ⟨-, hbuf, -⟩ := flags_kept hturn
  have hstep : w.step (.child 0 choice) =
      { w with children := [s.step (World.resolve (w.inbox (.child 0)) choice)] } := by
    simp only [World.step, h.children]
    rfl
  rw [hstep]
  refine ⟨⟨rfl, h.pair.server_step hcountable hreads⟩,
    ⟨h.negotiating.client, h.negotiating.server, h.negotiating.sends, fun child hchild => ?_⟩,
    h.named.turn hreads hturn, h.said.turn hstage hknows.client hturn,
    fun hclient => hbuf (h.bufSuccess hclient),
    fun dst datagram hsent hflag => hbuf (h.windowSent dst datagram hsent hflag),
    fun hstate => hbuf (h.ordered_turn hoffered hturn hstate),
    fun hclient => ⟨(h.ready hclient).1, (h.ready hclient).2.turn hturn⟩⟩
  obtain rfl := List.mem_singleton.mp hchild
  exact hnegotiated

theorem Greeting.heard (h : Greeting u w s) {choice : World.Choice} {src : Peer}
    {datagram : Datagram} {received : Received}
    (hinput : World.resolve (w.inbox .rcopy) choice = .datagram src datagram)
    (haccepted : recvBuf datagram = .ok (some received)) :
    src = .child 0 ∧ ∃ flag seqNum, received.flag = some flag ∧
      .sent .rcopy (plainDatagram [] flag seqNum) ∈ s.trace ∧ flag ≠ .rejWindowSize ∧
      (flag = .ackWindowSize → Agreed u s) := by
  obtain ⟨index, child, original, rfl, hchild, hsent, horiginal⟩ := h.negotiating.heard hinput
  obtain rfl := only_child h.children hchild
  have hindex : index = 0 := by
    rw [h.children] at hchild
    by_contra hne
    rw [List.getElem?_eq_none (by simp; omega)] at hchild
    contradiction
  obtain ⟨-, flag, seqNum, rfl, hagreed⟩ := h.knows.1.sends _ _ hsent
  rcases horiginal with rfl | hcorrupt
  · obtain ⟨-, hread⟩ := recvBuf_eq_some_of_length (by simp [maxPacketLen]) haccepted
    rw [flagOf_plainDatagram] at hread
    refine ⟨by rw [hindex], flag, seqNum, hread, hsent, ?_, hagreed⟩
    rintro rfl
    have hserver := (h.pair.serving.sends _ _ hsent).2
    generalize hsame : plainDatagram [] .rejWindowSize seqNum = datagram at hserver
    have hflag : flagOf datagram = some .rejWindowSize := by simp [← hsame]
    cases hserver with
    | answer flag seqNum setup =>
        simp only [flagOf_plainDatagram, Option.some.injEq] at hflag
        simp [Upload.setupAnswers, hflag] at setup
    | _ => simp at hflag
  · simp [hcorrupt] at haccepted

theorem Greeting.bufSuccess_step (h : Greeting u w s) (hsetup : w.client.inSetup)
    (choice : World.Choice)
    (hclient : (w.step (.client choice)).client.bufSuccess = true ∨
      (w.step (.client choice)).client.state = .sendWindowSize) : s.bufGood = true := by
  have hturn := Client.setupTurn hsetup (World.resolve (w.inbox .rcopy) choice)
  change (w.client.step _).bufSuccess = true ∨ (w.client.step _).state = _ at hclient
  generalize hinput : World.resolve (w.inbox .rcopy) choice = input at hturn hclient
  generalize w.client.step input = c' at hturn hclient
  have hbefore := h.bufSuccess
  cases hturn with
  | answered state accepted =>
      obtain ⟨-, flag, seqNum, hflag, hsent, hnot, -⟩ := h.heard hinput accepted
      by_cases hanswer : flag = .ackBufferSize
      · exact h.said.bufferSize seqNum (hanswer ▸ hsent)
      · refine hbefore (.inl ?_)
        rw [hflag] at hclient
        unfold Client.answered at hclient
        grind
  | unanswered state =>
      refine hbefore (.inl ?_)
      simp only [Client.unansweredState] at hclient
      grind
  | corrupted state => exact hbefore (by simpa [state] using hclient)
  | fileName | bufferSize | windowSize =>
      exact hbefore (.inl (by simpa [Client.sendRemoteFileName, Client.sendBufferSize,
        Client.sendWindowSize, Client.sendSetup, Client.send] using hclient))
  | allocated =>
      exact hbefore (.inl (by simpa [Client.readyToSendDataSetup] using hclient))
  | _ => exact hbefore (.inl (by simpa using hclient))

theorem Greeting.windowSent_step (h : Greeting u w s) (hsetup : w.client.inSetup)
    (choice : World.Choice) {dst : Peer} {datagram : Datagram}
    (hsent : .sent dst datagram ∈ (w.step (.client choice)).client.trace)
    (hflag : flagOf datagram = some .windowSize) : s.bufGood = true := by
  have hturn := Client.setupTurn hsetup (World.resolve (w.inbox .rcopy) choice)
  change .sent dst datagram ∈ (w.client.step _).trace at hsent
  generalize World.resolve (w.inbox .rcopy) choice = input at hturn hsent
  generalize w.client.step input = c' at hturn hsent
  have hold (hsame : c'.trace = w.client.trace) : s.bufGood = true :=
    h.windowSent dst datagram (hsame ▸ hsent) hflag
  have hnew {data : Bytes} {flag : Flag} (hne : flag ≠ .windowSize)
      (hsame : c'.trace = w.client.trace ++
        [.sent w.client.server (plainDatagram data flag w.client.seqNum)]) :
      s.bufGood = true := by
    rw [hsame, List.mem_append, List.mem_singleton] at hsent
    rcases hsent with hbefore | hnow
    · exact h.windowSent dst datagram hbefore hflag
    · cases hnow
      simp only [flagOf_plainDatagram, Option.some.injEq] at hflag
      exact absurd hflag hne
  cases hturn with
  | fileName => exact hnew (by decide) rfl
  | bufferSize => exact hnew (by decide) rfl
  | windowSize state => exact h.bufSuccess (.inr state)
  | answered =>
      refine hold ?_
      unfold Client.answered
      split <;> rfl
  | _ => exact hold rfl

theorem Greeting.ready_step (h : Greeting u w s) (hsetup : w.client.inSetup)
    (choice : World.Choice)
    (hready : (w.step (.client choice)).client.state = .readyToSendDataSetup) :
    (w.step (.client choice)).client.server = .child 0 ∧ Accepting s := by
  have hturn := Client.setupTurn hsetup (World.resolve (w.inbox .rcopy) choice)
  change (w.client.step _).state = _ at hready
  change (w.client.step _).server = _ ∧ _
  have hwait : w.client.state = .waitForSetupAcks := by
    generalize World.resolve (w.inbox .rcopy) choice = input at hturn hready
    generalize w.client.step input = c' at hturn hready
    cases hturn with
    | unanswered state | answered state => exact state
    | corrupted state => exact state
    | _ => simp_all [Client.sendRemoteFileName, Client.sendBufferSize, Client.sendWindowSize,
        Client.sendSetup, Client.readyToSendDataSetup]
  obtain ⟨src, datagram, received, hinput, hserver, haccepted, hflag⟩ :=
    enters_transfer hturn hwait hready
  obtain ⟨hsrc, flag, seqNum, hread, -, -, hagreed⟩ := h.heard hinput haccepted
  have hready := hagreed (Option.some.inj (hread.symm.trans hflag))
  exact ⟨hserver.trans hsrc, hready.fileGood, hready.bufGood, hready.winGood⟩

theorem Greeting.enters (hcountable : u.Countable) (h : Greeting u w s)
    (hready : w.client.state = .readyToSendDataSetup) (choice : World.Choice) :
    Connected u (w.step (.client choice)) s := by
  obtain ⟨hserver, haccepting⟩ := h.ready hready
  have hstep : w.client.step (World.resolve (w.inbox .rcopy) choice) =
      w.client.readyToSendDataSetup := by
    apply Client.step_of_ok
    simp only [Client.enterStateMachine, hready]
  have hpositive := hcountable.positive
  have hsize := h.negotiating.client.winSize
  refine ⟨⟨h.children, h.pair.client_step hcountable (h.clientReads choice)⟩, ?_, ?_, h.named,
    haccepting⟩
  · change Sender.Uploading u (w.client.step _)
    rw [hstep]
    exact uploading_start hcountable h.negotiating.client
  · have hgauged := Client.step_gauged w.client (World.resolve (w.inbox .rcopy) choice)
    change Engaged u (w.client.step _)
    rw [hstep] at hgauged ⊢
    refine ⟨hserver, by simp [Client.readyToSendDataSetup], ?_, hgauged, ?_⟩
    · change 1 ≤ w.client.winSize
      omega
    · intro number hlower hupper
      exact absurd (Nat.le_trans hlower hupper) (by simp [Client.readyToSendDataSetup])

theorem Greeting.client_step (hcountable : u.Countable) (h : Greeting u w s)
    (choice : World.Choice) :
    Connected u (w.step (.client choice)) s ∨ Greeting u (w.step (.client choice)) s := by
  rcases h.negotiating.client.state with hsetup | hhalted
  · by_cases hready : w.client.state = .readyToSendDataSetup
    · exact .inl (h.enters hcountable hready choice)
    · have hturn := Client.setupTurn hsetup (World.resolve (w.inbox .rcopy) choice)
      have hprepare : Preparing u (w.step (.client choice)).client := by
        rcases h.negotiating.client.turn_cases hturn with hprepare | ⟨hstate, -⟩
        · exact hprepare
        · exact absurd hstate hready
      have hpair := h.pair.client_step hcountable (h.clientReads choice)
      have hsends := @ClientPhase.sends_step u w.client hcountable
        (.preparing h.negotiating.client) False
        (fun heof => by simp [Client.inSetup, heof] at hsetup) h.negotiating.server (h.negotiating.client.fresh ▸ h.negotiating.sends)
        (World.resolve (w.inbox .rcopy) choice)
      have hfresh : (w.client.step (World.resolve (w.inbox .rcopy) choice)).winCur = 0 :=
        hprepare.fresh
      rw [hfresh] at hsends
      have hnegotiating : Negotiating u (w.step (.client choice)) :=
        ⟨hprepare, hpair.server, hsends, h.negotiating.children⟩
      refine .inr ⟨⟨h.children, hpair⟩, hnegotiating, h.named, h.said, h.bufSuccess_step hsetup choice,
        fun dst datagram hsent hflag => h.windowSent_step hsetup choice hsent hflag,
        h.ordered, h.ready_step hsetup choice⟩
  · have hsame : w.step (.client choice) = w := by
      simp only [World.step, Client.step_halted hhalted]
    rw [hsame]
    exact .inr h

/-- The client has no answer yet, and has sent the name only. -/
structure Calling (u : Upload) (w : World) : Prop extends Alone u w where
  prepare : Preparing u w.client
  main : w.client.server = .main
  state : w.client.state = .start ∨ w.client.state = .sendRemoteFileName ∨
    w.client.state = .waitForSetupAcks ∨ w.client.state = .timeoutOnSetupServer ∨
    w.client.state = .done
  unheard : w.client.fileSuccess = false ∧ w.client.bufSuccess = false
  name : ∀ dst datagram, .sent dst datagram ∈ w.client.trace →
    flagOf datagram = some .fileName
  called : w.client.state = .waitForSetupAcks → ∃ seqNum,
    .sent .main (plainDatagram (htonl u.name.length ++ u.name) .fileName seqNum) ∈
      w.client.trace

theorem calling_session (u : Upload) : Calling u (session u) where
  toAlone := alone_session u
  prepare := ⟨.inl (.inl rfl), rfl, rfl, rfl, rfl, rfl, rfl⟩
  main := rfl
  state := .inl rfl
  unheard := ⟨rfl, rfl⟩
  name dst datagram hsent := by simp [session, World.start, Client.started] at hsent
  called hstate := by simp [session, World.start, Client.started] at hstate

theorem Calling.client_step (hcountable : u.Countable) (h : Calling u w)
    (choice : World.Choice) : Calling u (w.step (.client choice)) := by
  have hquiet := h.quiet choice
  have halone := h.toAlone.client_step hcountable hquiet
  rcases h.prepare.state with hsetup | hhalted
  · have hturn := Client.setupTurn hsetup (World.resolve (w.inbox .rcopy) choice)
    have hprepare := h.prepare.turn_cases hturn
    simp only [World.step]
    generalize World.resolve (w.inbox .rcopy) choice = input at hquiet halone hturn hprepare ⊢
    generalize w.client.step input = c' at halone hturn hprepare ⊢
    have hstate := h.state
    obtain ⟨hfile, hbuf⟩ := h.unheard
    have hprepared (hnot : w.client.state ≠ .readyToSendDataSetup) : Preparing u c' := by
      rcases hprepare with hprepare | ⟨hready, -⟩
      · exact hprepare
      · exact absurd hready hnot
    cases hturn with
    | started state =>
        exact ⟨halone, hprepared (by simp [state]), h.main, by simp, h.unheard, h.name, by simp⟩
    | fileName state =>
        refine ⟨halone, hprepared (by simp [state]), h.main,
          by simp [Client.sendRemoteFileName, Client.sendSetup], h.unheard, ?_, fun _ => ?_⟩
        · intro dst datagram hsent
          rcases List.mem_append.mp hsent with hbefore | hnow
          · exact h.name dst datagram hbefore
          · cases List.mem_singleton.mp hnow
            exact flagOf_plainDatagram
        · refine ⟨w.client.seqNum, ?_⟩
          rw [← h.main, ← h.prepare.name]
          exact List.mem_append_right _ (List.mem_singleton_self _)
    | unanswered state =>
        refine ⟨halone, hprepared (by simp [state]), h.main, ?_, h.unheard, h.name, ?_⟩
        · simp only [Client.unansweredState, hfile]
          split <;> simp
        · simp only [Client.unansweredState, hfile]
          split <;> simp
    | gaveUp state =>
        exact ⟨halone, hprepared (by simp [state]), h.main, by simp, h.unheard, h.name, by simp⟩
    | bufferSize state | windowSize state | allocated state => simp [state] at hstate
    | crashed | corrupted | answered => exact absurd rfl (hquiet _ _)
  · have hsame : w.step (.client choice) = w := by
      simp only [World.step, Client.step_halted hhalted]
    rwa [hsame]

theorem Calling.greeting_of_fork (h : Calling u w) {received : Received}
    (hforks : ∃ datagram, .sent .main datagram ∈ w.client.trace ∧
      recvBuf datagram = .ok (some received)) :
    Greeting u { w with children := w.children ++ [Server.forked .rcopy received.packet] }
      (Server.forked .rcopy received.packet) := by
  obtain ⟨datagram, hsent, haccepted⟩ := hforks
  obtain ⟨-, hfrom⟩ := h.sends _ _ hsent
  obtain ⟨hpacket, -⟩ := recvBuf_eq_some_of_length hfrom.length.2 haccepted
  have hname := nameOf_of_flag hfrom (h.name _ _ hsent)
  have hstate := h.state
  obtain ⟨hfile, hbuf⟩ := h.unheard
  refine ⟨⟨by simp [h.children], h.phase, serving_forked u _ _, h.server, ?_, ?_⟩,
    ⟨h.prepare, h.server, ?_, ?_⟩, fun _ => ?_, ⟨?_, ?_⟩, ?_, ?_, ?_, ?_⟩
  · intro dst datagram hsent
    obtain ⟨hdst, hclient⟩ := h.sends dst datagram hsent
    exact ⟨hdst, hclient.mono (Nat.le_refl _) False.elim⟩
  · intro heof
    exact absurd heof h.notEnded
  · rw [← h.prepare.fresh]
    exact h.sends
  · intro child hchild
    simp only [h.children, List.nil_append, List.mem_singleton] at hchild
    rw [hchild]
    exact knows_forked u received.packet
  · rw [← hname, ← hpacket]
    rfl
  · simp [Server.forked]
  · simp [Server.forked]
  · intro hclient
    rw [hbuf] at hclient
    simp only [Bool.false_eq_true, false_or] at hclient
    simp [hclient] at hstate
  · intro dst datagram hsent hflag
    have hnamed := h.name dst datagram hsent
    simp [hnamed] at hflag
  · simp [Server.forked]
  · intro hready
    change w.client.state = .readyToSendDataSetup at hready
    simp [hready] at hstate

def Reached (u : Upload) (w : World) : Prop :=
  Calling u w ∨ (∃ s, Greeting u w s) ∨ ∃ s, Connected u w s

theorem Calling.main_step (h : Calling u w) (choice : World.Choice) :
    w.step (.main choice) = w ∨ ∃ s, Greeting u (w.step (.main choice)) s := by
  rcases w.step_main choice with hsame | ⟨src, datagram, received, hinput, haccepted, hfork⟩
  · exact .inl hsame
  · have hoffered := World.offered_resolve (w.inbox .main) choice
    rw [hinput] at hoffered
    rcases hoffered with hmem | ⟨hcorrupt, -⟩
    · rcases World.mem_inbox.mp hmem with ⟨rfl, hsent⟩ | ⟨index, child, hchild, -, -⟩
      · rw [hfork]
        exact .inr ⟨_, h.greeting_of_fork ⟨datagram, hsent, haccepted⟩⟩
      · simp [h.children] at hchild
    · simp [hcorrupt] at haccepted

theorem turn_cases (hchildren : w.children = [s]) {label : World.Label}
    (hone : OneChild w label) :
    (∃ choice, label = .client choice) ∨ (∃ choice, label = .child 0 choice) ∨
      w.step label = w := by
  cases label with
  | client choice => exact .inl ⟨choice, rfl⟩
  | main choice =>
      rcases w.step_main choice with hsame | ⟨src, datagram, received, -, -, hfork⟩
      · exact .inr (.inr hsame)
      · simp [OneChild, hfork, hchildren] at hone
  | child index choice =>
      cases index with
      | zero => exact .inr (.inl ⟨choice, rfl⟩)
      | succ index =>
          refine .inr (.inr ?_)
          simp only [World.step, hchildren, List.modify_succ_cons, List.modify_nil]
          rw [← hchildren]

theorem Reached.step (hcountable : u.Countable) (h : Reached u w) {label : World.Label}
    (hone : OneChild w label) : Reached u (w.step label) := by
  rcases h with hcalling | ⟨s, hgreeting⟩ | ⟨s, hconnected⟩
  · cases label with
    | client choice => exact .inl (hcalling.client_step hcountable choice)
    | main choice =>
        rcases hcalling.main_step choice with hsame | hgreeting
        · rw [hsame]
          exact .inl hcalling
        · exact .inr (.inl hgreeting)
    | child index choice =>
        have hsame : w.step (.child index choice) = w := by
          simp only [World.step, hcalling.children, List.modify_nil]
          rw [← hcalling.children]
        rw [hsame]
        exact .inl hcalling
  · rcases turn_cases hgreeting.children hone with ⟨choice, rfl⟩ | ⟨choice, rfl⟩ | hsame
    · rcases hgreeting.client_step hcountable choice with hconnected | hgreeting
      · exact .inr (.inr ⟨s, hconnected⟩)
      · exact .inr (.inl ⟨s, hgreeting⟩)
    · exact .inr (.inl ⟨_, hgreeting.child_step hcountable choice⟩)
    · rw [hsame]
      exact .inr (.inl ⟨s, hgreeting⟩)
  · rcases turn_cases hconnected.children hone with ⟨choice, rfl⟩ | ⟨choice, rfl⟩ | hsame
    · exact .inr (.inr ⟨s, hconnected.client_step hcountable choice⟩)
    · exact .inr (.inr ⟨_, hconnected.child_step hcountable choice⟩)
    · rw [hsame]
      exact .inr (.inr ⟨s, hconnected⟩)

def Calls (c : Client) : Prop :=
  c.state = .start ∨ c.state = .sendRemoteFileName ∨ c.state = .sendBufferSize ∨
    c.state = .sendWindowSize ∨ c.state = .waitForSetupAcks ∨
    c.state = .readyToSendDataSetup

theorem Greeting.stays (hcountable : u.Countable) (h : Greeting u w s) (choice : World.Choice)
    (hsetup : (w.step (.client choice)).client.inSetup) :
    Greeting u (w.step (.client choice)) s := by
  rcases h.client_step hcountable choice with hconnected | hgreeting
  · exact absurd hsetup (not_inSetup hconnected.upload.transfer)
  · exact hgreeting

theorem Greeting.answers (h : Greeting u w s) (hstate : w.client.state = .waitForSetupAcks)
    {flag : Flag} {seqNum : ℕ} (hsent : .sent .rcopy (plainDatagram [] flag seqNum) ∈ s.trace) :
    ∃ index, (w.step (.client (.deliver index))).client =
      { w.client with timeout := 0, server := .child 0 }.answered (some flag) := by
  obtain ⟨index, hindex⟩ := World.exists_delivery
    (World.mem_inbox.mpr (.inr ⟨0, s, by rw [h.children]; rfl, rfl, hsent⟩))
  refine ⟨index, ?_⟩
  have hrecv := @Framing.recvBuf_plainDatagram [] flag seqNum (by simp [maxPacketLen])
  simp only [World.step, hindex]
  have hturn := @Client.setupTurn_answer w.client (.child 0) (plainDatagram [] flag seqNum) hstate
  generalize w.client.step _ = c' at hturn ⊢
  cases hturn with
  | answered _ accepted =>
      cases hrecv.symm.trans accepted
      rfl
  | corrupted _ crcError => simp [hrecv] at crcError
  | crashed _ runt => simp [hrecv] at runt
  | unanswered _ quiet => exact absurd rfl (quiet _ _)
  | _ => simp_all

/-- The two setup packets that go to the child, with their answers, and where they lead. -/
def Round (state next : ClientState) (flag answer : Flag) : Prop :=
  state = .sendBufferSize ∧ next = .sendWindowSize ∧ flag = .bufferSize ∧
      answer = .ackBufferSize ∨
    state = .sendWindowSize ∧ next = .readyToSendDataSetup ∧ flag = .windowSize ∧
      answer = .ackWindowSize

theorem Round.asks {state next : ClientState} {flag answer : Flag}
    (hround : Round state next flag answer) (hstate : c.state = state) :
    ∃ data, data.length = 4 ∧ c.step .silent = c.sendSetup flag data := by
  rcases hround with ⟨rfl, -, rfl, -⟩ | ⟨rfl, -, rfl, -⟩
  · refine ⟨htonl c.bufSize, length_htonl .., ?_⟩
    apply Client.step_of_ok
    simp only [Client.enterStateMachine, hstate]
    rfl
  · refine ⟨htonl c.winSize, length_htonl .., ?_⟩
    apply Client.step_of_ok
    simp only [Client.enterStateMachine, hstate]
    rfl

theorem Round.serves {state next : ClientState} {flag answer : Flag}
    (hround : Round state next flag answer) (hwaits : s.state = .readyForNextSetupPacket)
    {data : Bytes} (hlength : data.length = 4) (seqNum : ℕ) :
    ∃ t, (s.step (.datagram .rcopy (plainDatagram data flag seqNum))).step .silent = t ∧
      t.state = .readyForNextSetupPacket ∧
      ∃ number, .sent .rcopy (plainDatagram [] answer number) ∈ t.trace := by
  rw [Setup.step_plainDatagram hwaits (by simp [maxPacketLen, hlength])]
  refine ⟨_, rfl, ?_⟩
  rcases hround with ⟨-, -, rfl, rfl⟩ | ⟨-, -, rfl, rfl⟩
  · exact ⟨rfl, u32 seqNum, List.mem_append_right _ (List.mem_singleton_self _)⟩
  · exact ⟨rfl, u32 seqNum, List.mem_append_right _ (List.mem_singleton_self _)⟩

theorem Round.leads {state next : ClientState} {flag answer : Flag}
    (hround : Round state next flag answer) :
    (c.answered (some answer)).state = next ∧ (c.answered (some answer)).server = c.server ∧
      (c.answered (some answer)).inSetup := by
  rcases hround with ⟨-, rfl, -, rfl⟩ | ⟨-, rfl, -, rfl⟩ <;> simp [Client.answered, Client.inSetup]

theorem Greeting.round (hcountable : u.Countable) (h : Greeting u w s)
    {state next : ClientState} {flag answer : Flag} (hround : Round state next flag answer)
    (hserver : w.client.server = .child 0) (hstate : w.client.state = state)
    (hwaits : s.state = .readyForNextSetupPacket) :
    Can (fun w' => ∃ s', Greeting u w' s' ∧ w'.client.server = .child 0 ∧
      w'.client.state = next ∧ s'.state = .readyForNextSetupPacket) w := by
  obtain ⟨data, hlength, hasks⟩ := hround.asks hstate
  have hclient : (w.step (.client .quiet)).client = w.client.sendSetup flag data := hasks
  have hasked : Greeting u (w.step (.client .quiet)) s :=
    h.stays hcountable .quiet (by rw [hclient]; simp [Client.inSetup, Client.sendSetup])
  have hsent : .sent (.child 0) (plainDatagram data flag w.client.seqNum) ∈
      (w.step (.client .quiet)).client.trace := by
    rw [hclient, ← hserver]
    exact List.mem_append_right _ (List.mem_singleton_self _)
  obtain ⟨index, hindex⟩ := World.exists_delivery (World.mem_inbox.mpr (.inl ⟨rfl, hsent⟩))
  have harrived := hasked.child_step hcountable (.deliver index)
  rw [hindex] at harrived
  have hserved := harrived.child_step hcountable .quiet
  obtain ⟨t, hanswered, hready, number, hanswer⟩ :=
    hround.serves hwaits hlength w.client.seqNum
  obtain ⟨arrival, hheard⟩ :=
    hserved.answers (congrArg Client.state hclient :) (hanswered ▸ hanswer)
  obtain ⟨hnext, hsame, hsetup⟩ :=
    @Round.leads { w.client.sendSetup flag data with timeout := 0, server := .child 0 } _ _ _ _
      hround
  have hanswers : ((((w.step (.client .quiet)).step (.child 0 (.deliver index))).step
      (.child 0 .quiet)).step (.client (.deliver arrival))).client =
      { w.client.sendSetup flag data with timeout := 0, server := .child 0 }.answered
        (some answer) := by
    rw [hheard, ← hclient]
    rfl
  have hlast := hserved.stays hcountable (.deliver arrival) (by rw [hanswers]; exact hsetup)
  refine .after (.client .quiet) trivial (.after (.child 0 (.deliver index)) trivial
    (.after (.child 0 .quiet) trivial (.after (.client (.deliver arrival)) trivial
      (.here ⟨_, hlast, ?_, ?_, ?_⟩))))
  · rw [hanswers, hsame]
  · rw [hanswers, hnext]
  · exact (congrArg Server.state hanswered :).trans hready

def Begun (u : Upload) (w : World) : Prop :=
  ∃ s, Connected u w s ∧ w.client.state = .sendData ∧ w.client.timeout = 0 ∧ Serves s

theorem Greeting.begins (hcountable : u.Countable) (h : Greeting u w s)
    (hready : w.client.state = .readyToSendDataSetup) (hwaits : s.waits) :
    Can (Begun u) w := by
  have hstep : (w.step (.client .quiet)).client = w.client.readyToSendDataSetup := by
    apply Client.step_of_ok
    simp only [Client.enterStateMachine, hready]
  refine .after (.client .quiet) trivial
    (.here ⟨s, h.enters hcountable hready .quiet, ?_, ?_, .inl hwaits⟩)
  · rw [hstep]
    rfl
  · rw [hstep]
    rfl

theorem Greeting.reshakes (hcountable : u.Countable) (h : Greeting u w s)
    (hstate : w.client.state = .waitForSetupAcks) (hwaits : s.state = .readyForNextSetupPacket) :
    Can (Begun u) w := by
  obtain ⟨seqNum, hsent⟩ := h.said.fileName (h.knows.2.ready_of hwaits)
  obtain ⟨index, hheard⟩ := h.answers hstate hsent
  have hnamed := h.stays hcountable (.deliver index) (by rw [hheard]; simp [Client.answered,
    Client.inSetup])
  refine .after (.client (.deliver index)) trivial ?_
  refine (hnamed.round hcountable (.inl ⟨rfl, rfl, rfl, rfl⟩) (by rw [hheard]; rfl)
    (by rw [hheard]; rfl) hwaits).trans ?_
  rintro w' ⟨s', hgreeting, hserver, hnext, hwaits'⟩
  refine (hgreeting.round hcountable (.inr ⟨rfl, rfl, rfl, rfl⟩) hserver hnext hwaits').trans ?_
  rintro w'' ⟨s'', hgreeting', -, hready, hwaits''⟩
  exact hgreeting'.begins hcountable hready (.inl hwaits'')

theorem Greeting.calls (hcountable : u.Countable) (h : Greeting u w s) (hcalls : Calls w.client)
    (hwaits : s.state = .readyForNextSetupPacket) : Can (Begun u) w := by
  have hsends {w : World} (h : Greeting u w s) (hstate : w.client.state = .sendRemoteFileName ∨
      w.client.state = .sendBufferSize ∨ w.client.state = .sendWindowSize) :
      Can (Begun u) w := by
    have hwait : (w.step (.client .quiet)).client.state = .waitForSetupAcks := by
      change (w.client.step .silent).state = _
      unfold Client.step Client.enterStateMachine
      rcases hstate with hstate | hstate | hstate <;> simp only [hstate] <;> rfl
    have hafter := h.stays hcountable .quiet (by simp [Client.inSetup, hwait])
    exact .after (.client .quiet) trivial (hafter.reshakes hcountable hwait hwaits)
  rcases hcalls with hstate | hstate | hstate | hstate | hstate | hstate
  · have hnext : (w.step (.client .quiet)).client.state = .sendRemoteFileName := by
      change (w.client.step .silent).state = _
      unfold Client.step Client.enterStateMachine
      simp only [hstate]
    have hafter := h.stays hcountable .quiet (by simp [Client.inSetup, hnext])
    exact .after (.client .quiet) trivial (hsends hafter (.inl hnext))
  · exact hsends h (.inl hstate)
  · exact hsends h (.inr (.inl hstate))
  · exact hsends h (.inr (.inr hstate))
  · exact h.reshakes hcountable hstate hwaits
  · exact h.begins hcountable hstate (.inl hwaits)

theorem Greeting.begun (hcountable : u.Countable) (hslots : u.width ≤ 255)
    (h : Greeting u w s) (hcalls : Calls w.client) (hserves : Serves s) : Can (Begun u) w := by
  refine (settles_of hslots (fun _ _ h => ⟨h.pair.serving.phase, h.named⟩)
    (fun _ _ h => h.child_step hcountable .quiet) h hserves).trans ?_
  rintro w' ⟨s', hgreeting, hclient, hwaits, -⟩
  rcases hwaits with hsetup | hdata
  · exact hgreeting.calls hcountable (hclient ▸ hcalls) hsetup
  · exact absurd hdata hgreeting.knows.2.not_receiving.2.1

/-- The two processes have not stopped: neither has given up or met a fault, and the
server has not refused the file. -/
structure Going (u : Upload) (w : World) : Prop where
  client : Calls w.client ∨ Active w.client
  children : ∀ s ∈ w.children, Responds u s

theorem Begun.completes (hcountable : u.Countable) (hslots : u.width ≤ 255)
    (hfile : u.chunks ≠ []) (h : Begun u w) : Can (Finished u) w := by
  obtain ⟨s, hconnected, hstate, -, hserves⟩ := h
  exact Progress.completes hcountable hslots hfile hconnected (.inl hstate) (.inl hserves)

theorem not_active_of_inSetup (hsetup : c.inSetup) : ¬ Active c := by
  intro hactive
  unfold Client.inSetup at hsetup
  unfold Active at hactive
  grind

theorem Greeting.completes (hcountable : u.Countable) (hslots : u.width ≤ 255)
    (hfile : u.chunks ≠ []) (h : Greeting u w s) (hgoing : Going u w) :
    Can (Finished u) w := by
  have hlength := List.length_pos_iff.mpr hfile
  have hcalls : Calls w.client := by
    rcases hgoing.client with hcalls | hactive
    · exact hcalls
    · rcases h.negotiating.client.state with hsetup | hhalted
      · exact absurd hactive (not_active_of_inSetup hsetup)
      · unfold Active at hactive
        grind
  have hserves : Serves s := by
    rcases hgoing.children s (by simp [h.children]) with hserves | heof | hended
    · exact hserves
    · exact absurd heof h.knows.2.not_receiving.2.2.2
    · have hcomplete := hended.2
      have hle := h.pair.curRRnum_le
      have hfresh := h.negotiating.client.fresh
      unfold Complete at hcomplete
      omega
  exact (h.begun hcountable hslots hcalls hserves).trans
    fun w' hbegun => hbegun.completes hcountable hslots hfile

theorem Can.oneChild {goal : World → Prop} (h : Can goal w) (hlength : w.children.length ≤ 1) :
    Runs.CanReach World.step OneChild goal w := by
  obtain ⟨labels, halong, hgoal⟩ := h
  have hkept (w : World) (label : World.Label) (hlength : w.children.length ≤ 1)
      (hlabel : ofPair label) : (w.step label).children.length ≤ 1 := by
    cases label with
    | main choice => exact hlabel.elim
    | client choice => exact hlength
    | child index choice => simpa [World.step] using hlength
  exact ⟨labels, Runs.along_of_invariant (fun w => w.children.length ≤ 1) hkept hkept hlength
    halong, hgoal⟩

theorem Calling.forks (hcountable : u.Countable) (hslots : u.width ≤ 255) (h : Calling u w)
    (hstate : w.client.state = .waitForSetupAcks) :
    Runs.CanReach World.step OneChild (Begun u) w := by
  obtain ⟨seqNum, hsent⟩ := h.called hstate
  have hname := u.name_length
  have hrecv := @Framing.recvBuf_plainDatagram (htonl u.name.length ++ u.name) .fileName seqNum
    (by simp [maxPacketLen]; omega)
  obtain ⟨index, hindex⟩ := World.exists_delivery (World.mem_inbox.mpr (.inl ⟨rfl, hsent⟩))
  have hgreeting := h.greeting_of_fork ⟨_, hsent, hrecv⟩
  have hfork : w.step (.main (.deliver index)) = { w with
      children := w.children ++ [Server.forked .rcopy
        (plainDatagram (htonl u.name.length ++ u.name) .fileName seqNum)] } := by
    simp only [World.step, hindex, World.fork, Server.forkedFor_of_accepted hrecv,
      Option.toList_some]
  rw [← hfork] at hgreeting
  refine .after (.main (.deliver index)) (by simp [OneChild, hfork, h.children]) ?_
  refine Can.oneChild (hgreeting.begun hcountable hslots ?_ ?_) ?_
  · rw [hfork]
    exact .inr (.inr (.inr (.inr (.inl hstate))))
  · exact .inr (by simp [Server.forked, busy])
  · simp [hgreeting.children]

theorem Calling.begun (hcountable : u.Countable) (hslots : u.width ≤ 255) (h : Calling u w)
    (hcalls : Calls w.client) : Runs.CanReach World.step OneChild (Begun u) w := by
  have hone {w : World} (h : Calling u w) : OneChild w (.client .quiet) := by
    simp [OneChild, World.step, h.children]
  have hsends {w : World} (h : Calling u w) (hstate : w.client.state = .sendRemoteFileName) :
      Runs.CanReach World.step OneChild (Begun u) w := by
    refine .after (.client .quiet) (hone h)
      ((h.client_step hcountable .quiet).forks hcountable hslots ?_)
    change (w.client.step .silent).state = _
    unfold Client.step Client.enterStateMachine
    simp only [hstate]
    rfl
  rcases h.state with hstate | hstate | hstate | hstate | hstate
  · refine .after (.client .quiet) (hone h) (hsends (h.client_step hcountable .quiet) ?_)
    change (w.client.step .silent).state = _
    unfold Client.step Client.enterStateMachine
    simp only [hstate]
  · exact hsends h hstate
  · exact h.forks hcountable hslots hstate
  · simp [Calls, hstate] at hcalls
  · simp [Calls, hstate] at hcalls

theorem Calling.reaches {goal : World → Prop} (hcountable : u.Countable)
    (hslots : u.width ≤ 255) (h : Calling u w) (hcalls : Calls w.client)
    (hgoal : ∀ w', Begun u w' → Can goal w') : Runs.CanReach World.step OneChild goal w := by
  refine (h.begun hcountable hslots hcalls).trans fun w' hbegun => ?_
  refine Can.oneChild (hgoal w' hbegun) ?_
  obtain ⟨s, hconnected, -⟩ := hbegun
  simp [hconnected.children]

theorem Calling.completes (hcountable : u.Countable) (hslots : u.width ≤ 255)
    (hfile : u.chunks ≠ []) (h : Calling u w) (hgoing : Going u w) :
    Runs.CanReach World.step OneChild (Finished u) w := by
  have hcalls : Calls w.client := by
    rcases hgoing.client with hcalls | hactive
    · exact hcalls
    · have hstate := h.state
      unfold Active at hactive
      grind
  exact h.reaches hcountable hslots hcalls fun w' hbegun =>
    hbegun.completes hcountable hslots hfile

theorem Reached.completes (hcountable : u.Countable) (hslots : u.width ≤ 255)
    (hfile : u.chunks ≠ []) (h : Reached u w) (hgoing : Going u w) :
    Runs.CanReach World.step OneChild (Finished u) w := by
  rcases h with hcalling | ⟨s, hgreeting⟩ | ⟨s, hconnected⟩
  · exact hcalling.completes hcountable hslots hfile hgoing
  · exact Can.oneChild (hgreeting.completes hcountable hslots hfile hgoing)
      (by simp [hgreeting.children])
  · have hactive : Active w.client := by
      rcases hgoing.client with hcalls | hactive
      · have htransfer := hconnected.upload.transfer
        unfold Calls at hcalls
        unfold Client.inTransfer at htransfer
        grind
      · exact hactive
    refine Can.oneChild (Progress.completes hcountable hslots hfile hconnected hactive
      (hgoing.children s (by simp [hconnected.children]))) (by simp [hconnected.children])

end SlidingWindow.Recovery

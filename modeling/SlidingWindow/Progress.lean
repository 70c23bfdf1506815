import SlidingWindow.Underway
import SlidingWindow.Responses

/-! No state is a dead end. What has been sent can arrive at any later moment. As long as
the client and the child have not stopped, some deliveries bring the whole file to the
child: the packet that it expects is delivered again, an old packet makes it repeat its last
`RR`, and that makes the client go on. -/
namespace SlidingWindow.Progress

open Library Phases Transfer Underway ServerWindow DataPhase

variable {u : Upload} {c : Client} {s : Server} {w : World} {goal : World → Prop}

def Can (goal : World → Prop) (w : World) : Prop :=
  Runs.CanReach World.step (fun _ label => ofPair label) goal w

/-- The turns that a child takes before it reads again. -/
def busy : ServerState → ℕ
  | .start => 3
  | .setupClientSocket => 2
  | .readyForDataPacketsSetup => 2
  | .receivedRemoteFileName => 1
  | .receivedBufferSize => 1
  | .receivedWindowSize => 1
  | .receivedData => 1
  | _ => 0

def Serves (s : Server) : Prop := s.waits ∨ busy s.state ≠ 0

def InData (s : Server) : Prop :=
  s.state = .readyForDataPacketsSetup ∨ s.state = .receivedData ∨
    s.state = .readyForNextDataPacket

theorem silent_turn {top : ℕ} (hslots : u.width ≤ 255) (hphase : Phase u top s)
    (hnamed : Named u s) (hbusy : busy s.state ≠ 0) :
    busy (s.step .silent).state + 1 = busy s.state ∧ Serves (s.step .silent) ∧
      (InData s → InData (s.step .silent)) := by
  have hturn := s.turn .silent
  generalize s.step .silent = s' at hturn ⊢
  cases hturn with
  | halted state | gaveUp state | setupUnanswered state | dataUnanswered state =>
      exact absurd hbusy (by grind [busy])
  | ended state => exact absurd hbusy (by simp [state, busy])
  | badName state overrun =>
      simp [hnamed (by simp [state])] at overrun
  | diverged state loops =>
      have hsize := (hphase.allocating_of state).1
      simp [readyForDataPacketSetup_eq (hsize ▸ hslots)] at loops
  | undelivered state faults | stuck state faults =>
      obtain ⟨receiver, hreceives, number, data, hpacket, hgenuine⟩ := hphase.processing_of state
      obtain ⟨after, hafter, -⟩ := receivedData_spec hreceives.stable hpacket
        (Nat.lt_succ_of_le hgenuine.le_length)
      simp [hafter] at faults
  | allocated state allocates =>
      obtain rfl := readyForDataPacketSetup_ok allocates
      simp [allocated, state, busy, Serves, InData]
  | delivered state delivers =>
      have hsettled := (handles_of_dataTurn (Server.dataTurn delivers)).settled
      have hready : s'.state = .readyForNextDataPacket :=
        (eq_of_frame Server.state (fun _ => rfl) hsettled :)
      simp [hready, state, busy, Serves, Server.waits, InData]
  | started state | socketMade state => simp [state, busy, Serves, InData]
  | keptOpen state | opened state | bufferSize state | windowSize state =>
      simp [state, busy, Serves, Server.waits, InData, Server.acceptFileName,
        Server.receivedBufferSize, Server.receivedWindowSize]

theorem settles_of (hslots : u.width ≤ 255) {keeps : World → Server → Prop}
    (hphase : ∀ w s, keeps w s → Phase u w.client.winCur s ∧ Named u s)
    (hstep : ∀ w s, keeps w s → keeps (w.step (.child 0 .quiet)) (s.step .silent))
    (h : keeps w s) (hserves : Serves s) :
    Can (fun w' => ∃ s', keeps w' s' ∧ w'.client = w.client ∧ s'.waits ∧
      (InData s → s'.state = .readyForNextDataPacket)) w := by
  induction hbusy : busy s.state generalizing w s with
  | zero =>
      have hwaits : s.waits := by simpa [Serves, hbusy] using hserves
      refine .here ⟨s, h, rfl, hwaits, fun hdata => ?_⟩
      unfold InData at hdata
      unfold Server.waits at hwaits
      grind
  | succ count ih =>
      obtain ⟨hserved, hnamed⟩ := hphase w s h
      obtain ⟨hfewer, hserves', hdata⟩ := silent_turn hslots hserved hnamed (by omega)
      refine .after (.child 0 .quiet) trivial ((ih (hstep w s h) hserves' (by omega)).mono ?_)
      rintro w' ⟨s', hkept, hclient, hwaits, hready⟩
      exact ⟨s', hkept, hclient, hwaits, fun hin => hready (hdata hin)⟩

theorem settles (hcountable : u.Countable) (hslots : u.width ≤ 255) (h : Connected u w s)
    (hserves : Serves s) :
    Can (fun w' => ∃ s', Connected u w' s' ∧ w'.client = w.client ∧ s'.waits ∧
      (InData s → s'.state = .readyForNextDataPacket)) w :=
  settles_of hslots (fun _ _ h => ⟨h.pair.serving.phase, h.named⟩)
    (fun _ _ h => h.child_step hcountable .quiet) h hserves

theorem delivers_to_child (hcountable : u.Countable) (h : Connected u w s)
    {datagram : Datagram} (hsent : .sent (.child 0) datagram ∈ w.client.trace) :
    ∃ index, Connected u (w.step (.child 0 (.deliver index)))
      (s.step (.datagram .rcopy datagram)) := by
  obtain ⟨index, hindex⟩ := World.exists_delivery (World.mem_inbox.mpr (.inl ⟨rfl, hsent⟩))
  exact ⟨index, hindex ▸ h.child_step hcountable (.deliver index)⟩

section Feed

variable {top number seqNum : ℕ} {chunk : Bytes} {receiver : SelectiveReject.Receiver u.width Bytes}

theorem feed_packet (hstate : s.state = .readyForNextDataPacket)
    (hreceives : Receiving u top s receiver) (hcountable : u.Countable)
    (hgenuine : u.Genuine top number chunk) (seqNum : ℕ) :
    let s' := feed s (.rcopy, numberedDatagram chunk .data seqNum number)
    s'.state = .readyForNextDataPacket ∧
      Stable u.width (limit u) s' (receiver.accept number chunk) ∧
      ∃ middle, DataPhase.Read s middle ∧ Reaction middle s' number := by
  have hcount := hcountable.count
  have hle := hgenuine.le_length
  have hlength := hgenuine.data_length
  have hsmall : u32 number = number := u32_of_lt (by omega)
  have hlen : chunk.length + 12 ≤ maxPacketLen := by
    simp only [maxPacketLen]
    omega
  have hfeed : Feedable (limit u) (numberedDatagram chunk .data seqNum number) :=
    feedable_numberedDatagram hlen (by decide) (by simp only [hsmall, limit]; omega)
  have hrecv := @Framing.recvBuf_numberedDatagram chunk .data seqNum number hlen
  obtain ⟨hready, houtcome⟩ := feed_spec .rcopy hstate hreceives.stable hfeed
  refine ⟨hready, ?_⟩
  have hdata : dataOf? (numberedDatagram chunk .data seqNum number) = some (number, chunk) := by
    simp [dataOf?, hrecv, hsmall]
  cases houtcome with
  | dropped data => simp [hdata] at data
  | accepted found data packet stable middle read reaction =>
      obtain ⟨rfl, rfl⟩ := Prod.mk.inj (Option.some.inj (hdata.symm.trans packet))
      exact ⟨stable, middle, read, reaction⟩

theorem step_packet (hstate : s.state = .readyForNextDataPacket)
    (hgenuine : u.Genuine top number chunk) (seqNum : ℕ) :
    (s.step (.datagram .rcopy (numberedDatagram chunk .data seqNum number))).state =
      .receivedData := by
  have hlength := hgenuine.data_length
  have hlen : chunk.length + 12 ≤ maxPacketLen := by
    simp only [maxPacketLen]
    omega
  have hrecv := @Framing.recvBuf_numberedDatagram chunk .data seqNum number hlen
  obtain ⟨-, houtcome⟩ := step_read .rcopy hstate ⟨_, hrecv⟩
  cases houtcome with
  | data received accepted flag state => exact state
  | dropped _ data => simp [dataOf?, hrecv] at data
  | eof received accepted flag =>
      cases hrecv.symm.trans accepted
      simp at flag

end Feed

theorem feeds (hcountable : u.Countable) (h : Connected u w s)
    (hstate : s.state = .readyForNextDataPacket) {number : ℕ} (hlower : 1 ≤ number)
    (hupper : number ≤ w.client.winCur) :
    Can (fun w' => ∃ s', Connected u w' s' ∧ w'.client = w.client ∧
      s'.state = .readyForNextDataPacket ∧
      (∃ middle, DataPhase.Read s middle ∧ Reaction middle s' number) ∧
      (number = s.curRRnum → s.curRRnum < s'.curRRnum)) w := by
  obtain ⟨receiver, hreceives⟩ := h.pair.serving.phase.waiting_of hstate
  obtain ⟨seqNum, chunk, hgenuine, hsent⟩ := h.engaged.sent number hlower hupper
  obtain ⟨hready, hstable, hreaction⟩ := feed_packet hstate hreceives hcountable hgenuine seqNum
  have hdata := step_packet hstate hgenuine seqNum
  obtain ⟨index, harrived⟩ := delivers_to_child hcountable h hsent
  have hprocessed := harrived.child_step hcountable .quiet
  have hfeed : feed s (.rcopy, numberedDatagram chunk .data seqNum number) =
      (s.step (.datagram .rcopy (numberedDatagram chunk .data seqNum number))).step .silent :=
    if_pos hdata
  rw [hfeed] at hready hstable hreaction
  refine .after (.child 0 (.deliver index)) trivial (.after (.child 0 .quiet) trivial
    (.here ⟨_, hprocessed, rfl, hready, hreaction, fun hdue => ?_⟩))
  rw [hreceives.stable.next] at hdue ⊢
  change receiver.next < Server.curRRnum (Server.step _ .silent)
  rw [hstable.next, hdue]
  exact SelectiveReject.Receiver.lt_next_accept

theorem drained {top : ℕ} {receiver : SelectiveReject.Receiver u.width Bytes}
    (hreceives : Receiving u top s receiver) (hall : s.curRRnum = top + 1) :
    s.arePacketsBuffered = false := by
  by_contra hbuffered
  obtain ⟨n, hn⟩ := hreceives.stable.arePacketsBuffered_iff.mp (by simpa using hbuffered)
  have hheld := hreceives.stable.buffered_iff.mp hn
  obtain ⟨item, hitem⟩ := Finmap.mem_iff.mp hheld
  have hle := (hreceives.every.held n item hitem).le
  have hlt := (receiver.ahead n hheld).1
  have hnext := hreceives.stable.next
  omega

theorem reacknowledges (hcountable : u.Countable) (h : Connected u w s)
    (hstate : s.state = .readyForNextDataPacket) (hall : s.curRRnum = w.client.winCur + 1)
    (hsome : 1 ≤ w.client.winCur) :
    Can (fun w' => ∃ s' seqNum, Connected u w' s' ∧ w'.client = w.client ∧
      s'.state = .readyForNextDataPacket ∧ s'.curRRnum = s.curRRnum ∧
      .sent .rcopy (numberedDatagram [] .rr seqNum s.curRRnum) ∈ s'.trace) w := by
  refine (feeds hcountable h hstate (Nat.le_refl 1) hsome).mono ?_
  rintro w' ⟨s', hconnected, hclient, hready, ⟨middle, hread, hreaction⟩, -⟩
  obtain ⟨receiver, hreceives⟩ := h.pair.serving.phase.waiting_of hstate
  have hempty := drained hreceives hall
  obtain ⟨seqNum, client, recvPacket, hmiddle⟩ := hread
  have hcur : middle.curRRnum = s.curRRnum := by rw [hmiddle]
  have hquiet : middle.arePacketsBuffered = false := by
    rw [hmiddle]
    exact hempty
  cases hreaction with
  | acknowledged expected | gap expected => omega
  | rejected early | awaited early => omega
  | repeated old same srej buffered emits =>
      obtain ⟨written, number, htrace⟩ := emits
      rw [hquiet, hconnected.pair.serving.client, same, hcur] at htrace
      refine ⟨s', number, hconnected, hclient, hready, same.trans hcur, ?_⟩
      rw [htrace]
      exact List.mem_append_right _ (List.mem_singleton_self _)

theorem begins (hcountable : u.Countable) (hslots : u.width ≤ 255) (h : Connected u w s)
    (hstate : s.state = .readyForNextSetupPacket) (hsome : 1 ≤ w.client.winCur) :
    Can (fun w' => ∃ s', Connected u w' s' ∧ w'.client = w.client ∧
      s'.state = .readyForNextDataPacket) w := by
  obtain ⟨seqNum, chunk, hgenuine, hsent⟩ := h.engaged.sent 1 (Nat.le_refl 1) hsome
  have hlength := hgenuine.data_length
  have hlen : chunk.length + 12 ≤ maxPacketLen := by
    simp only [maxPacketLen]
    omega
  have hrecv := @Framing.recvBuf_numberedDatagram chunk .data seqNum 1 hlen
  obtain ⟨index, harrived⟩ := delivers_to_child hcountable h hsent
  have hready : (s.step (.datagram .rcopy (numberedDatagram chunk .data seqNum 1))).state =
      .readyForDataPacketsSetup := by
    have hturn := s.turn (.datagram .rcopy (numberedDatagram chunk .data seqNum 1))
    generalize s.step (.datagram .rcopy _) = s' at hturn ⊢
    cases hturn with
    | setupRead _ accepted =>
        cases hrecv.symm.trans accepted
        simp [Server.read, Server.setupState, h.accepting.fileGood, h.accepting.bufGood,
          h.accepting.winGood]
    | corrupted _ crcError => simp [hrecv] at crcError
    | crashed _ runt => simp [hrecv] at runt
    | setupUnanswered _ quiet => exact absurd rfl (quiet _ _)
    | _ => simp_all
  refine .after (.child 0 (.deliver index)) trivial ?_
  refine (settles hcountable hslots harrived (.inr (by simp [hready, busy]))).mono ?_
  rintro w' ⟨s', hconnected, hclient, -, hwaiting⟩
  exact ⟨s', hconnected, hclient, hwaiting (.inl hready)⟩

/-- The client is in the transfer, has not stopped, and has what it is to resend. -/
def Active (c : Client) : Prop :=
  c.state = .sendData ∨ c.state = .receiveDataWindowOpen ∨
    c.state = .receiveDataWindowClosed ∨ c.state = .sendEofAndQuit ∨
    c.state = .sendDataSREJ ∧
      ∃ slot ∈ c.window[sub32 c.numSREJ 1 % c.winSize]?, slot.len ≠ 0

theorem step_chunk (hring : c.Ring) (hstate : c.state = .sendData) {chunk : Bytes}
    {rest : List Bytes} (hfile : c.localFile = chunk :: rest) :
    c.step .silent = c.sentChunk chunk rest := by
  apply Client.step_of_ok
  simp only [Client.enterStateMachine, hstate, Client.sendData, hfile]
  exact hring.sendChunk chunk rest

theorem step_fileEnd (hstate : c.state = .sendData) (hfile : c.localFile = []) :
    c.step .silent = { c with doneTransmitting := true, state := .receiveDataWindowClosed } := by
  apply Client.step_of_ok
  simp only [Client.enterStateMachine, hstate, Client.sendData, hfile]

theorem step_poll (hgauged : c.Gauged) (hstate : c.state = .receiveDataWindowOpen) :
    c.step .silent = { c with state := .sendData } := by
  have hopen := hgauged.1 hstate
  have hlt : c.winCur < c.winMax := by
    unfold Client.isWindowClosed at hopen
    grind
  apply Client.step_of_ok
  simp only [Client.enterStateMachine, hstate, Client.receiveDataWindowOpen]
  rw [if_pos hlt]

theorem step_resend (hring : c.Ring) (hstate : c.state = .sendDataSREJ) {slot : BufferChunk}
    (hslot : c.window[sub32 c.numSREJ 1 % c.winSize]? = some slot) (hfilled : slot.len ≠ 0) :
    c.step .silent = c.resent slot := by
  apply Client.step_of_ok
  simp only [Client.enterStateMachine, hstate]
  rw [hring.sendDataFromWindow hslot, if_neg hfilled]

theorem step_rr {before : Client} (hlistens : c.listening? = some before) {number : ℕ}
    (hnumber : number < 4294967296) (src : Peer) (seqNum : ℕ) :
    c.step (.datagram src (numberedDatagram [] .rr seqNum number)) =
      { before.heard src with seqNum := u32 seqNum }.acknowledged number := by
  have hrecv := @Framing.recvBuf_numberedDatagram [] .rr seqNum number (by simp [maxPacketLen])
  have hturn := @Client.turn_listening c src (numberedDatagram [] .rr seqNum number) _ hlistens
  have hstate := Client.listening?_state hlistens
  generalize c.step (.datagram src _) = c' at hturn ⊢
  cases hturn with
  | acknowledged listens accepted flag =>
      cases hlistens.symm.trans listens
      cases hrecv.symm.trans accepted
      rw [fieldOf_numberedDatagram, u32_of_lt hnumber]
  | rejected _ accepted flag =>
      cases hrecv.symm.trans accepted
      simp at flag
  | ended _ accepted flag =>
      cases hrecv.symm.trans accepted
      simp at flag
  | corrupted _ crcError => simp [hrecv] at crcError
  | crashed _ runt => simp [hrecv] at runt
  | resent source | emptySlot source =>
      rcases Client.resending?_eq_some source with ⟨-, -, hsrej⟩ | ⟨-, -, -, quiet⟩
      · simp [hsrej] at hstate
      · exact absurd rfl (quiet _ _)
  | expired _ quiet | polled _ quiet | eofUnanswered _ quiet => exact absurd rfl (quiet _ _)
  | halted state => grind
  | gaveUp state | fileEnded state | sent state => grind

/-- How far the state of the client is from the end of the file, when everything that it
has sent has arrived. -/
def rank (c : Client) : ℕ :=
  match c.state with
  | .sendEofAndQuit => 0
  | .sendData => 2
  | .sendDataSREJ => 4
  | .receiveDataWindowClosed => if c.doneTransmitting then 1 else 3
  | _ => 3

def toSend (u : Upload) (c : Client) : ℕ := 5 * (u.chunks.length - c.winCur) + rank c

theorem rank_afterSend (h : c.state = .receiveDataWindowOpen ∨
    c.state = .receiveDataWindowClosed) : rank c ≤ 3 := by
  unfold rank
  rcases h with h | h <;> simp only [h]
  · omega
  · split <;> omega

theorem delivers_to_client (h : Connected u w s) {datagram : Datagram}
    (hsent : .sent .rcopy datagram ∈ s.trace) :
    ∃ index, (w.step (.client (.deliver index))).client =
      w.client.step (.datagram (.child 0) datagram) := by
  obtain ⟨index, hindex⟩ := World.exists_delivery
    (World.mem_inbox.mpr (.inr ⟨0, s, by rw [h.children]; rfl, rfl, hsent⟩))
  exact ⟨index, congrArg w.client.step hindex⟩

theorem client_moves (hcountable : u.Countable) (h : Connected u w s)
    (hactive : Active w.client) (hnot : w.client.state ≠ .sendEofAndQuit)
    (hheard : w.client.state = .receiveDataWindowClosed → ∃ seqNum,
      .sent .rcopy (numberedDatagram [] .rr seqNum (w.client.winCur + 1)) ∈ s.trace) :
    ∃ choice, Active (w.step (.client choice)).client ∧
      toSend u (w.step (.client choice)).client < toSend u w.client := by
  have hcount := count_lt hcountable
  have hle := h.upload.winCur_le
  rcases hactive with hstate | hstate | hstate | hstate | ⟨hstate, slot, hslot, hfilled⟩
  · refine ⟨.quiet, ?_⟩
    change Active (w.client.step .silent) ∧ toSend u (w.client.step .silent) < _
    cases hfile : w.client.localFile with
    | nil =>
        rw [step_fileEnd hstate hfile]
        refine ⟨.inr (.inr (.inl rfl)), ?_⟩
        simp [toSend, rank, hstate]
    | cons chunk rest =>
        rw [step_chunk h.upload.ring hstate hfile]
        obtain ⟨hlt, -, -⟩ := h.upload.next_chunk hfile
        have hcur : (w.client.sentChunk chunk rest).winCur = w.client.winCur + 1 :=
          u32_of_lt (by omega)
        have hsent := Client.sentChunk_state w.client chunk rest
        have hrank := rank_afterSend hsent
        refine ⟨.inr (by tauto), ?_⟩
        have hbefore : rank w.client = 2 := by simp [rank, hstate]
        simp only [toSend, hcur, hbefore]
        omega
  · refine ⟨.quiet, ?_⟩
    change Active (w.client.step .silent) ∧ toSend u (w.client.step .silent) < _
    rw [step_poll h.engaged.gauged hstate]
    exact ⟨.inl rfl, by simp [toSend, rank, hstate]⟩
  · obtain ⟨seqNum, hsent⟩ := hheard hstate
    obtain ⟨index, hdelivered⟩ := delivers_to_client h hsent
    have hlistens : w.client.listening? = some w.client := by simp [Client.listening?, hstate]
    rw [step_rr hlistens (by omega)] at hdelivered
    refine ⟨.deliver index, ?_⟩
    rw [hdelivered, ← h.upload.count]
    cases hdone : w.client.doneTransmitting with
    | true =>
        have hends : ({ w.client.heard (.child 0) with seqNum := u32 seqNum }.acknowledged
            w.client.curPacketNum).state = .sendEofAndQuit := by
          simp [Client.acknowledged, Client.heard, hdone]
        refine ⟨.inr (.inr (.inr (.inl hends))), ?_⟩
        simp only [toSend, rank, hends, hstate, hdone]
        simp [Client.acknowledged, Client.heard]
    | false =>
        have hsends : ({ w.client.heard (.child 0) with seqNum := u32 seqNum }.acknowledged
            w.client.curPacketNum).state = .sendData := by
          simp [Client.acknowledged, Client.heard, hdone]
        refine ⟨.inl hsends, ?_⟩
        simp only [toSend, rank, hsends, hstate, hdone]
        simp [Client.acknowledged, Client.heard]
  · exact absurd hstate hnot
  · refine ⟨.quiet, ?_⟩
    change Active (w.client.step .silent) ∧ toSend u (w.client.step .silent) < _
    rw [step_resend h.upload.ring hstate hslot hfilled]
    have hsent := Client.resent_state w.client slot
    have hrank := rank_afterSend hsent
    refine ⟨.inr (by tauto), ?_⟩
    have hbefore : rank w.client = 4 := by simp [rank, hstate]
    have hcur : (w.client.resent slot).winCur = w.client.winCur := rfl
    simp only [toSend, hcur, hbefore]
    omega

def Steady (u : Upload) (w : World) : Prop :=
  ∃ s, Connected u w s ∧ Active w.client ∧ s.waits

def remaining (u : Upload) (w : World) : ℕ :=
  5 * (u.chunks.length + 1 - w.children.head?.elim 0 Server.curRRnum) + toSend u w.client

theorem remaining_eq (h : Connected u w s) :
    remaining u w = 5 * (u.chunks.length + 1 - s.curRRnum) + toSend u w.client := by
  simp [remaining, h.children]

theorem some_sent (hfile : u.chunks ≠ []) (h : Connected u w s)
    (hstate : w.client.state = .receiveDataWindowClosed) : 1 ≤ w.client.winCur := by
  have hclosed := h.engaged.gauged.2 hstate
  have hedge := h.engaged.edge
  have hlength := List.length_pos_iff.mpr hfile
  unfold Client.isWindowClosed at hclosed
  by_contra hnone
  rcases of_decide_eq_true hclosed with hdone | hfull
  · have hended := h.upload.ended hdone
    rw [h.upload.file, List.drop_eq_nil_iff] at hended
    omega
  · omega

theorem client_advances (hcountable : u.Countable) (h : Connected u w s)
    (hactive : Active w.client) (hwaits : s.waits) (hnot : w.client.state ≠ .sendEofAndQuit)
    (hheard : w.client.state = .receiveDataWindowClosed → ∃ seqNum,
      .sent .rcopy (numberedDatagram [] .rr seqNum (w.client.winCur + 1)) ∈ s.trace) :
    Can (fun w' => Steady u w' ∧ remaining u w' < remaining u w) w := by
  obtain ⟨choice, hactive', hless⟩ := client_moves hcountable h hactive hnot hheard
  have hafter := h.client_step hcountable choice
  refine .after (.client choice) trivial (.here ⟨⟨s, hafter, hactive', hwaits⟩, ?_⟩)
  rw [remaining_eq hafter, remaining_eq h]
  omega

theorem moves (hcountable : u.Countable) (hslots : u.width ≤ 255) (hfile : u.chunks ≠ [])
    (h : Steady u w) (hnot : w.client.state ≠ .sendEofAndQuit) :
    Can (fun w' => Steady u w' ∧ remaining u w' < remaining u w) w := by
  obtain ⟨s, hconnected, hactive, hwaits⟩ := h
  have hphase := hconnected.pair.serving.phase
  have hle := hconnected.pair.curRRnum_le
  have htop := hconnected.upload.winCur_le
  rcases hwaits with hstate | hstate
  · have hfresh := (hphase.preparing_of (by simp [hstate])).fresh
    by_cases hsome : 1 ≤ w.client.winCur
    · -- the child has heard no data packet yet
      refine (begins hcountable hslots hconnected hstate hsome).mono ?_
      rintro w' ⟨s', hconnected', hclient, hready⟩
      refine ⟨⟨s', hconnected', hclient ▸ hactive, .inr hready⟩, ?_⟩
      obtain ⟨receiver, hreceives⟩ := hconnected'.pair.serving.phase.waiting_of hready
      have hnext := hreceives.stable.next
      have hnumber := receiver.count
      rw [remaining_eq hconnected', remaining_eq hconnected, hclient]
      omega
    · refine client_advances hcountable hconnected hactive (.inl hstate) hnot fun hclosed => ?_
      exact absurd (some_sent hfile hconnected hclosed) hsome
  · obtain ⟨receiver, hreceives⟩ := hphase.waiting_of hstate
    have hnext := hreceives.stable.next
    have hnumber := receiver.count
    by_cases hbehind : s.curRRnum ≤ w.client.winCur
    · -- the packet that the child expects has been sent
      refine (feeds hcountable hconnected hstate (by omega) hbehind).mono ?_
      rintro w' ⟨s', hconnected', hclient, hready, -, hmore⟩
      refine ⟨⟨s', hconnected', hclient ▸ hactive, .inr hready⟩, ?_⟩
      have := hmore rfl
      rw [remaining_eq hconnected', remaining_eq hconnected, hclient]
      omega
    · have hall : s.curRRnum = w.client.winCur + 1 := by omega
      by_cases hclosed : w.client.state = .receiveDataWindowClosed
      · have hsome := some_sent hfile hconnected hclosed
        refine (reacknowledges hcountable hconnected hstate hall hsome).trans ?_
        rintro w' ⟨s', seqNum, hconnected', hclient, hready, hsame, hsent⟩
        have hless : remaining u w' = remaining u w := by
          rw [remaining_eq hconnected', remaining_eq hconnected, hclient, hsame]
        rw [← hless]
        refine client_advances hcountable hconnected' (hclient ▸ hactive) (.inr hready)
          (hclient ▸ hnot) fun _ => ⟨seqNum, ?_⟩
        rwa [hclient, ← hall]
      · exact client_advances hcountable hconnected hactive (.inr hstate) hnot
          fun hstate' => absurd hstate' hclosed

theorem ends_file (hcountable : u.Countable) (hslots : u.width ≤ 255) (hfile : u.chunks ≠ [])
    (h : Steady u w) :
    Can (fun w' => Steady u w' ∧ w'.client.state = .sendEofAndQuit) w :=
  Runs.canReach_of_measure (Steady u) (remaining u)
    (fun _ hsteady hnot => moves hcountable hslots hfile hsteady hnot) h

/-- The child has written the whole file, and has read that it is the whole file. -/
def Finished (u : Upload) (w : World) : Prop :=
  ∃ s, w.children = [s] ∧ s.trace.writes = u.chunks ∧ (s.state = .receivedEof ∨ s.state = .done)

theorem finished_of_complete (h : Connected u w s) (hcomplete : Complete u s)
    (hstate : s.state = .receivedEof ∨ s.state = .done) : Finished u w :=
  ⟨s, h.children, Complete.writes hcomplete h.pair.serving.phase.stored, hstate⟩

structure Concluding (u : Upload) (w : World) (s : Server) : Prop extends Connected u w s where
  state : w.client.state = .sendEofAndQuit
  edge : w.client.winMin = w.client.winCur
  waiting : s.state = .readyForNextDataPacket
  answered : ∃ datagram, .sent .rcopy datagram ∈ s.trace
  ending : ∃ seqNum, .sent (.child 0) (plainDatagram [] .endOfFile seqNum) ∈ w.client.trace

theorem concludes (hcountable : u.Countable) (hfile : u.chunks ≠ []) (h : Connected u w s)
    (hwaits : s.waits) (hstate : w.client.state = .sendEofAndQuit) :
    Can (fun w' => ∃ s', Concluding u w' s') w := by
  have hcomplete := h.pair.eof hstate
  unfold Complete at hcomplete
  have hle := h.pair.curRRnum_le
  have htop := h.upload.winCur_le
  have hlength := List.length_pos_iff.mpr hfile
  have hcount := count_lt hcountable
  have hdata : s.state = .readyForNextDataPacket := by
    rcases hwaits with hsetup | hdata
    · have hfresh := (h.pair.serving.phase.preparing_of (by simp [hsetup])).fresh
      omega
    · exact hdata
  refine (reacknowledges hcountable h hdata (by omega) (by omega)).trans ?_
  rintro w' ⟨s', seqNum, h', hclient, hready, -, hsent⟩
  have hlistens : w'.client.listening? = some w'.client.sentEof := by
    simp [Client.listening?, hclient, hstate]
  obtain ⟨index, hdelivered⟩ := delivers_to_client h' hsent
  rw [step_rr hlistens (by omega)] at hdelivered
  have hafter := h'.client_step hcountable (.deliver index)
  have hnumber : s.curRRnum = w'.client.winCur + 1 := by
    rw [hclient]
    omega
  refine .after (.client (.deliver index)) trivial (.here ⟨s', hafter, ?_, ?_, hready,
    ⟨_, hsent⟩, w'.client.seqNum, ?_⟩)
  · have hdone := h'.engaged.ends (hclient ▸ hstate)
    have hlast : s.curRRnum = w'.client.curPacketNum := by rw [hnumber, h'.upload.count]
    rw [hdelivered]
    simp [Client.acknowledged, Client.heard, Client.sentEof, Client.send, hdone, hlast]
  · rw [hdelivered, hnumber]
    exact sub32_of_le (Nat.le_add_left 1 _)
  · rw [hdelivered, ← h'.engaged.server]
    exact List.mem_append_right _ (List.mem_singleton_self _)

theorem reads_eof (hcountable : u.Countable) (hfile : u.chunks ≠ []) (h : Connected u w s)
    (hwaits : s.waits) (hstate : w.client.state = .sendEofAndQuit) :
    Can (fun w' => ∃ s', Connected u w' s' ∧ Active w'.client ∧ s'.state = .receivedEof) w := by
  refine (concludes hcountable hfile h hwaits hstate).trans ?_
  rintro w' ⟨s', hconcluding⟩
  obtain ⟨seqNum, hsent⟩ := hconcluding.ending
  obtain ⟨arrival, harrived⟩ := delivers_to_child hcountable hconcluding.toConnected hsent
  have hrecv := @Framing.recvBuf_plainDatagram [] .endOfFile seqNum (by simp [maxPacketLen])
  obtain ⟨-, houtcome⟩ := step_read .rcopy hconcluding.waiting ⟨_, hrecv⟩
  refine .after (.child 0 (.deliver arrival)) trivial (.here ⟨_, harrived, ?_, ?_⟩)
  · exact .inr (.inr (.inr (.inl hconcluding.state)))
  · cases houtcome with
    | eof received accepted flag state => exact state
    | data received accepted flag =>
        cases hrecv.symm.trans accepted
        simp at flag
    | dropped _ _ notEof => exact absurd rfl (notEof _ hrecv)

/-- The child has not given up, stopped with a fault or refused the file. -/
def Responds (u : Upload) (s : Server) : Prop :=
  Serves s ∨ s.state = .receivedEof ∨ s.state = .done ∧ Complete u s

theorem completes (hcountable : u.Countable) (hslots : u.width ≤ 255) (hfile : u.chunks ≠ [])
    (h : Connected u w s) (hactive : Active w.client) (hresponds : Responds u s) :
    Can (Finished u) w := by
  have hread {w : World} {s : Server} (h : Connected u w s) (hstate : s.state = .receivedEof) :
      Finished u w :=
    finished_of_complete h (h.pair.serving.phase.complete_of hstate) (.inl hstate)
  rcases hresponds with hserves | hstate | ⟨hstate, hcomplete⟩
  · refine (settles hcountable hslots h hserves).trans ?_
    rintro settled ⟨s', h', hclient, hwaits, -⟩
    refine (ends_file hcountable hslots hfile ⟨s', h', hclient ▸ hactive, hwaits⟩).trans ?_
    rintro ended ⟨⟨t, hended, -, hwaits⟩, heof⟩
    refine (reads_eof hcountable hfile hended hwaits heof).mono ?_
    rintro last ⟨t', hlast, -, hstate⟩
    exact hread hlast hstate
  · exact .here (hread h hstate)
  · exact .here (finished_of_complete h hcomplete (.inr hstate))

end SlidingWindow.Progress

import SlidingWindow.Rcopy

/-! Everything one turn of the client can do, in the transfer and before it. A client
that has entered the transfer never goes back to the setup phase. -/
namespace SlidingWindow.Client

def inTransfer (c : Client) : Prop :=
  c.state = .sendData ∨ c.state = .sendDataSREJ ∨ c.state = .receiveDataWindowOpen ∨
    c.state = .receiveDataWindowClosed ∨ c.state = .timeoutOnServer ∨
    c.state = .sendEofAndQuit ∨ c.state = .done ∨ c.state = .exited

structure Ring (c : Client) : Prop where
  positive : 0 < c.winSize
  length : c.window.length = c.winSize

def sentChunk (c : Client) (chunk : Bytes) (rest : List Bytes) : Client :=
  let c :=
    { c.send (numberedDatagram chunk .data c.seqNum c.curPacketNum) with
      localFile := rest
      seqNum := u32 (c.seqNum + 1)
      winCur := u32 (c.winCur + 1)
      curPacketNum := u32 (c.curPacketNum + 1)
      window := c.window.set (c.winCur % c.winSize) (c.nextPacket chunk) }
  { c with state := c.afterSend }

def resent (c : Client) (chunk : BufferChunk) : Client :=
  let c := c.send (sendtoErr chunk.buf chunk.len)
  { c with state := c.afterSend }

/-- `process_incoming_data` up to the flag of the packet. -/
def heard (c : Client) (src : Peer) : Client :=
  { c with
    timeout := 0
    server := src
    state := if c.isWindowClosed then .receiveDataWindowClosed else .sendData }

def acknowledged (c : Client) (number : Nat) : Client :=
  { c with
    winMin := sub32 number 1
    winMax := sub32 (u32 (number + c.winSize)) 1
    state :=
      if c.doneTransmitting ∧ number = c.curPacketNum then .sendEofAndQuit else .sendData }

/-- The client that polls its socket in this turn, after what it sends before. -/
def listening? (c : Client) : Option Client :=
  match c.state with
  | .receiveDataWindowOpen => some c
  | .receiveDataWindowClosed => some c
  | .sendEofAndQuit => some c.sentEof
  | _ => none

def resending? (c : Client) : Input → Option (Client × Nat)
  | .datagram _ _ => if c.state = .sendDataSREJ then some (c, sub32 c.numSREJ 1) else none
  | _ =>
      if c.state = .sendDataSREJ then some (c, sub32 c.numSREJ 1)
      else if c.state = .receiveDataWindowClosed ∧ u32 (c.timeout + 1) ≤ 10 then
        some ({ c with timeout := u32 (c.timeout + 1) }, c.winMin)
      else none

/-- Where a rejected number goes: the EOF phase keeps it in a variable of its own. -/
def noteSREJ (c : Client) (number : Nat) : Nat :=
  if c.state = .sendEofAndQuit then c.numSREJ else number

/-- One constructor for each thing a turn can do. -/
inductive Turn (c : Client) : Input → Client → Prop
  | halted {input : Input} (state : c.state = .done ∨ c.state = .exited) : Turn c input c
  | gaveUp {input : Input} (state : c.state = .timeoutOnServer) :
      Turn c input { c with state := .done }
  | readFailed (state : c.state = .sendData) : Turn c .failure { c with state := .done }
  | fileEnded {input : Input} (state : c.state = .sendData) (file : c.localFile = [])
      (reads : input ≠ .failure) :
      Turn c input { c with doneTransmitting := true, state := .receiveDataWindowClosed }
  | sent {input : Input} (state : c.state = .sendData) (chunk : Bytes) (rest : List Bytes)
      (file : c.localFile = chunk :: rest) : Turn c input (c.sentChunk chunk rest)
  | resent {input : Input} {before : Client} {index : Nat} {slot : BufferChunk}
      (source : c.resending? input = some (before, index))
      (held : c.window[index % c.winSize]? = some slot) (filled : slot.len ≠ 0) :
      Turn c input (before.resent slot)
  | emptySlot {input : Input} {before : Client} {index : Nat} {slot : BufferChunk}
      (source : c.resending? input = some (before, index))
      (held : c.window[index % c.winSize]? = some slot) (empty : slot.len = 0) :
      Turn c input { c with state := .exited }
  | expired {input : Input} (state : c.state = .receiveDataWindowClosed)
      (quiet : ∀ src datagram, input ≠ .datagram src datagram)
      (late : 10 < u32 (c.timeout + 1)) :
      Turn c input { c with timeout := u32 (c.timeout + 1), state := .timeoutOnServer }
  | polled {input : Input} (state : c.state = .receiveDataWindowOpen)
      (quiet : ∀ src datagram, input ≠ .datagram src datagram) :
      Turn c input
        { c with
          state := if c.winCur < c.winMax then .sendData else .receiveDataWindowClosed }
  | eofUnanswered {input : Input} (state : c.state = .sendEofAndQuit)
      (quiet : ∀ src datagram, input ≠ .datagram src datagram) :
      Turn c input
        { c.sentEof with
          timeout := u32 (c.timeout + 1)
          state :=
            if 10 < u32 (c.timeout + 1) then .timeoutOnServer else .sendEofAndQuit }
  | crashed {src : Peer} {datagram : Datagram} {before : Client} {fault : Fault}
      (listens : c.listening? = some before) (runt : recvBuf datagram = .error fault) :
      Turn c (.datagram src datagram) { before with state := .exited }
  | corrupted {src : Peer} {datagram : Datagram} {before : Client}
      (listens : c.listening? = some before) (crcError : recvBuf datagram = .ok none) :
      Turn c (.datagram src datagram) (before.heard src)
  | acknowledged {src : Peer} {datagram : Datagram} {before : Client} {received : Received}
      (listens : c.listening? = some before) (accepted : recvBuf datagram = .ok (some received))
      (flag : received.flag = some .rr) :
      Turn c (.datagram src datagram)
        ({ before.heard src with seqNum := received.seqNum }.acknowledged
          (fieldOf received.packet))
  | rejected {src : Peer} {datagram : Datagram} {before : Client} {received : Received}
      (listens : c.listening? = some before) (accepted : recvBuf datagram = .ok (some received))
      (flag : received.flag = some .srej) :
      Turn c (.datagram src datagram)
        { before.heard src with
          seqNum := received.seqNum
          numSREJ := c.noteSREJ (fieldOf received.packet)
          state := .sendDataSREJ }
  | ended {src : Peer} {datagram : Datagram} {before : Client} {received : Received}
      (listens : c.listening? = some before) (accepted : recvBuf datagram = .ok (some received))
      (flag : received.flag ≠ some .rr ∧ received.flag ≠ some .srej) :
      Turn c (.datagram src datagram)
        { before.heard src with seqNum := received.seqNum, state := .done }

section Functions

variable {c : Client}

theorem step_of_ok {c' : Client} {input : Input} (h : c.enterStateMachine input = .ok c') :
    c.step input = c' := by
  simp only [Client.step, h]

theorem step_of_error {input : Input} {fault : Fault}
    (h : c.enterStateMachine input = .error fault) :
    c.step input = { c.beforeFault with state := .exited } := by
  simp only [Client.step, h]

theorem beforeFault_eq (hsend : c.state ≠ .sendData) (heof : c.state ≠ .sendEofAndQuit) :
    c.beforeFault = c := by
  unfold beforeFault
  split <;> simp_all

theorem beforeFault_listening {before : Client} (h : c.listening? = some before) :
    c.beforeFault = before := by
  unfold beforeFault
  unfold listening? at h
  split at h <;> simp_all

theorem step_halted (h : c.state = .done ∨ c.state = .exited) (input : Input) :
    c.step input = c := by
  apply step_of_ok
  rcases h with h | h <;> simp only [enterStateMachine, h]

theorem Ring.slotIndex (ring : c.Ring) (index : Nat) :
    c.slotIndex index = .ok (index % c.winSize) := by
  have hlt := Nat.mod_lt index ring.positive
  have := ring.positive
  unfold Client.slotIndex
  rw [ring.length, if_neg (by omega), if_neg (by omega)]

theorem Ring.sendChunk (ring : c.Ring) (chunk : Bytes) (rest : List Bytes) :
    { c with localFile := rest }.sendChunk chunk = .ok (c.sentChunk chunk rest) := by
  have hslot : ({ c with localFile := rest }.sendPacket (c.nextPacket chunk)).slotIndex
      c.winCur = .ok (c.winCur % c.winSize) := ring.slotIndex c.winCur
  unfold Client.sendChunk keepPacket
  change ({ c with localFile := rest }.sendPacket (c.nextPacket chunk)).slotIndex c.winCur >>=
    _ = _
  rw [hslot]
  rfl

theorem Ring.exists_slot (ring : c.Ring) (index : Nat) :
    ∃ slot, c.window[index % c.winSize]? = some slot := by
  have hlt : index % c.winSize < c.window.length := by
    rw [ring.length]
    exact Nat.mod_lt index ring.positive
  exact ⟨_, List.getElem?_eq_getElem hlt⟩

theorem Ring.sendDataFromWindow (ring : c.Ring) {index : Nat} {slot : BufferChunk}
    (hslot : c.window[index % c.winSize]? = some slot) :
    c.sendDataFromWindow index =
      if slot.len = 0 then .error .emptySend else .ok (c.resent slot) := by
  unfold Client.sendDataFromWindow
  rw [ring.slotIndex]
  simp only [bind, Except.bind, List.getD_eq_getElem?_getD, hslot, Option.getD_some]
  rfl

section Reading

variable {src : Peer} {datagram : Datagram} {received : Received} {numSREJ : Nat}

theorem processIncomingData_corrupted (h : recvBuf datagram = .ok none) :
    { c with timeout := 0 }.processIncomingData src datagram numSREJ =
      .ok (c.heard src, numSREJ) := by
  simp only [processIncomingData, h]
  rfl

theorem processIncomingData_rr (h : recvBuf datagram = .ok (some received))
    (hflag : received.flag = some .rr) :
    { c with timeout := 0 }.processIncomingData src datagram numSREJ =
      .ok ({ c.heard src with seqNum := received.seqNum }.acknowledged
        (fieldOf received.packet), numSREJ) := by
  simp only [processIncomingData, h, hflag]
  unfold acknowledged
  split <;> simp_all [heard, isWindowClosed]

theorem processIncomingData_srej (h : recvBuf datagram = .ok (some received))
    (hflag : received.flag = some .srej) :
    { c with timeout := 0 }.processIncomingData src datagram numSREJ =
      .ok ({ c.heard src with seqNum := received.seqNum, state := .sendDataSREJ },
        fieldOf received.packet) := by
  simp only [processIncomingData, h, hflag]
  rfl

theorem processIncomingData_other (h : recvBuf datagram = .ok (some received))
    (hflag : received.flag ≠ some .rr ∧ received.flag ≠ some .srej) :
    { c with timeout := 0 }.processIncomingData src datagram numSREJ =
      .ok ({ c.heard src with seqNum := received.seqNum, state := .done }, numSREJ) := by
  simp only [processIncomingData, h]
  split
  · exact absurd (by assumption) hflag.1
  · exact absurd (by assumption) hflag.2
  · rfl
  · rfl

theorem processIncomingData_numSREJ (c : Client) {after : Client} {number : Nat}
    (h : { c with timeout := 0 }.processIncomingData src datagram numSREJ =
      .ok (after, number)) : after.numSREJ = c.numSREJ := by
  unfold processIncomingData at h
  grind

end Reading

end Functions

section Inversion

variable {c before : Client} {src : Peer} {datagram : Datagram} {numSREJ : Nat}

/-- The two ways of calling `process_incoming_data` differ in what they do with the
rejected number; a number that was not read leaves `numSREJ` as it was. -/
theorem turn_reading (hlistening : c.listening? = some before)
    (hsame : before.numSREJ = c.numSREJ) (hnote : c.noteSREJ numSREJ = c.numSREJ)
    (herror : ∀ fault,
      { before with timeout := 0 }.processIncomingData src datagram numSREJ = .error fault →
      c.enterStateMachine (.datagram src datagram) = .error fault)
    (hok : ∀ after number,
      { before with timeout := 0 }.processIncomingData src datagram numSREJ =
        .ok (after, number) →
      c.enterStateMachine (.datagram src datagram) =
        .ok { after with numSREJ := c.noteSREJ number }) :
    Turn c (.datagram src datagram) (c.step (.datagram src datagram)) := by
  cases hrecv : recvBuf datagram with
  | error fault =>
      rw [step_of_error (herror fault (by simp only [processIncomingData, hrecv])),
        beforeFault_listening hlistening]
      exact .crashed hlistening hrecv
  | ok outcome =>
      cases outcome with
      | none =>
          rw [step_of_ok (hok _ _ (processIncomingData_corrupted hrecv)), hnote, ← hsame]
          exact .corrupted hlistening hrecv
      | some received =>
          by_cases hrr : received.flag = some .rr
          · rw [step_of_ok (hok _ _ (processIncomingData_rr hrecv hrr)), hnote, ← hsame]
            exact .acknowledged hlistening hrecv hrr
          · by_cases hsrej : received.flag = some .srej
            · rw [step_of_ok (hok _ _ (processIncomingData_srej hrecv hsrej))]
              exact @Turn.rejected c src datagram before received hlistening hrecv hsrej
            · rw [step_of_ok (hok _ _ (processIncomingData_other hrecv ⟨hrr, hsrej⟩)), hnote,
                ← hsame]
              exact @Turn.ended c src datagram before received hlistening hrecv ⟨hrr, hsrej⟩

theorem turn_receiveData
    (hstate : c.state = .receiveDataWindowOpen ∨ c.state = .receiveDataWindowClosed)
    (hstep : c.enterStateMachine (.datagram src datagram) = c.receiveData src datagram) :
    Turn c (.datagram src datagram) (c.step (.datagram src datagram)) := by
  have hnote (number : Nat) : c.noteSREJ number = number := by
    unfold noteSREJ
    rcases hstate with h | h <;> simp [h]
  have hlistening : c.listening? = some c := by
    unfold listening?
    rcases hstate with h | h <;> simp [h]
  refine turn_reading hlistening rfl (hnote c.numSREJ) ?_ ?_
  · intro fault h
    rw [hstep, receiveData, h]
    rfl
  · intro after number h
    rw [hstep, receiveData, h, hnote]
    rfl

theorem turn_sendEofAndQuit (hstate : c.state = .sendEofAndQuit) :
    Turn c (.datagram src datagram) (c.step (.datagram src datagram)) := by
  have hnote (number : Nat) : c.noteSREJ number = c.numSREJ := if_pos hstate
  have hlistening : c.listening? = some c.sentEof := by simp [listening?, hstate]
  have hstep : c.enterStateMachine (.datagram src datagram) =
      c.sendEofAndQuit (.datagram src datagram) := by
    simp only [enterStateMachine, hstate]
  refine turn_reading hlistening rfl (hnote 0) ?_ ?_
  · intro fault h
    rw [hstep]
    unfold sendEofAndQuit
    change ({ c.sentEof with timeout := 0 }.processIncomingData src datagram 0 >>=
      fun after => pure after.1) = _
    rw [h]
    rfl
  · intro after number h
    have hkept : after.numSREJ = c.numSREJ := processIncomingData_numSREJ c.sentEof h
    rw [hstep, hnote, ← hkept]
    unfold sendEofAndQuit
    change ({ c.sentEof with timeout := 0 }.processIncomingData src datagram 0 >>=
      fun after => pure after.1) = _
    rw [h]
    rfl

theorem turn_sendDataFromWindow (before : Client) {index : Nat} {input : Input}
    (ring : c.Ring)
    (hsource : c.resending? input = some (before, index))
    (hwindow : before.window = c.window) (hsize : before.winSize = c.winSize)
    (hstate : c.state ≠ .sendData ∧ c.state ≠ .sendEofAndQuit)
    (hstep : c.enterStateMachine input = before.sendDataFromWindow index) :
    Turn c input (c.step input) := by
  have hring : before.Ring := ⟨hsize ▸ ring.positive, by rw [hwindow, hsize, ring.length]⟩
  obtain ⟨slot, hslot⟩ := ring.exists_slot index
  have hbefore : before.window[index % before.winSize]? = some slot := by
    rw [hwindow, hsize, hslot]
  rw [hring.sendDataFromWindow hbefore] at hstep
  by_cases hempty : slot.len = 0
  · rw [if_pos hempty] at hstep
    rw [step_of_error hstep, beforeFault_eq hstate.1 hstate.2]
    exact .emptySlot hsource hslot hempty
  · rw [if_neg hempty] at hstep
    rw [step_of_ok hstep]
    exact .resent hsource hslot hempty

theorem turn_windowClosed {input : Input} (ring : c.Ring)
    (hstate : c.state = .receiveDataWindowClosed)
    (hinput : ∀ src datagram, input ≠ .datagram src datagram) :
    Turn c input (c.step input) := by
  have hstep : c.enterStateMachine input = c.receiveDataWindowClosed input := by
    simp only [enterStateMachine, hstate]
  have hquiet : c.receiveDataWindowClosed input =
      if 10 < u32 (c.timeout + 1) then
        .ok { c with timeout := u32 (c.timeout + 1), state := .timeoutOnServer }
      else { c with timeout := u32 (c.timeout + 1) }.sendDataFromWindow c.winMin := by
    cases input with
    | datagram src datagram => exact absurd rfl (hinput src datagram)
    | silent => rfl
    | failure => rfl
  rw [hquiet] at hstep
  by_cases hlate : 10 < u32 (c.timeout + 1)
  · rw [if_pos hlate] at hstep
    rw [step_of_ok hstep]
    exact .expired hstate hinput hlate
  · rw [if_neg hlate] at hstep
    refine turn_sendDataFromWindow { c with timeout := u32 (c.timeout + 1) } ring ?_
      rfl rfl (by simp [hstate]) hstep
    cases input with
    | datagram src datagram => exact absurd rfl (hinput src datagram)
    | silent => simp [resending?, hstate, Nat.le_of_not_lt hlate]
    | failure => simp [resending?, hstate, Nat.le_of_not_lt hlate]

theorem turn_sendData {input : Input} (ring : c.Ring) (hstate : c.state = .sendData) :
    Turn c input (c.step input) := by
  have hstep : c.enterStateMachine input = c.sendData input := by
    simp only [enterStateMachine, hstate]
  have hread : input = .failure ∨ input ≠ .failure ∧ c.sendData input = match c.localFile with
      | [] => .ok { c with doneTransmitting := true, state := .receiveDataWindowClosed }
      | chunk :: rest => { c with localFile := rest }.sendChunk chunk := by
    cases input with
    | failure => exact .inl rfl
    | silent => exact .inr ⟨by simp, by cases hfile : c.localFile <;> simp only [sendData, hfile]⟩
    | datagram =>
        exact .inr ⟨by simp, by cases hfile : c.localFile <;> simp only [sendData, hfile]⟩
  rcases hread with rfl | ⟨hreads, hread⟩
  · rw [step_of_ok hstep]
    exact .readFailed hstate
  · rw [hread] at hstep
    split at hstep
    · rw [step_of_ok hstep]
      exact .fileEnded hstate (by assumption) hreads
    · rename_i chunk rest hfile
      rw [step_of_ok (hstep.trans (ring.sendChunk chunk rest))]
      exact .sent hstate chunk rest hfile

theorem turn_windowOpen {input : Input} (hstate : c.state = .receiveDataWindowOpen)
    (hinput : ∀ src datagram, input ≠ .datagram src datagram) :
    Turn c input (c.step input) := by
  have hstep : c.enterStateMachine input = .ok { c with
      state := if c.winCur < c.winMax then .sendData else .receiveDataWindowClosed } := by
    simp only [enterStateMachine, hstate]
    unfold receiveDataWindowOpen
    cases input with
    | datagram src datagram => exact absurd rfl (hinput src datagram)
    | silent => dsimp only; split <;> rfl
    | failure => dsimp only; split <;> rfl
  rw [step_of_ok hstep]
  exact .polled hstate hinput

theorem turn_eofUnanswered {input : Input} (hstate : c.state = .sendEofAndQuit)
    (hinput : ∀ src datagram, input ≠ .datagram src datagram) :
    Turn c input (c.step input) := by
  have hstep : c.enterStateMachine input = .ok { c.sentEof with
      timeout := u32 (c.timeout + 1)
      state := if 10 < u32 (c.timeout + 1) then .timeoutOnServer else .sendEofAndQuit } := by
    simp only [enterStateMachine, hstate]
    unfold sendEofAndQuit
    cases input with
    | datagram src datagram => exact absurd rfl (hinput src datagram)
    | silent => by_cases h : 10 < u32 (c.timeout + 1) <;> simp [sentEof, send, h]
    | failure => by_cases h : 10 < u32 (c.timeout + 1) <;> simp [sentEof, send, h]
  rw [step_of_ok hstep]
  exact .eofUnanswered hstate hinput

end Inversion

theorem turn {c : Client} (htransfer : c.inTransfer) (ring : c.Ring) (input : Input) :
    Turn c input (c.step input) := by
  rcases htransfer with h | h | h | h | h | h | h | h
  · exact turn_sendData ring h
  · have hstep : c.enterStateMachine input = c.sendDataFromWindow (sub32 c.numSREJ 1) := by
      simp only [enterStateMachine, h]
    refine turn_sendDataFromWindow c ring ?_ rfl rfl (by simp [h]) hstep
    cases input <;> simp [resending?, h]
  · rcases input.datagram_or_quiet with ⟨src, datagram, rfl⟩ | hinput
    · exact turn_receiveData (.inl h) (by simp only [enterStateMachine, h]; rfl)
    · exact turn_windowOpen h hinput
  · rcases input.datagram_or_quiet with ⟨src, datagram, rfl⟩ | hinput
    · exact turn_receiveData (.inr h) (by simp only [enterStateMachine, h]; rfl)
    · exact turn_windowClosed ring h hinput
  · rw [step_of_ok (by simp only [enterStateMachine, h]; rfl)]
    exact .gaveUp h
  · rcases input.datagram_or_quiet with ⟨src, datagram, rfl⟩ | hinput
    · exact turn_sendEofAndQuit h
    · exact turn_eofUnanswered h hinput
  · rw [step_halted (.inl h)]
    exact .halted (.inl h)
  · rw [step_halted (.inr h)]
    exact .halted (.inr h)

section Kept

variable {c c' : Client} {input : Input}

theorem afterSend_open_or_closed (c : Client) :
    c.afterSend = .receiveDataWindowOpen ∨ c.afterSend = .receiveDataWindowClosed := by
  unfold afterSend
  split
  · exact .inr rfl
  · exact .inl rfl

theorem sentChunk_state (c : Client) (chunk : Bytes) (rest : List Bytes) :
    (c.sentChunk chunk rest).state = .receiveDataWindowOpen ∨
      (c.sentChunk chunk rest).state = .receiveDataWindowClosed :=
  afterSend_open_or_closed (c.sentChunk chunk rest)

theorem resent_state (c : Client) (slot : BufferChunk) :
    (c.resent slot).state = .receiveDataWindowOpen ∨
      (c.resent slot).state = .receiveDataWindowClosed :=
  afterSend_open_or_closed (c.resent slot)

theorem listening?_eq_some {before : Client} (h : c.listening? = some before) :
    before = c ∧ (c.state = .receiveDataWindowOpen ∨ c.state = .receiveDataWindowClosed) ∨
      before = c.sentEof ∧ c.state = .sendEofAndQuit := by
  unfold listening? at h
  split at h <;> simp_all

theorem resending?_eq_some {before : Client} {index : Nat}
    (h : c.resending? input = some (before, index)) :
    before = c ∧ index = sub32 c.numSREJ 1 ∧ c.state = .sendDataSREJ ∨
      before = { c with timeout := u32 (c.timeout + 1) } ∧ index = c.winMin ∧
        c.state = .receiveDataWindowClosed ∧
        ∀ src datagram, input ≠ .datagram src datagram := by
  unfold resending? at h
  cases input <;> grind

theorem listening?_frame {before : Client} (h : c.listening? = some before) :
    ∃ seqNum trace, before = { c with seqNum := seqNum, trace := trace } := by
  rcases listening?_eq_some h with ⟨rfl, -⟩ | ⟨rfl, -⟩
  · exact ⟨_, _, rfl⟩
  · exact ⟨_, _, rfl⟩

theorem listening?_state {before : Client} (h : c.listening? = some before) :
    c.state = .receiveDataWindowOpen ∨ c.state = .receiveDataWindowClosed ∨
      c.state = .sendEofAndQuit := by
  rcases listening?_eq_some h with ⟨-, hopen | hclosed⟩ | ⟨-, heof⟩
  · exact .inl hopen
  · exact .inr (.inl hclosed)
  · exact .inr (.inr heof)

theorem resending?_frame {before : Client} {index : Nat}
    (h : c.resending? input = some (before, index)) :
    ∃ timeout, before = { c with timeout := timeout } := by
  rcases resending?_eq_some h with ⟨rfl, -⟩ | ⟨rfl, -⟩
  · exact ⟨_, rfl⟩
  · exact ⟨_, rfl⟩

inductive Takes (c c' : Client) (received : Received) : Prop
  | acknowledged (flag : received.flag = some .rr)
  | rejected (flag : received.flag = some .srej) (state : c'.state = .sendDataSREJ)
      (numSREJ : c'.numSREJ = c.noteSREJ (fieldOf received.packet))
  | ended (flag : received.flag ≠ some .rr ∧ received.flag ≠ some .srej)
      (state : c'.state = .done)

theorem Turn.of_listening {src : Peer} {datagram : Datagram} {before : Client}
    (h : Turn c (.datagram src datagram) c') (hlistens : c.listening? = some before) :
    (∃ fault, recvBuf datagram = .error fault) ∨
      recvBuf datagram = .ok none ∧ c' = before.heard src ∨
      ∃ received, recvBuf datagram = .ok (some received) ∧ Takes c c' received := by
  have hstate := listening?_state hlistens
  cases h with
  | crashed listens runt => exact .inl ⟨_, runt⟩
  | corrupted listens crcError =>
      rw [Option.some.inj (listens.symm.trans hlistens)]
      exact .inr (.inl ⟨crcError, rfl⟩)
  | acknowledged listens accepted flag =>
      exact .inr (.inr ⟨_, accepted, .acknowledged flag⟩)
  | rejected listens accepted flag =>
      exact .inr (.inr ⟨_, accepted, .rejected flag rfl rfl⟩)
  | ended listens accepted flag => exact .inr (.inr ⟨_, accepted, .ended flag rfl⟩)
  | resent source | emptySlot source =>
      rcases resending?_eq_some source with ⟨-, -, h⟩ | ⟨-, -, -, quiet⟩
      · simp [h] at hstate
      · exact absurd rfl (quiet src datagram)
  | expired _ quiet | polled _ quiet | eofUnanswered _ quiet =>
      exact absurd rfl (quiet src datagram)
  | halted state => grind
  | gaveUp state | fileEnded state | sent state => grind

theorem Turn.of_accepted {src : Peer} {datagram : Datagram} {before : Client}
    {received : Received} (h : Turn c (.datagram src datagram) c')
    (hlistens : c.listening? = some before)
    (haccepted : recvBuf datagram = .ok (some received)) : Takes c c' received := by
  rcases h.of_listening hlistens with ⟨fault, hfault⟩ | ⟨hnone, -⟩ | ⟨other, hother, htakes⟩
  · simp [haccepted] at hfault
  · simp [haccepted] at hnone
  · rw [haccepted] at hother
    obtain rfl : received = other := by simpa using hother
    exact htakes

theorem turn_listening {src : Peer} {datagram : Datagram} {before : Client}
    (hlistens : c.listening? = some before) :
    Turn c (.datagram src datagram) (c.step (.datagram src datagram)) := by
  rcases listening?_state hlistens with h | h | h
  · exact turn_receiveData (.inl h) (by simp only [enterStateMachine, h]; rfl)
  · exact turn_receiveData (.inr h) (by simp only [enterStateMachine, h]; rfl)
  · exact turn_sendEofAndQuit h

theorem step_corrupted {src : Peer} {datagram : Datagram} {before : Client}
    (hlistens : c.listening? = some before) (hcorrupt : recvBuf datagram = .ok none) :
    c.step (.datagram src datagram) = before.heard src := by
  have hturn := @turn_listening c src datagram before hlistens
  rcases hturn.of_listening hlistens with ⟨fault, hfault⟩ | ⟨-, hstep⟩ | ⟨other, hother, -⟩
  · simp [hcorrupt] at hfault
  · exact hstep
  · simp [hcorrupt] at hother

theorem Turn.inTransfer (h : Turn c input c') (htransfer : c.inTransfer) :
    c'.inTransfer := by
  unfold Client.inTransfer
  cases h with
  | halted state => exact htransfer
  | sent state chunk rest file =>
      rcases sentChunk_state c chunk rest with h | h
      · exact .inr (.inr (.inl h))
      · exact .inr (.inr (.inr (.inl h)))
  | resent source held filled =>
      rename_i before index slot
      rcases resent_state before slot with h | h
      · exact .inr (.inr (.inl h))
      · exact .inr (.inr (.inr (.inl h)))
  | polled => dsimp only; split <;> simp
  | eofUnanswered => dsimp only; split <;> simp
  | corrupted => simp only [heard]; split <;> simp
  | acknowledged => simp only [Client.acknowledged]; split <;> simp
  | _ => simp

theorem Turn.ring (h : Turn c input c') (ring : c.Ring) : c'.Ring := by
  obtain ⟨hpositive, hlength⟩ := ring
  cases h with
  | sent => exact ⟨hpositive, (List.length_set ..).trans hlength⟩
  | resent source =>
      obtain ⟨timeout, rfl⟩ := resending?_frame source
      exact ⟨hpositive, hlength⟩
  | crashed listens | corrupted listens | acknowledged listens | rejected listens
  | ended listens =>
      obtain ⟨seqNum, trace, rfl⟩ := listening?_frame listens
      exact ⟨hpositive, hlength⟩
  | _ => exact ⟨hpositive, hlength⟩

end Kept

def inSetup (c : Client) : Prop :=
  c.state = .start ∨ c.state = .sendRemoteFileName ∨ c.state = .sendBufferSize ∨
    c.state = .sendWindowSize ∨ c.state = .waitForSetupAcks ∨
    c.state = .readyToSendDataSetup ∨ c.state = .timeoutOnSetupServer

def answered (c : Client) : Option Flag → Client
  | some .ackFileName => { c with fileSuccess := true, state := .sendBufferSize }
  | some .rejFileName => { c with state := .sendRemoteFileName }
  | some .rejFileNameNoOpen => { c with state := .done }
  | some .ackBufferSize => { c with bufSuccess := true, state := .sendWindowSize }
  | some .rejBufferSize => { c with state := .sendBufferSize }
  | some .ackWindowSize => { c with winSuccess := true, state := .readyToSendDataSetup }
  | some .rejWindowSize => { c with state := .sendWindowSize }
  | _ => c

def unansweredState (c : Client) : ClientState :=
  if 10 < u32 (c.timeout + 1) then .timeoutOnSetupServer
  else if ¬ c.fileSuccess then .sendRemoteFileName
  else if ¬ c.bufSuccess then .sendBufferSize
  else .sendWindowSize

inductive SetupTurn (c : Client) : Input → Client → Prop
  | started {input : Input} (state : c.state = .start) :
      SetupTurn c input { c with state := .sendRemoteFileName }
  | fileName {input : Input} (state : c.state = .sendRemoteFileName) :
      SetupTurn c input c.sendRemoteFileName
  | bufferSize {input : Input} (state : c.state = .sendBufferSize) :
      SetupTurn c input c.sendBufferSize
  | windowSize {input : Input} (state : c.state = .sendWindowSize) :
      SetupTurn c input c.sendWindowSize
  | allocated {input : Input} (state : c.state = .readyToSendDataSetup) :
      SetupTurn c input c.readyToSendDataSetup
  | gaveUp {input : Input} (state : c.state = .timeoutOnSetupServer) :
      SetupTurn c input { c with state := .done }
  | unanswered {input : Input} (state : c.state = .waitForSetupAcks)
      (quiet : ∀ src datagram, input ≠ .datagram src datagram) :
      SetupTurn c input { c with timeout := u32 (c.timeout + 1), state := c.unansweredState }
  | crashed {src : Peer} {datagram : Datagram} {fault : Fault}
      (state : c.state = .waitForSetupAcks) (runt : recvBuf datagram = .error fault) :
      SetupTurn c (.datagram src datagram) { c with state := .exited }
  | corrupted {src : Peer} {datagram : Datagram} (state : c.state = .waitForSetupAcks)
      (crcError : recvBuf datagram = .ok none) :
      SetupTurn c (.datagram src datagram) { c with timeout := 0, server := src }
  | answered {src : Peer} {datagram : Datagram} {received : Received}
      (state : c.state = .waitForSetupAcks)
      (accepted : recvBuf datagram = .ok (some received)) :
      SetupTurn c (.datagram src datagram)
        ({ c with timeout := 0, server := src }.answered received.flag)

section Setup

variable {c : Client} {input : Input} {src : Peer} {datagram : Datagram}

theorem setupTurn_answer (hstate : c.state = .waitForSetupAcks) :
    SetupTurn c (.datagram src datagram) (c.step (.datagram src datagram)) := by
  have hstep : c.enterStateMachine (.datagram src datagram) =
      c.waitForSetupAcks (.datagram src datagram) := by
    simp only [enterStateMachine, hstate]
  unfold waitForSetupAcks at hstep
  cases hrecv : recvBuf datagram with
  | error fault =>
      simp only [hrecv] at hstep
      rw [step_of_error hstep, beforeFault_eq (by simp [hstate]) (by simp [hstate])]
      exact .crashed hstate hrecv
  | ok outcome =>
      cases outcome with
      | none =>
          simp only [hrecv] at hstep
          rw [step_of_ok hstep]
          exact .corrupted hstate hrecv
      | some received =>
          have hanswered : c.enterStateMachine (.datagram src datagram) =
              .ok ({ c with timeout := 0, server := src }.answered received.flag) := by
            rw [hstep]
            simp only [hrecv]
            unfold Client.answered
            split <;> simp_all
          rw [step_of_ok hanswered]
          exact .answered hstate hrecv

theorem setupTurn_unanswered (hstate : c.state = .waitForSetupAcks)
    (hquiet : ∀ src datagram, input ≠ .datagram src datagram) :
    SetupTurn c input (c.step input) := by
  have hstep : c.enterStateMachine input =
      .ok { c with timeout := u32 (c.timeout + 1), state := c.unansweredState } := by
    simp only [enterStateMachine, hstate]
    unfold waitForSetupAcks unansweredState
    cases input with
    | datagram src datagram => exact absurd rfl (hquiet src datagram)
    | silent => dsimp only; split <;> (try split) <;> (try split) <;> rfl
    | failure => dsimp only; split <;> (try split) <;> (try split) <;> rfl
  rw [step_of_ok hstep]
  exact .unanswered hstate hquiet

theorem setupTurn (hsetup : c.inSetup) (input : Input) : SetupTurn c input (c.step input) := by
  rcases hsetup with h | h | h | h | h | h | h
  · rw [step_of_ok (by simp only [enterStateMachine, h]; rfl)]
    exact .started h
  · rw [step_of_ok (by simp only [enterStateMachine, h]; rfl)]
    exact .fileName h
  · rw [step_of_ok (by simp only [enterStateMachine, h]; rfl)]
    exact .bufferSize h
  · rw [step_of_ok (by simp only [enterStateMachine, h]; rfl)]
    exact .windowSize h
  · cases input with
    | datagram src datagram => exact setupTurn_answer h
    | silent => exact setupTurn_unanswered h (by simp)
    | failure => exact setupTurn_unanswered h (by simp)
  · rw [step_of_ok (by simp only [enterStateMachine, h]; rfl)]
    exact .allocated h
  · rw [step_of_ok (by simp only [enterStateMachine, h]; rfl)]
    exact .gaveUp h

end Setup

/-- The wait of the client says whether its window is closed. -/
def Gauged (c : Client) : Prop :=
  (c.state = .receiveDataWindowOpen → c.isWindowClosed = false) ∧
    (c.state = .receiveDataWindowClosed → c.isWindowClosed = true)

section Return

variable {c c' : Client} {input : Input} {src : Peer} {datagram : Datagram}

theorem processIncomingData_settled {numSREJ number : Nat}
    (h : c.processIncomingData src datagram numSREJ = .ok (c', number)) :
    c'.inTransfer ∧ c'.Gauged := by
  unfold processIncomingData at h
  unfold inTransfer Gauged isWindowClosed
  unfold isWindowClosed at h
  grind

theorem afterSend_settled (h : c.state = c.afterSend) : c.inTransfer ∧ c.Gauged := by
  unfold inTransfer Gauged
  unfold afterSend at h
  split at h <;> simp_all

theorem sendDataFromWindow_settled {index : Nat}
    (h : c.sendDataFromWindow index = .ok c') : c'.inTransfer ∧ c'.Gauged := by
  unfold sendDataFromWindow at h
  obtain ⟨slot, -, h⟩ := exists_of_bind_ok h
  dsimp only at h
  split at h
  · contradiction
  · cases h
    exact afterSend_settled rfl

theorem sendChunk_settled {chunk : Bytes} (h : c.sendChunk chunk = .ok c') :
    c'.inTransfer ∧ c'.Gauged := by
  unfold sendChunk keepPacket at h
  obtain ⟨slot, -, h⟩ := exists_of_bind_ok h
  cases h
  exact afterSend_settled rfl

theorem receiveData_settled (h : c.receiveData src datagram = .ok c') :
    c'.inTransfer ∧ c'.Gauged := by
  unfold receiveData at h
  obtain ⟨⟨after, number⟩, hread, h⟩ := exists_of_bind_ok h
  cases h
  have hafter : after.inTransfer ∧ after.Gauged := processIncomingData_settled hread
  exact hafter

theorem step_settled (h : c.inTransfer) : (c.step input).inTransfer ∧ (c.step input).Gauged := by
  unfold step
  cases hstep : c.enterStateMachine input with
  | error fault => simp [inTransfer, Gauged]
  | ok c' =>
      simp only
      unfold enterStateMachine at hstep
      rcases h with h | h | h | h | h | h | h | h <;> simp only [h] at hstep
      · unfold sendData at hstep
        split at hstep
        · cases hstep
          simp [inTransfer, Gauged]
        · cases hstep
          simp [inTransfer, Gauged, isWindowClosed]
        · exact sendChunk_settled hstep
      · exact sendDataFromWindow_settled hstep
      · unfold receiveDataWindowOpen at hstep
        split at hstep
        · exact receiveData_settled hstep
        · unfold inTransfer Gauged isWindowClosed
          grind
      · unfold receiveDataWindowClosed at hstep
        split at hstep
        · exact receiveData_settled hstep
        · dsimp only at hstep
          split at hstep
          · cases hstep
            simp [inTransfer, Gauged]
          · exact sendDataFromWindow_settled hstep
      · cases hstep
        simp [inTransfer, Gauged, timeoutOnServer]
      · unfold sendEofAndQuit at hstep
        dsimp only at hstep
        split at hstep
        · obtain ⟨⟨after, number⟩, hread, h⟩ := exists_of_bind_ok hstep
          cases h
          exact processIncomingData_settled hread
        · unfold inTransfer Gauged
          grind
      · cases hstep
        simp [inTransfer, Gauged, h]
      · cases hstep
        simp [inTransfer, Gauged, h]

theorem step_inTransfer (h : c.inTransfer) : (c.step input).inTransfer := (step_settled h).1

theorem inSetup_or_inTransfer (c : Client) : c.inSetup ∨ c.inTransfer := by
  unfold inSetup inTransfer
  cases c.state <;> simp

theorem SetupTurn.gauged (h : SetupTurn c input c') : c'.Gauged := by
  unfold Gauged
  cases h with
  | answered => unfold Client.answered; split <;> simp_all
  | unanswered => simp only [unansweredState]; grind
  | _ => simp_all [Client.sendRemoteFileName, Client.sendBufferSize, Client.sendWindowSize,
      sendSetup, Client.readyToSendDataSetup]

theorem step_gauged (c : Client) (input : Input) : (c.step input).Gauged := by
  rcases c.inSetup_or_inTransfer with hsetup | htransfer
  · exact (setupTurn hsetup input).gauged
  · exact (step_settled htransfer).2

end Return

end SlidingWindow.Client

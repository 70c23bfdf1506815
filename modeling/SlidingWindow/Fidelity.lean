import SlidingWindow.Upload

/-! What the ring of the client keeps: the bytes of each packet of the last lap as they
were first sent, so that every resend is a copy of the first transmission. -/
namespace SlidingWindow.Fidelity

open Library Transfer

variable {u : Upload} {c c' : Client} {input : Input} {number : Nat}

def launched (u : Upload) : Client := Client.started u.chunks u.name u.bufSize u.width

def isData (number : Nat) (datagram : Datagram) : Bool :=
  flagOf datagram = some .data ∧ fieldOf datagram = number

def firstSent? (trace : Trace) (number : Nat) : Option Datagram :=
  (trace.sends.map Prod.snd).find? (isData number)

theorem firstSent?_append (first second : Trace) (number : Nat) :
    firstSent? (first ++ second) number =
      (firstSent? first number).or (firstSent? second number) := by
  simp only [firstSent?, Trace.sends_append, List.map_append, List.find?_append]

theorem firstSent?_sent (dst : Peer) (datagram : Datagram) (number : Nat) :
    firstSent? [.sent dst datagram] number =
      if isData number datagram then some datagram else none := by
  simp only [firstSent?, Trace.sends_sent, List.map_cons, List.map_nil, List.find?_singleton]

theorem firstSent?_eq_none {top : Nat} {complete : Prop} {dst : Peer} {added : Trace}
    (hlt : top < 4294967296)
    (hadded : ∀ event ∈ added, ∃ datagram, event = .sent dst datagram ∧
      u.FromClient top complete datagram) (hnumber : top < number) :
    firstSent? added number = none := by
  simp only [firstSent?, List.find?_eq_none, List.mem_map, Trace.sends, List.mem_filterMap]
  rintro datagram ⟨send, ⟨event, hevent, hsend⟩, rfl⟩ hdata
  obtain ⟨datagram, rfl, hclient⟩ := hadded event hevent
  cases hsend
  obtain ⟨hflag, hfield⟩ : flagOf datagram = some .data ∧ fieldOf datagram = number := by
    simpa [isData] using hdata
  obtain ⟨sent, chunk, hgenuine, -, hsent, -⟩ := hclient.data_of_flag hflag
  have hle := hgenuine.le
  rw [u32_of_lt (by omega)] at hsent
  omega

/-- The slots of the last lap hold what the log has first for their packets, and it has
nothing for the packets to come. -/
structure Faithful (u : Upload) (c : Client) : Prop where
  held : ∀ i, i < c.winCur → c.winCur ≤ i + u.width →
    ∃ slot, Ring.slot? c.window i = some slot ∧
      firstSent? c.trace (i + 1) = some (sendtoErr slot.buf slot.len)
  unsent : ∀ number, c.winCur < number → firstSent? c.trace number = none

theorem ring_turn (hturn : Client.Turn c input c') :
    c'.winCur = c.winCur ∧ c'.window = c.window ∨
      ∃ chunk rest, c.localFile = chunk :: rest ∧ c' = c.sentChunk chunk rest := by
  cases hturn with
  | sent _ chunk rest file => exact .inr ⟨chunk, rest, file, rfl⟩
  | resent source =>
      obtain ⟨timeout, rfl⟩ := Client.resending?_frame source
      exact .inl ⟨rfl, rfl⟩
  | crashed listens | corrupted listens | acknowledged listens | rejected listens
  | ended listens =>
      obtain ⟨seqNum, trace, rfl⟩ := Client.listening?_frame listens
      exact .inl ⟨rfl, rfl⟩
  | _ => exact .inl ⟨rfl, rfl⟩

theorem Faithful.held_of_same (h : Faithful u c) {added : Trace}
    (hcur : c'.winCur = c.winCur) (hwindow : c'.window = c.window)
    (htrace : c'.trace = c.trace ++ added) {i : Nat} (hlow : i < c'.winCur)
    (hlap : c'.winCur ≤ i + u.width) :
    ∃ slot, Ring.slot? c'.window i = some slot ∧
      firstSent? c'.trace (i + 1) = some (sendtoErr slot.buf slot.len) := by
  rw [hcur] at hlow hlap
  obtain ⟨slot, hslot, hfirst⟩ := h.held i hlow hlap
  exact ⟨slot, hwindow ▸ hslot, by rw [htrace, firstSent?_append, hfirst, Option.some_or]⟩

theorem Faithful.held_of_sent (h : Faithful u c) (hupload : Sender.Uploading u c)
    (hcount : u.chunks.length < 4294967294) {chunk : Bytes} {rest : List Bytes}
    (hfile : c.localFile = chunk :: rest) {i : Nat} (hlow : i < (c.sentChunk chunk rest).winCur)
    (hlap : (c.sentChunk chunk rest).winCur ≤ i + u.width) :
    ∃ slot, Ring.slot? (c.sentChunk chunk rest).window i = some slot ∧
      firstSent? (c.sentChunk chunk rest).trace (i + 1) =
        some (sendtoErr slot.buf slot.len) := by
  have hlt := (hupload.next_chunk hfile).1
  have hlength := hupload.length
  have hpositive := hupload.positive
  have hnumber := hupload.count
  have hcur : (c.sentChunk chunk rest).winCur = c.winCur + 1 := u32_of_lt (by omega)
  have hwindow : (c.sentChunk chunk rest).window = Ring.store c.window c.winCur
      (c.nextPacket chunk) := by
    rw [Ring.store, hupload.ring.length]
    rfl
  have htrace : (c.sentChunk chunk rest).trace =
      c.trace ++ [.sent c.server (numberedDatagram chunk .data c.seqNum c.curPacketNum)] := rfl
  rw [hcur] at hlow hlap
  rw [hwindow, htrace, firstSent?_append]
  by_cases hnew : i = c.winCur
  · refine ⟨_, by rw [hnew, Ring.slot?_store_self (by omega)], ?_⟩
    have hdata : isData (i + 1) (numberedDatagram chunk .data c.seqNum c.curPacketNum) := by
      simp [isData, hnumber, hnew, u32_of_lt (show c.winCur + 1 < 4294967296 by omega)]
    rw [h.unsent (i + 1) (by omega), Option.none_or, firstSent?_sent, if_pos hdata]
    rfl
  · obtain ⟨slot, hslot, hfirst⟩ := h.held i (by omega) (by omega)
    refine ⟨slot, ?_, by rw [hfirst, Option.some_or]⟩
    rw [Ring.slot?_store_of_gt (by omega) (by omega), hslot]

theorem Faithful.step (hcountable : u.Countable) (hphase : ClientPhase u c)
    (h : Faithful u c) (input : Input) : Faithful u (c.step input) := by
  have hcount := count_lt hcountable
  obtain ⟨hphase', hle⟩ := hphase.step hcountable input
  have htop := hphase'.winCur_le
  obtain ⟨added, htrace, hadded⟩ :=
    @ClientPhase.sends u c True hcountable hphase (fun _ => trivial) input
  refine ⟨fun i hlow hlap => ?_, fun number hnumber => ?_⟩
  · rcases hphase.turns input with ⟨hprepare, -, hturn⟩ | ⟨hsame, -⟩ | ⟨hupload, hturn⟩
    · have hfresh : (c.step input).winCur = 0 := by
        rcases hprepare.turn_cases hturn with hprepare' | ⟨-, hstart⟩
        · exact hprepare'.fresh
        · rw [hstart]
          rfl
      omega
    · exact h.held_of_same (by rw [hsame]) (by rw [hsame]) htrace hlow hlap
    · rcases ring_turn hturn with ⟨hcur, hwindow⟩ | ⟨chunk, rest, hfile, hsent⟩
      · exact h.held_of_same hcur hwindow htrace hlow hlap
      · rw [hsent] at hlow hlap ⊢
        exact h.held_of_sent hupload hcount hfile hlow hlap
  · rw [htrace, firstSent?_append, h.unsent number (by omega), Option.none_or]
    exact firstSent?_eq_none (by omega) hadded hnumber

theorem preparing_launched (u : Upload) : Preparing u (launched u) :=
  ⟨.inl (.inl rfl), rfl, rfl, rfl, rfl, rfl, rfl⟩

theorem run_faithful (hcountable : u.Countable) (inputs : List Input) :
    ClientPhase u (Runs.run Client.step (launched u) inputs) ∧
      Faithful u (Runs.run Client.step (launched u) inputs) := by
  refine Runs.run_invariant (fun c => ClientPhase u c ∧ Faithful u c) ?_ ?_ Runs.along_true
  · intro c input h _
    exact ⟨(h.1.step hcountable input).1, h.2.step hcountable h.1 input⟩
  · exact ⟨.preparing (preparing_launched u),
      fun i hlow _ => absurd hlow (Nat.not_lt_zero i), fun number _ => rfl⟩

def Transfers (c : Client) : Prop :=
  c.state = .sendData ∨ c.state = .sendDataSREJ ∨ c.state = .receiveDataWindowOpen ∨
    c.state = .receiveDataWindowClosed ∨ c.state = .sendEofAndQuit

/-- The slot of packet `i + 1` holds the first datagram of that packet, in its bytes and its
length, and a resend sends that datagram and changes nothing else. -/
def HoldsFirst (c : Client) (i : Nat) : Prop :=
  ∃ slot datagram, c.window[i % c.winSize]? = some slot ∧
    firstSent? c.trace (i + 1) = some datagram ∧ slot.len = datagram.length ∧
    load slot.buf 0 slot.len = datagram ∧
    c.sendDataFromWindow i =
      .ok { c with trace := c.trace ++ [.sent c.server datagram], state := c.afterSend }

theorem Transfers.uploading (htransfer : Transfers c) (hphase : ClientPhase u c) :
    Sender.Uploading u c := by
  cases hphase with
  | uploading upload => exact upload
  | preparing prepare =>
      have := prepare.state
      unfold Transfers at htransfer
      unfold Client.inSetup at this
      grind

theorem holdsFirst (hupload : Sender.Uploading u c) (h : Faithful u c) {i : Nat}
    (hlow : i < c.winCur) (hlap : c.winCur ≤ i + u.width) : HoldsFirst c i := by
  obtain ⟨slot, hslot, hfirst⟩ := h.held i hlow hlap
  have hfilled : slot.len ≠ 0 := by
    obtain ⟨stored, hstored, hpacket⟩ := hupload.slots i hlow hlap
    rw [hslot] at hstored
    cases hstored
    exact hpacket.filled
  rw [hupload.slot?_eq] at hslot
  refine ⟨slot, _, hslot, hfirst, by simp [sendtoErr], rfl, ?_⟩
  rw [hupload.ring.sendDataFromWindow hslot, if_neg hfilled]
  rfl

/-- In every state of the transfer that the client can reach, whatever arrives and
whenever, a packet of the last lap is resent as it was first sent. -/
theorem resends_first_transmission (hcountable : u.Countable) (inputs : List Input)
    (htransfer : Transfers (Runs.run Client.step (launched u) inputs)) :
    let c := Runs.run Client.step (launched u) inputs
    c.curPacketNum = c.winCur + 1 ∧
      ∀ i, i < c.winCur → c.winCur ≤ i + c.winSize → HoldsFirst c i := by
  obtain ⟨hphase, hfaithful⟩ := run_faithful hcountable inputs
  have hupload := htransfer.uploading hphase
  refine ⟨hupload.count, fun i hlow hlap => ?_⟩
  rw [hupload.winSize] at hlap
  exact holdsFirst hupload hfaithful hlow hlap

instance : DecidablePred Transfers := fun _ => inferInstanceAs (Decidable (_ ∨ _))

/-- Three packets in a ring of two slots: an `SREJ`, an `RR` and a timeout on the way. -/
def threeSent : List Input :=
  [.silent, .silent, .datagram (.child 0) (plainDatagram [] .ackFileName 1),
    .silent, .datagram (.child 0) (plainDatagram [] .ackBufferSize 2),
    .silent, .datagram (.child 0) (plainDatagram [] .ackWindowSize 3),
    .silent, .silent, .silent, .silent,
    .datagram (.child 0) (numberedDatagram [] .srej 4 1), .silent,
    .datagram (.child 0) (numberedDatagram [] .rr 5 2), .silent, .silent]

theorem resends_first_transmission_threeSent :
    let c := Runs.run Client.step (launched (letters 2 (by decide))) threeSent
    c.curPacketNum = c.winCur + 1 ∧
      ∀ i, i < c.winCur → c.winCur ≤ i + c.winSize → HoldsFirst c i :=
  resends_first_transmission ⟨by decide, by decide⟩ threeSent (by decide +kernel)

end SlidingWindow.Fidelity

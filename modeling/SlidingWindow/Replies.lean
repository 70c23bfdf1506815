import SlidingWindow.DataPhase
import SlidingWindow.Framing

/-! What a server child puts on the network, and for what: each datagram that it sends
answers one packet that it has accepted. -/
namespace SlidingWindow.Replies

open Library ServerWindow

variable {s s' : Server} {input : Input}

theorem seqNumOf_lt (packet : Bytes) : seqNumOf packet < 4294967296 := by
  have h0 := (byteAt packet 0).toNat_lt
  have h1 := (byteAt packet 1).toNat_lt
  have h2 := (byteAt packet 2).toNat_lt
  have h3 := (byteAt packet 3).toNat_lt
  have hload : load packet 0 4 =
      [byteAt packet 0, byteAt packet 1, byteAt packet 2, byteAt packet 3] := by
    simp [load, List.range_succ]
  simp only [seqNumOf, hload, ntohl, List.foldl_cons, List.foldl_nil]
  omega

theorem seqNumOf_plainDatagram (buf : Bytes) (flag : Flag) (seqNum : ℕ) :
    seqNumOf (plainDatagram buf flag seqNum) = u32 seqNum := by
  rw [seqNumOf, plainDatagram, sendtoErr, load_load (by omega), Nat.add_zero,
    Framing.load_sendBuf_seqNum, ntohl_htonl]

theorem seqNumOf_numberedDatagram (buf : Bytes) (flag : Flag) (seqNum number : ℕ) :
    seqNumOf (numberedDatagram buf flag seqNum number) = u32 seqNum := by
  rw [seqNumOf, numberedDatagram, sendtoErr, load_load (by omega), Nat.add_zero,
    Framing.load_sendBufWithPacketNum_seqNum, ntohl_htonl]

theorem recvBuf_seqNum_lt {datagram : Datagram} {received : Received}
    (h : recvBuf datagram = .ok (some received)) : received.seqNum < 4294967296 := by
  unfold recvBuf at h
  dsimp only at h
  split at h
  · simp at h
  · split at h
    · simp at h
    · cases h
      exact seqNumOf_lt _

/-- The child has a packet that it has not answered yet. -/
def Owes (s : Server) : Prop :=
  s.state = .start ∨ s.state = .setupClientSocket ∨ s.state = .receivedRemoteFileName ∨
    s.state = .receivedBufferSize ∨ s.state = .receivedWindowSize ∨
    s.state = .readyForDataPacketsSetup ∨ s.state = .receivedData ∨ s.state = .receivedEof

def Made (s : Server) (datagram : Datagram) : Prop :=
  ∃ flag, datagram = plainDatagram [] flag s.seqNum ∨
    ∃ number, datagram = numberedDatagram [] flag s.seqNum number

def heard? (s : Server) : Input → Option (Peer × ℕ)
  | .datagram src datagram =>
      if s.state = .readyForNextSetupPacket ∨ s.state = .readyForNextDataPacket then
        match recvBuf datagram with
        | .ok (some received) => some (src, received.seqNum)
        | _ => none
      else none
  | _ => none

/-- A turn takes a packet in, answers the one that is owed, or does neither. -/
inductive Exchange (s : Server) (input : Input) (s' : Server) : Prop
  | took (src : Peer) (seqNum : ℕ) (heard : heard? s input = some (src, seqNum))
      (trace : s'.trace = s.trace) (client : s'.client = src) (same : s'.seqNum = seqNum)
      (bound : seqNum < 4294967296)
  | answered (deaf : heard? s input = none) (before : Owes s) (after : ¬ Owes s')
      (added : Trace) (datagram : Datagram) (trace : s'.trace = s.trace ++ added)
      (sends : Trace.sends added = [(s.client, datagram)]) (made : Made s datagram)
  | quiet (deaf : heard? s input = none) (added : Trace) (trace : s'.trace = s.trace ++ added)
      (sends : Trace.sends added = [])
      (kept : Owes s' → Owes s ∧ s'.client = s.client ∧ s'.seqNum = s.seqNum)

theorem heard?_of_owes (h : Owes s) (input : Input) : heard? s input = none := by
  unfold Owes at h
  unfold heard?
  cases input <;> grind

structure Unsent (s t : Server) : Prop where
  state : t.state = .readyForNextDataPacket
  client : t.client = s.client
  seqNum : t.seqNum = s.seqNum
  trace : ∃ written : List Bytes, t.trace = s.trace ++ written.map Event.wrote

section Answer

variable {t : Server}

theorem Unsent.quiet (h : Unsent s t) (howes : Owes s) : Exchange s input t := by
  obtain ⟨written, htrace⟩ := h.trace
  refine .quiet (heard?_of_owes howes input) _ htrace (by simp [Trace.sends, Event.sent?]) ?_
  intro hstill
  exact ⟨howes, h.client, h.seqNum⟩

theorem Unsent.sent (h : Unsent s t) (howes : Owes s) (flag : Flag) (hasSREJ : Bool)
    (numSREJ : ℕ) :
    Exchange s input { t.sendResponse flag with hasSREJ := hasSREJ, numSREJ := numSREJ } := by
  obtain ⟨written, htrace⟩ := h.trace
  have hanswer : (t.sendResponse flag).trace = s.trace ++ (written.map Event.wrote ++
      [.sent s.client (numberedDatagram [] flag s.seqNum t.curRRnum)]) := by
    rw [← h.client, ← h.seqNum, ← List.append_assoc, ← htrace]
    rfl
  refine .answered (heard?_of_owes howes input) howes ?_ _ _ hanswer ?_
    ⟨flag, .inr ⟨t.curRRnum, rfl⟩⟩
  · have hstate := h.state
    simp [Owes, Server.sendResponse, Server.log, hstate]
  · simp [Trace.sends, Event.sent?]

theorem Unsent.sendRRorSREJ (h : Unsent s t) (howes : Owes s) (number : ℕ) :
    Exchange s input (t.sendRRorSREJ number) := by
  unfold Server.sendRRorSREJ
  split
  · exact h.sent howes .rr t.hasSREJ t.numSREJ
  · split
    · exact h.sent howes .srej true t.curRRnum
    · exact h.quiet howes

theorem Unsent.sendSREJonce (h : Unsent s t) (howes : Owes s) :
    Exchange s input t.sendSREJonce := by
  unfold Server.sendSREJonce
  split
  · exact h.sent howes .srej true t.curRRnum
  · exact h.quiet howes

end Answer

theorem exchange_receivedData (hstate : s.state = .receivedData) (h : s.receivedData = .ok s') :
    Exchange s input s' := by
  have howes : Owes s := by simp [Owes, hstate]
  cases Server.dataTurn h with
  | @delivered flushed data hasSREJ next due copied flushes =>
      obtain ⟨hframe, written, htrace⟩ := delivers_flushFrom flushes (.refl _)
      have hunsent : Unsent s flushed :=
        { state := (eq_of_frame Server.state (fun _ => rfl) hframe :)
          client := (eq_of_frame Server.client (fun _ => rfl) hframe :)
          seqNum := (eq_of_frame Server.seqNum (fun _ => rfl) hframe :)
          trace := ⟨data :: written, by
            simp [htrace, Server.delivering, Server.advance, Server.log]⟩ }
      exact hunsent.sendRRorSREJ howes next
  | @repeated flag old answer =>
      have hunsent : Unsent s { s with state := .readyForNextDataPacket } :=
        ⟨rfl, rfl, rfl, [], by simp⟩
      exact hunsent.sent howes flag s.hasSREJ s.numSREJ
  | parked | outside =>
      refine Unsent.sendSREJonce ?_ howes
      exact ⟨rfl, rfl, rfl, [], by simp⟩

theorem exchange_silent (hdeaf : heard? s input = none) (htrace : s'.trace = s.trace)
    (hkept : Owes s' → Owes s ∧ s'.client = s.client ∧ s'.seqNum = s.seqNum) :
    Exchange s input s' :=
  .quiet hdeaf [] (by simp [htrace]) rfl hkept

theorem exchange_sendAnswer (howes : Owes s) (hafter : ¬ Owes s') (flag : Flag)
    (opened : List Bytes)
    (htrace : s'.trace = s.trace ++ (opened.map Event.opened ++
      [.sent s.client (plainDatagram [] flag s.seqNum)])) :
    Exchange s input s' := by
  refine .answered (heard?_of_owes howes input) howes hafter _ _ htrace ?_ ⟨flag, .inl rfl⟩
  simp [Trace.sends, Event.sent?]

theorem heard?_of_quiet (hquiet : ∀ src datagram, input ≠ .datagram src datagram) :
    heard? s input = none := by
  cases input with
  | datagram src datagram => exact absurd rfl (hquiet src datagram)
  | silent => rfl
  | failure => rfl

theorem heard?_of_not_waits (h : ¬ s.waits) (input : Input) : heard? s input = none := by
  cases input with
  | datagram src datagram => exact if_neg h
  | silent => rfl
  | failure => rfl

theorem heard?_of_accepted {src : Peer} {datagram : Datagram} {received : Received}
    (hwaits : s.waits) (haccepted : recvBuf datagram = .ok (some received)) :
    heard? s (.datagram src datagram) = some (src, received.seqNum) := by
  simp only [heard?, if_pos (show _ ∨ _ from hwaits), haccepted]

theorem heard?_of_not_accepted {src : Peer} {datagram : Datagram}
    (h : ∀ received, recvBuf datagram ≠ .ok (some received)) :
    heard? s (.datagram src datagram) = none := by
  simp only [heard?]
  grind

theorem exchange (h : Server.Turn s input s') : Exchange s input s' := by
  cases h with
  | halted state =>
      refine exchange_silent (heard?_of_not_waits ?_ input) rfl fun howes => ⟨howes, rfl, rfl⟩
      unfold Server.waits
      grind
  | gaveUp state =>
      refine exchange_silent (heard?_of_not_waits ?_ input) rfl fun howes => ?_
      · unfold Server.waits
        grind
      · simp [Owes] at howes
  | started state | socketMade state =>
      refine exchange_silent (heard?_of_owes ?_ input) rfl fun _ => ⟨?_, rfl, rfl⟩ <;>
        simp [Owes, state]
  | badName state | diverged state | undelivered state | stuck state | aborted state =>
      refine exchange_silent (heard?_of_owes ?_ _) rfl fun howes => ?_
      · simp [Owes, state]
      · simp [Owes] at howes
  | keptOpen state copied isOpen =>
      exact exchange_sendAnswer (by simp [Owes, state])
        (by simp [Owes, Server.acceptFileName]) .ackFileName [] rfl
  | refused state =>
      exact exchange_sendAnswer (by simp [Owes, state])
        (by simp [Owes, Server.rejectFileName]) .rejFileNameNoOpen [] rfl
  | @opened _ name state =>
      refine exchange_sendAnswer (by simp [Owes, state])
        (by simp [Owes, Server.acceptFileName]) .ackFileName [name.takeWhile (· ≠ 0)] ?_
      dsimp only [Server.openFile, Server.acceptFileName, Server.sendAnswer, Server.log]
      simp
  | bufferSize state =>
      exact exchange_sendAnswer (by simp [Owes, state])
        (by simp [Owes, Server.receivedBufferSize]) .ackBufferSize [] rfl
  | windowSize state =>
      exact exchange_sendAnswer (by simp [Owes, state])
        (by simp [Owes, Server.receivedWindowSize]) .ackWindowSize [] rfl
  | ended state =>
      exact exchange_sendAnswer (by simp [Owes, state])
        (by simp [Owes, Server.answerEof]) .ackEof [] rfl
  | allocated state allocates =>
      obtain rfl := DataPhase.readyForDataPacketSetup_ok allocates
      have howes : Owes s := by simp [Owes, state]
      exact exchange_silent (heard?_of_owes howes input) rfl fun _ => ⟨howes, rfl, rfl⟩
  | delivered state delivers => exact exchange_receivedData state delivers
  | setupUnanswered state quiet =>
      refine exchange_silent (heard?_of_quiet quiet) rfl fun howes => ?_
      simp only [Owes] at howes
      split at howes <;> simp at howes
  | dataUnanswered state quiet =>
      refine exchange_silent (heard?_of_quiet quiet) rfl fun howes => ?_
      simp [Owes] at howes
  | crashed state runt =>
      refine exchange_silent (heard?_of_not_accepted ?_) rfl fun howes => ?_
      · simp [runt]
      · simp [Owes] at howes
  | corrupted state crcError =>
      refine exchange_silent (heard?_of_not_accepted ?_) rfl fun howes => ?_
      · simp [crcError]
      · rcases state with state | state <;> simp [Owes, state] at howes
  | setupRead state accepted =>
      exact .took _ _ (heard?_of_accepted (.inl state) accepted) rfl rfl rfl
        (recvBuf_seqNum_lt accepted)
  | dataRead state accepted =>
      exact .took _ _ (heard?_of_accepted (.inr state) accepted) rfl rfl rfl
        (recvBuf_seqNum_lt accepted)

def heardIn : Server → List Input → List (Peer × ℕ)
  | _, [] => []
  | s, input :: rest => (heard? s input).toList ++ heardIn (s.step input) rest

def replies (trace : Trace) : List (Peer × ℕ) :=
  trace.sends.map fun send => (send.1, seqNumOf send.2)

/-- The answers are a part of what was heard; a packet that is still owed one is the last
that was heard, and none of the answers is for it. -/
structure Answered (heard : List (Peer × ℕ)) (s : Server) : Prop where
  sublist : (replies s.trace).Sublist heard
  owed : Owes s → s.seqNum < 4294967296 ∧
    ∃ earlier, heard = earlier ++ [(s.client, s.seqNum)] ∧ (replies s.trace).Sublist earlier
  small : ∀ send ∈ s.trace.sends, send.2.length ≤ 12

theorem answered_forked (client : Peer) (packet : Bytes) :
    Answered [(client, startSeqNum)] (Server.forked client packet) where
  sublist := List.nil_sublist _
  owed _ := ⟨show 1 < 4294967296 by omega, [], rfl, List.nil_sublist _⟩
  small := by simp [Server.forked, Trace.sends]

theorem seqNumOf_made {datagram : Datagram} (h : Made s datagram)
    (hlt : s.seqNum < 4294967296) : seqNumOf datagram = s.seqNum := by
  have hu : u32 s.seqNum = s.seqNum := by
    simp only [u32]
    omega
  obtain ⟨flag, rfl | ⟨number, rfl⟩⟩ := h
  · rw [seqNumOf_plainDatagram, hu]
  · rw [seqNumOf_numberedDatagram, hu]

theorem length_made {datagram : Datagram} (h : Made s datagram) : datagram.length ≤ 12 := by
  obtain ⟨flag, rfl | ⟨number, rfl⟩⟩ := h
  · simp
  · simp

theorem Answered.step {heard : List (Peer × ℕ)} (h : Answered heard s)
    (hexchange : Exchange s input s') : Answered (heard ++ (heard? s input).toList) s' := by
  cases hexchange with
  | took src seqNum hheard trace client same bound =>
      rw [hheard]
      refine ⟨?_, fun _ => ⟨same ▸ bound, heard, ?_, ?_⟩, ?_⟩
      · rw [trace]
        exact h.sublist.trans (List.sublist_append_left _ _)
      · rw [client, same]
        rfl
      · rw [trace]
        exact h.sublist
      · rw [trace]
        exact h.small
  | answered deaf before after added datagram trace sends made =>
      obtain ⟨hlt, earlier, rfl, hearlier⟩ := h.owed before
      have hsends : s'.trace.sends = s.trace.sends ++ [(s.client, datagram)] := by
        rw [trace, Trace.sends_append, sends]
      have hreplies : replies s'.trace = replies s.trace ++ [(s.client, s.seqNum)] := by
        simp [replies, hsends, seqNumOf_made made hlt]
      rw [deaf, Option.toList_none, List.append_nil]
      refine ⟨?_, fun howes => absurd howes after, ?_⟩
      · rw [hreplies]
        exact hearlier.append_right _
      · rw [hsends]
        intro send hsend
        rcases List.mem_append.mp hsend with hsend | hsend
        · exact h.small send hsend
        · obtain rfl := List.mem_singleton.mp hsend
          exact length_made made
  | quiet deaf added trace sends kept =>
      have hsends : s'.trace.sends = s.trace.sends := by
        rw [trace, Trace.sends_append, sends, List.append_nil]
      have hreplies : replies s'.trace = replies s.trace := by
        simp only [replies, hsends]
      rw [deaf, Option.toList_none, List.append_nil]
      refine ⟨hreplies ▸ h.sublist, fun howes => ?_, hsends ▸ h.small⟩
      obtain ⟨hbefore, hclient, hseq⟩ := kept howes
      rw [hclient, hseq, hreplies]
      exact h.owed hbefore

theorem Answered.run {heard : List (Peer × ℕ)} (inputs : List Input) (h : Answered heard s) :
    Answered (heard ++ heardIn s inputs) (Runs.run Server.step s inputs) := by
  induction inputs generalizing s heard with
  | nil => simpa [heardIn] using h
  | cons input inputs ih =>
      have hstep := h.step (exchange (Server.turn s input))
      have hrest := ih hstep
      rwa [List.append_assoc] at hrest

/-- A child that has no packet to answer sends nothing, and has none after a turn in which
it accepts none: on a timeout, or when it reads a corrupted datagram. -/
def Prompt (s : Server) (input : Input) : Prop :=
  ¬ Owes s → (s.step input).trace.sends = s.trace.sends ∧
    (heard? s input = none → ¬ Owes (s.step input))

theorem prompt (s : Server) (input : Input) : Prompt s input := by
  intro hnone
  cases exchange (Server.turn s input) with
  | took src seqNum heard trace => exact ⟨by rw [trace], fun deaf => by simp [heard] at deaf⟩
  | answered deaf before => exact absurd before hnone
  | quiet deaf added trace sends kept =>
      refine ⟨?_, fun _ howes => hnone (kept howes).1⟩
      rw [trace, Trace.sends_append, sends, List.append_nil]

/-- The answers of a child, in order, are for the packet that it was forked for and for
packets that it accepted afterwards: each of these is answered once at most, to the one it
came from and under its own sequence number, with twelve bytes at most, and before the next
timeout and the next packet. -/
theorem answers_are_replies (client : Peer) (packet : Bytes) (inputs : List Input) :
    (replies (Runs.run Server.step (Server.forked client packet) inputs).trace).Sublist
        ((client, startSeqNum) :: heardIn (Server.forked client packet) inputs) ∧
      (∀ send ∈ (Runs.run Server.step (Server.forked client packet) inputs).trace.sends,
        send.2.length ≤ 12) ∧
      Runs.Along Server.step Prompt (Server.forked client packet) inputs := by
  have hrun := (answered_forked client packet).run inputs
  exact ⟨hrun.sublist, hrun.small, Runs.along_iff_split.mpr fun _ _ _ _ => prompt _ _⟩

end SlidingWindow.Replies

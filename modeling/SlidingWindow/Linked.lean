import SlidingWindow.MessageFates
import SlidingWindow.Replies
import SlidingWindow.Completion
import SlidingWindow.Library.Simulation

/-! The two programs as they are linked: each process owns a `PacketManager`, a forked
child starts with a copy of its parent's, and only what the library lets through reaches
the network. The network of `World` covers all that the library can do to a session. -/
namespace SlidingWindow.Linked

open Library MessageFates Transfer Completion

structure Host (α : Type) where
  process : α
  manager : PacketManager
  /-- Why the library has ended the process, if it has. -/
  stopped : Option Fault

structure Transit where
  src : Peer
  dst : Peer
  datagram : Datagram

structure Network where
  client : Host Client
  /-- The library of the main port, which sends nothing itself. -/
  main : PacketManager
  children : List (Host Server)
  wire : List Transit

namespace Network

/-- What the calls of `sendto_Err` in one turn leave. The process ends at the first call
that the library refuses. -/
structure Sent where
  manager : PacketManager
  transits : List Transit
  refused : Option Fault

def transmit (src : Peer) (m : PacketManager) : List (Peer × Datagram) → Sent
  | [] => ⟨m, [], none⟩
  | (dst, datagram) :: rest =>
      match m.sendtoErr datagram with
      | .error fault => ⟨m, [], some fault⟩
      | .ok (m, result) =>
          let others := transmit src m rest
          { others with
            transits := (result.sent.map (⟨src, dst, ·⟩)).toList ++ others.transits }

/-- The calls of `sendto_Err` in a turn of `rcopy`: what the turn sends, and the packet
without bytes that it hands over for a slot that was never filled. -/
def clientCalls (c : Client) (input : Input) : List (Peer × Datagram) :=
  Trace.sends ((c.step input).trace.drop c.trace.length) ++
    match c.enterStateMachine input with
    | .error .emptySend => [(c.server, [])]
    | _ => []

def childCalls (s : Server) (input : Input) : List (Peer × Datagram) :=
  Trace.sends ((s.step input).trace.drop s.trace.length)

def arrivals (n : Network) (peer : Peer) : List (Peer × Datagram) :=
  n.wire.filterMap fun t => if t.dst = peer then some (t.src, t.datagram) else none

def clientTurn (n : Network) (input : Input) : Network :=
  let after := n.client.process.step input
  let sent := transmit .rcopy n.client.manager (clientCalls n.client.process input)
  { n with
    client :=
      ⟨if sent.refused.isSome then { after with state := .exited } else after, sent.manager,
        n.client.stopped.or sent.refused⟩
    wire := n.wire ++ sent.transits }

def childTurn (n : Network) (index : ℕ) (child : Host Server) (input : Input) : Network :=
  let after := child.process.step input
  let sent := transmit (.child index) child.manager (childCalls child.process input)
  { n with
    children := n.children.set index
      ⟨if sent.refused.isSome then { after with state := .exited } else after, sent.manager,
        child.stopped.or sent.refused⟩
    wire := n.wire ++ sent.transits }

/-- `fork` copies the library with the rest of the process. -/
def mainTurn (n : Network) (input : Input) : Network :=
  { n with
    children := n.children ++ (Server.forkedFor input).toList.map (⟨·, n.main, none⟩) }

/-- One turn of a process. The choices are those of `World`, made among what has reached
the network. -/
def step (n : Network) : World.Label → Network
  | .client choice => n.clientTurn (World.resolve (n.arrivals .rcopy) choice)
  | .child index choice =>
      match n.children[index]? with
      | some child =>
          n.childTurn index child (World.resolve (n.arrivals (.child index)) choice)
      | none => n
  | .main choice => n.mainTurn (World.resolve (n.arrivals .main) choice)

/-- In this turn `rcopy` is to resend a slot that was never filled. -/
def Unfilled (n : Network) : World.Label → Prop
  | .client choice =>
      n.client.process.enterStateMachine (World.resolve (n.arrivals .rcopy) choice) =
        .error .emptySend
  | _ => False

def world (n : Network) : World := ⟨n.client.process, n.children.map Host.process⟩

end Network

/-- What a `main` gives its library: the environment, the rate of the command line and the
two times at which the library takes a seed from the clock. -/
structure Setting where
  env : Environment
  errorRate : ℚ
  loaded : ℤ
  called : ℤ

def Setting.manager (s : Setting) : PacketManager :=
  linked s.env s.errorRate s.loaded s.called

def start (u : Upload) (client server : Setting) : Network :=
  ⟨⟨(session u).client, client.manager, none⟩, server.manager, [], []⟩

def SameProcess : World.Label → World.Label → Prop
  | .client _, .client _ => True
  | .child i _, .child j _ => i = j
  | .main _, .main _ => True
  | _, _ => False

structure Sealed (datagram : Datagram) : Prop where
  filled : datagram ≠ []
  length : datagram.length ≤ maxPacketLen
  cksum : inCksum datagram = 0

theorem sealed_plainDatagram {buf : Bytes} (hlen : buf.length + 8 ≤ maxPacketLen) (flag : Flag)
    (seqNum : ℕ) : Sealed (plainDatagram buf flag seqNum) where
  filled := List.ne_nil_of_length_pos (by simp)
  length := by simpa using hlen
  cksum := Framing.inCksum_sentPlain buf flag seqNum [] hlen

theorem sealed_numberedDatagram {buf : Bytes} (hlen : buf.length + 12 ≤ maxPacketLen)
    (flag : Flag) (seqNum number : ℕ) : Sealed (numberedDatagram buf flag seqNum number) where
  filled := List.ne_nil_of_length_pos (by simp)
  length := by simpa using hlen
  cksum := Framing.inCksum_sentNumbered buf flag seqNum [] number hlen

variable {u : Upload} {c : Client} {s : Server} {n : Network} {m : PacketManager}
  {dropList history : List ℕ}

theorem sealed_of_fromClient {top : ℕ} {complete : Prop} {datagram : Datagram}
    (h : u.FromClient top complete datagram) : Sealed datagram := by
  have hname := u.name_length
  have hrange := u.bufSize_range
  cases h with
  | fileName => exact sealed_plainDatagram (by simp [maxPacketLen]; omega) _ _
  | bufferSize | windowSize | endOfFile =>
      exact sealed_plainDatagram (by simp [maxPacketLen]) _ _
  | data seqNum number chunk genuine =>
      have := genuine.data_length
      exact sealed_numberedDatagram (by simp only [maxPacketLen]; omega) _ _ _

theorem sealed_of_made {datagram : Datagram} (h : Replies.Made s datagram) :
    Sealed datagram := by
  obtain ⟨flag, rfl | ⟨number, rfl⟩⟩ := h
  · exact sealed_plainDatagram (by simp [maxPacketLen]) _ _
  · exact sealed_numberedDatagram (by simp [maxPacketLen]) _ _ _

theorem client_sends (hcountable : u.Countable) (h : ClientPhase u c) (input : Input) :
    ∃ added, (c.step input).trace = c.trace ++ added ∧
      ∀ send ∈ Trace.sends added, Sealed send.2 := by
  obtain ⟨added, htrace, hadded⟩ :=
    @ClientPhase.sends u c True hcountable h (fun _ => trivial) input
  refine ⟨added, htrace, ?_⟩
  rintro ⟨dst, datagram⟩ hsend
  obtain ⟨event, hevent, hsent⟩ := List.mem_filterMap.mp hsend
  obtain ⟨found, rfl, hclient⟩ := hadded event hevent
  cases hsent
  exact sealed_of_fromClient hclient

theorem server_sends (s : Server) (input : Input) :
    ∃ added, (s.step input).trace = s.trace ++ added ∧
      ∀ send ∈ Trace.sends added, Sealed send.2 := by
  cases Replies.exchange (Server.turn s input) with
  | took src seqNum heard trace => exact ⟨[], by rw [trace, List.append_nil], by simp⟩
  | answered deaf before after added datagram trace sends made =>
      refine ⟨added, trace, ?_⟩
      rw [sends]
      simpa using sealed_of_made made
  | quiet deaf added trace sends => exact ⟨added, trace, by simp [sends]⟩

theorem altered_of_fate {errorRate : ℚ} {chance : List MsgEvent} {number : ℕ}
    {datagram fate : Datagram} (hsealed : Sealed datagram)
    (h : Fate errorRate chance dropList number datagram (some fate)) :
    fate = datagram ∨ recvBuf fate = .ok none := by
  cases h with
  | intact => exact .inl rfl
  | flipped _ _ _ _ i bound =>
      exact .inr (recvBuf_flipByte hsealed.cksum hsealed.length bound)

def Loaded (m : PacketManager) : Prop := ∃ dropList history, Configured dropList history m

theorem transmit_spec (src : Peer) {sends : List (Peer × Datagram)} (h : Loaded m)
    (hsealed : ∀ send ∈ sends, Sealed send.2) :
    ∃ m' sent, Network.transmit src m sends = ⟨m', sent, none⟩ ∧ Loaded m' ∧
      ∀ t ∈ sent, t.src = src ∧ ∃ datagram, (t.dst, datagram) ∈ sends ∧
        (t.datagram = datagram ∨ recvBuf t.datagram = .ok none) := by
  obtain ⟨dropList, history, h⟩ := h
  induction sends generalizing m history with
  | nil => exact ⟨m, [], rfl, ⟨dropList, history, h⟩, by simp⟩
  | cons send sends ih =>
      obtain ⟨dst, datagram⟩ := send
      have hfirst := hsealed _ List.mem_cons_self
      obtain ⟨rand, fate, hsend, hrand, hfate⟩ := h.sendtoErr hfirst.filled
      dsimp only at hsend hfate
      obtain ⟨m', sent, hrest, hafter, hsent⟩ :=
        ih (m := { m with
            msgNo := u32 (m.msgNo + 1)
            constant := standardEvents dropList
              (journal dropList history (u32 (m.msgNo + 1)) datagram)
            rand := rand })
          (fun other hother => hsealed other (List.mem_cons_of_mem _ hother)) _
          ⟨hrand, rfl, h.chance⟩
      refine ⟨m', (fate.map (⟨src, dst, ·⟩)).toList ++ sent, ?_, hafter, fun t ht => ?_⟩
      · simp only [Network.transmit, hsend, hrest]
      · rcases List.mem_append.mp ht with ht | ht
        · cases fate with
          | none => simp at ht
          | some fate =>
              obtain rfl : t = ⟨src, dst, fate⟩ := by simpa using ht
              exact ⟨rfl, datagram, List.mem_cons_self, altered_of_fate hfirst hfate⟩
        · obtain ⟨hsrc, original, hmem, hwhich⟩ := hsent t ht
          exact ⟨hsrc, original, List.mem_cons_of_mem _ hmem, hwhich⟩

theorem transmit_append {src : Peer} {m' : PacketManager} {sends others : List (Peer × Datagram)}
    {sent : List Transit} (h : Network.transmit src m sends = ⟨m', sent, none⟩) :
    Network.transmit src m (sends ++ others) =
      { Network.transmit src m' others with
        transits := sent ++ (Network.transmit src m' others).transits } := by
  induction sends generalizing m sent with
  | nil =>
      cases h
      rfl
  | cons send sends ih =>
      obtain ⟨dst, datagram⟩ := send
      cases hsend : m.sendtoErr datagram with
      | error fault => simp [Network.transmit, hsend] at h
      | ok after =>
          obtain ⟨after, result⟩ := after
          cases hrest : Network.transmit src after sends with
          | mk manager transits refused =>
              simp only [Network.transmit, hsend, hrest, Network.Sent.mk.injEq] at h
              obtain ⟨rfl, rfl, rfl⟩ := h
              simp only [List.cons_append, Network.transmit, hsend, ih hrest, List.append_assoc]

theorem transmit_empty (src dst : Peer) (m : PacketManager) :
    Network.transmit src m [(dst, [])] = ⟨m, [], some .emptySend⟩ := by
  simp [Network.transmit, PacketManager.sendtoErr]

/-- What leaves the host of a process, which has sent it in this turn or, if it does not
pass its checksum, something else to the same peer. -/
def Departs (src : Peer) (trace : Trace) (t : Transit) : Prop :=
  t.src = src ∧ ∃ datagram, .sent t.dst datagram ∈ trace ∧
    (t.datagram = datagram ∨ recvBuf t.datagram = .ok none)

theorem transmit_turn (src : Peer) {before after added : Trace} (h : Loaded m)
    (htrace : after = before ++ added) (hsealed : ∀ send ∈ Trace.sends added, Sealed send.2) :
    ∃ m' sent, Network.transmit src m (Trace.sends (after.drop before.length)) =
        ⟨m', sent, none⟩ ∧
      Loaded m' ∧ ∀ t ∈ sent, Departs src after t := by
  obtain ⟨m', sent, htransmit, hloaded, hsent⟩ := transmit_spec src h hsealed
  refine ⟨m', sent, by rw [htrace, List.drop_left, htransmit], hloaded, fun t ht => ?_⟩
  obtain ⟨hsrc, datagram, hmem, hwhich⟩ := hsent t ht
  rw [htrace]
  exact ⟨hsrc, datagram, List.mem_append_right _ (World.mem_sends.mp hmem), hwhich⟩

/-- The calls of a turn of the client: the library refuses none but that of a packet without
bytes, after all else that the turn sends. -/
theorem transmit_client (hcountable : u.Countable) (hphase : ClientPhase u c)
    (hloaded : Loaded m) (input : Input) :
    ∃ m' sent refused,
      Network.transmit .rcopy m (Network.clientCalls c input) = ⟨m', sent, refused⟩ ∧
        Loaded m' ∧ (∀ t ∈ sent, Departs .rcopy (c.step input).trace t) ∧
        (refused = none ∧ c.enterStateMachine input ≠ .error .emptySend ∨
          refused = some .emptySend ∧ c.enterStateMachine input = .error .emptySend) := by
  obtain ⟨added, htrace, hsealed⟩ := client_sends hcountable hphase input
  obtain ⟨m', sent, htransmit, hafter, hsent⟩ := transmit_turn .rcopy hloaded htrace hsealed
  by_cases hempty : c.enterStateMachine input = .error .emptySend
  · refine ⟨m', sent, some .emptySend, ?_, hafter, hsent, .inr ⟨rfl, hempty⟩⟩
    simp only [Network.clientCalls, hempty, transmit_append htransmit, transmit_empty,
      List.append_nil]
  · refine ⟨m', sent, none, ?_, hafter, hsent, .inl ⟨rfl, hempty⟩⟩
    rw [← htransmit, Network.clientCalls]
    split
    · contradiction
    · rw [List.append_nil]

theorem clientTurn_spec (hcountable : u.Countable) (hphase : ClientPhase u n.client.process)
    (hloaded : Loaded n.client.manager) (input : Input) :
    ∃ m sent refused, n.clientTurn input =
        { n with
          client := ⟨n.client.process.step input, m, n.client.stopped.or refused⟩
          wire := n.wire ++ sent } ∧
      Loaded m ∧ (∀ t ∈ sent, Departs .rcopy (n.client.process.step input).trace t) ∧
      (refused = none ∧ n.client.process.enterStateMachine input ≠ .error .emptySend ∨
        refused = some .emptySend ∧
          n.client.process.enterStateMachine input = .error .emptySend) := by
  obtain ⟨m, sent, refused, htransmit, hafter, hsent, hrefused⟩ :=
    transmit_client hcountable hphase hloaded input
  refine ⟨m, sent, refused, ?_, hafter, hsent, hrefused⟩
  simp only [Network.clientTurn, htransmit]
  rcases hrefused with ⟨rfl, -⟩ | ⟨rfl, hempty⟩
  · rfl
  · -- the model has ended the process at that call already
    rw [Client.step_of_error hempty]
    rfl

theorem childTurn_spec {child : Host Server} (hloaded : Loaded child.manager) (index : ℕ)
    (input : Input) :
    ∃ m sent, n.childTurn index child input =
        { n with
          children := n.children.set index ⟨child.process.step input, m, child.stopped⟩
          wire := n.wire ++ sent } ∧
      Loaded m ∧ ∀ t ∈ sent, Departs (.child index) (child.process.step input).trace t := by
  obtain ⟨added, htrace, hsealed⟩ := server_sends child.process input
  obtain ⟨m, sent, htransmit, hafter, hsent⟩ :=
    transmit_turn (.child index) hloaded htrace hsealed
  refine ⟨m, sent, ?_, hafter, hsent⟩
  simp only [Network.childTurn, Network.childCalls, htransmit, Option.or_none]
  rfl

section Offers

variable {inbox inbox' : List (Peer × Datagram)} {input : Input}

theorem offered_mono (hgrows : ∀ sent ∈ inbox, sent ∈ inbox') (h : World.Offered inbox input) :
    World.Offered inbox' input := by
  cases input with
  | silent => trivial
  | failure => trivial
  | datagram src datagram =>
      rcases h with hmem | ⟨hcorrupt, original, hmem⟩
      · exact .inl (hgrows _ hmem)
      · exact .inr ⟨hcorrupt, original, hgrows _ hmem⟩

end Offers

def Grows (w w' : World) : Prop := ∀ peer, ∀ sent ∈ w.inbox peer, sent ∈ w'.inbox peer

theorem grows_of_traces {w w' : World}
    (hclient : ∃ added, w'.client.trace = w.client.trace ++ added)
    (hchildren : ∀ (index : ℕ) (s : Server), w.children[index]? = some s →
      ∃ (s' : Server) (added : Trace), w'.children[index]? = some s' ∧
        s'.trace = s.trace ++ added) : Grows w w' := by
  rintro peer ⟨src, datagram⟩ hmem
  rw [World.mem_inbox] at hmem ⊢
  rcases hmem with ⟨hsrc, hsent⟩ | ⟨index, s, hs, hsrc, hsent⟩
  · obtain ⟨added, htrace⟩ := hclient
    exact .inl ⟨hsrc, htrace ▸ List.mem_append_left _ hsent⟩
  · obtain ⟨s', added, hs', htrace⟩ := hchildren index s hs
    exact .inr ⟨index, s', hs', hsrc, htrace ▸ List.mem_append_left _ hsent⟩

theorem grows_step (hcountable : u.Countable) {w : World} (hphase : ClientPhase u w.client)
    (label : World.Label) : Grows w (w.step label) := by
  cases label with
  | client choice =>
      refine grows_of_traces ?_ fun index s hs => ⟨s, [], hs, (List.append_nil _).symm⟩
      obtain ⟨added, htrace, -⟩ :=
        client_sends hcountable hphase (World.resolve (w.inbox .rcopy) choice)
      exact ⟨added, htrace⟩
  | child index choice =>
      refine grows_of_traces ⟨[], (List.append_nil _).symm⟩ fun other s hs => ?_
      rw [World.getElem?_children_step, hs]
      by_cases hindex : index = other
      · obtain ⟨added, htrace, -⟩ :=
          server_sends s (World.resolve (w.inbox (.child index)) choice)
        exact ⟨_, added, congrArg some (if_pos hindex), htrace⟩
      · exact ⟨s, [], congrArg some (if_neg hindex), (List.append_nil _).symm⟩
  | main choice =>
      rcases w.step_main choice with hsame | ⟨src, datagram, received, -, -, hfork⟩
      · rw [hsame]
        exact fun _ _ h => h
      · rw [hfork]
        refine grows_of_traces ⟨[], (List.append_nil _).symm⟩ fun index s hs => ?_
        exact ⟨s, [], (List.getElem?_append_left (List.getElem?_eq_some_iff.mp hs).1).trans hs,
          (List.append_nil _).symm⟩

/-- What ties the linked processes to `World`: the same processes, and nothing on the
network that `World` could not deliver. -/
structure Covered (u : Upload) (n : Network) (w : World) : Prop where
  world : n.world = w
  phase : ClientPhase u n.client.process
  client : Loaded n.client.manager
  main : Loaded n.main
  children : ∀ child ∈ n.children, Loaded child.manager ∧ child.stopped = none
  stopped : n.client.stopped = none ∨ n.client.stopped = some .emptySend
  wire : ∀ t ∈ n.wire, World.Offered (w.inbox t.dst) (.datagram t.src t.datagram)

variable {w : World}

theorem mem_arrivals {peer src : Peer} {datagram : Datagram} :
    (src, datagram) ∈ n.arrivals peer ↔ ⟨src, peer, datagram⟩ ∈ n.wire := by
  simp only [Network.arrivals, List.mem_filterMap, Option.ite_none_right_eq_some,
    Option.some.injEq, Prod.mk.injEq]
  constructor
  · rintro ⟨⟨_, _, _⟩, hmem, rfl, rfl, rfl⟩
    exact hmem
  · intro hmem
    exact ⟨_, hmem, rfl, rfl, rfl⟩

theorem Covered.exists_choice (h : Covered u n w) (peer : Peer) (choice : World.Choice) :
    ∃ choice', World.resolve (w.inbox peer) choice' =
      World.resolve (n.arrivals peer) choice := by
  apply World.exists_choice
  have hoffered := World.offered_resolve (n.arrivals peer) choice
  cases hinput : World.resolve (n.arrivals peer) choice with
  | silent => trivial
  | failure => trivial
  | datagram src datagram =>
      rw [hinput] at hoffered
      rcases hoffered with hmem | ⟨hrejected, original, hmem⟩
      · exact h.wire _ (mem_arrivals.mp hmem)
      · rcases h.wire _ (mem_arrivals.mp hmem) with hsent | ⟨-, other, hsent⟩
        · exact .inr ⟨hrejected, original, hsent⟩
        · exact .inr ⟨hrejected, other, hsent⟩

theorem Covered.wire_step (hcountable : u.Countable) (h : Covered u n w) {label : World.Label}
    {src : Peer} {trace : Trace} {sent : List Transit} (hsent : ∀ t ∈ sent, Departs src trace t)
    (hinbox : ∀ dst datagram, .sent dst datagram ∈ trace →
      (src, datagram) ∈ (w.step label).inbox dst) :
    ∀ t ∈ n.wire ++ sent,
      World.Offered ((w.step label).inbox t.dst) (.datagram t.src t.datagram) := by
  intro t ht
  rcases List.mem_append.mp ht with ht | ht
  · have hphase : ClientPhase u w.client := h.world ▸ h.phase
    exact offered_mono (grows_step hcountable hphase label t.dst) (h.wire t ht)
  · obtain ⟨rfl, datagram, hmem, rfl | hrejected⟩ := hsent t ht
    · exact .inl (hinbox _ _ hmem)
    · exact .inr ⟨hrejected, datagram, hinbox _ _ hmem⟩

theorem Covered.client_step (hcountable : u.Countable) (h : Covered u n w)
    (choice : World.Choice) :
    ∃ choice', Covered u (n.step (.client choice)) (w.step (.client choice')) := by
  obtain ⟨choice', hchoice⟩ := h.exists_choice .rcopy choice
  obtain ⟨m, sent, refused, hturn, hloaded, hsent, hrefused⟩ :=
    clientTurn_spec hcountable h.phase h.client (World.resolve (n.arrivals .rcopy) choice)
  have hclient : (w.step (.client choice')).client =
      n.client.process.step (World.resolve (n.arrivals .rcopy) choice) := by
    rw [← hchoice, ← h.world]
    rfl
  refine ⟨choice', ?_⟩
  rw [Network.step, hturn]
  refine ⟨?_, (h.phase.step hcountable _).1, hloaded, h.main, h.children, ?_,
    h.wire_step hcountable hsent fun dst datagram hmem => ?_⟩
  · rw [← hclient, ← h.world]
    rfl
  · rcases h.stopped with hstopped | hstopped
    · rcases hrefused with ⟨rfl, -⟩ | ⟨rfl, -⟩
      · exact .inl (by rw [hstopped]; rfl)
      · exact .inr (by rw [hstopped]; rfl)
    · exact .inr (by rw [hstopped]; rfl)
  · rw [World.mem_inbox, hclient]
    exact .inl ⟨rfl, hmem⟩

theorem Covered.child_step (hcountable : u.Countable) (h : Covered u n w) {index : ℕ}
    {child : Host Server} (hchild : n.children[index]? = some child) (choice : World.Choice) :
    ∃ choice', Covered u (n.step (.child index choice)) (w.step (.child index choice')) := by
  obtain ⟨choice', hchoice⟩ := h.exists_choice (.child index) choice
  have hmem := List.mem_of_getElem? hchild
  obtain ⟨m, sent, hturn, hloaded, hsent⟩ :=
    childTurn_spec (n := n) (h.children child hmem).1 index
      (World.resolve (n.arrivals (.child index)) choice)
  have hworld : w.children[index]? = some child.process := by
    rw [← h.world]
    simp [Network.world, hchild]
  have hlt := (List.getElem?_eq_some_iff.mp hworld).1
  have hchildren : (w.step (.child index choice')).children = w.children.set index
      (child.process.step (World.resolve (n.arrivals (.child index)) choice)) := by
    rw [← hchoice, ← (List.getElem?_eq_some_iff.mp hworld).2]
    exact List.modify_eq_set_get _ hlt
  have hstep : n.step (.child index choice) =
      n.childTurn index child (World.resolve (n.arrivals (.child index)) choice) := by
    simp only [Network.step, hchild]
  refine ⟨choice', ?_⟩
  rw [hstep, hturn]
  refine ⟨?_, h.phase, h.client, h.main, ?_, h.stopped,
    h.wire_step hcountable hsent fun dst datagram hmem => ?_⟩
  · have hclient : w.client = n.client.process := h.world ▸ rfl
    have hbefore : n.children.map Host.process = w.children := h.world ▸ rfl
    rw [Network.world, List.map_set, hbefore, ← hchildren, ← hclient]
    rfl
  · intro other hother
    rcases List.mem_or_eq_of_mem_set hother with hbefore | rfl
    · exact h.children other hbefore
    · exact ⟨hloaded, (h.children child hmem).2⟩
  · rw [World.mem_inbox]
    refine .inr ⟨index, _, ?_, rfl, hmem⟩
    rw [hchildren, List.getElem?_set_self hlt]

theorem Covered.main_step (hcountable : u.Countable) (h : Covered u n w)
    (choice : World.Choice) :
    ∃ choice', Covered u (n.step (.main choice)) (w.step (.main choice')) := by
  obtain ⟨choice', hchoice⟩ := h.exists_choice .main choice
  have hphase : ClientPhase u w.client := h.world ▸ h.phase
  have hgrows := grows_step hcountable hphase (.main choice')
  refine ⟨choice', ?_, h.phase, h.client, h.main, fun child hchild => ?_, h.stopped,
    fun t ht => offered_mono (hgrows t.dst) (h.wire t ht)⟩
  · simp only [World.step, hchoice]
    rw [← h.world]
    simp [Network.world, Network.step, Network.mainTurn, World.fork, List.map_map,
      Function.comp_def]
  · rcases List.mem_append.mp hchild with hmem | hnew
    · exact h.children child hmem
    · obtain ⟨process, -, rfl⟩ := List.mem_map.mp hnew
      exact ⟨h.main, rfl⟩

/-- One turn of the linked programs is a turn of the same process in `World`. -/
theorem Covered.step (hcountable : u.Countable) (h : Covered u n w) (label : World.Label) :
    ∃ label', SameProcess label label' ∧ Covered u (n.step label) (w.step label') := by
  cases label with
  | client choice =>
      obtain ⟨choice', hcovered⟩ := h.client_step hcountable choice
      exact ⟨.client choice', trivial, hcovered⟩
  | main choice =>
      obtain ⟨choice', hcovered⟩ := h.main_step hcountable choice
      exact ⟨.main choice', trivial, hcovered⟩
  | child index choice =>
      cases hchild : n.children[index]? with
      | some child =>
          obtain ⟨choice', hcovered⟩ := h.child_step hcountable hchild choice
          exact ⟨.child index choice', rfl, hcovered⟩
      | none =>
          have hsame : w.step (.child index .quiet) = w := by
            rw [← h.world]
            have hle : (n.children.map Host.process).length ≤ index := by
              simpa using hchild
            simp only [World.step, Network.world, List.modify_eq_self hle]
          refine ⟨.child index .quiet, rfl, ?_⟩
          simp only [Network.step, hchild]
          rw [hsame]
          exact h

theorem Covered.stopped_step (hcountable : u.Countable) (h : Covered u n w)
    (label : World.Label) :
    (n.step label).client.stopped = none ↔ n.client.stopped = none ∧ ¬ n.Unfilled label := by
  cases label with
  | client choice =>
      obtain ⟨m, sent, refused, hturn, -, -, hrefused⟩ :=
        clientTurn_spec hcountable h.phase h.client (World.resolve (n.arrivals .rcopy) choice)
      rw [Network.step, hturn]
      rcases hrefused with ⟨rfl, hok⟩ | ⟨rfl, hempty⟩
      · simp [Network.Unfilled, hok]
      · simp [Network.Unfilled, hempty]
  | main choice => simp [Network.step, Network.mainTurn, Network.Unfilled]
  | child index choice =>
      simp only [Network.Unfilled, not_false_eq_true, and_true, Network.step]
      split <;> rfl

theorem covered_start (u : Upload) (client server : Setting) :
    Covered u (start u client server) (session u) where
  world := rfl
  phase := (alone_session u).phase
  client := ⟨_, _, linked_configured ..⟩
  main := ⟨_, _, linked_configured ..⟩
  children child hchild := by simp [start] at hchild
  stopped := .inl rfl
  wire t ht := by simp [start] at ht

theorem covered_run (hcountable : u.Countable) (client server : Setting)
    (labels : List World.Label) :
    ∃ labels', List.Forall₂ SameProcess labels labels' ∧
      Covered u (Runs.run Network.step (start u client server) labels)
        (Runs.run World.step (session u) labels') :=
  Simulation.exists_run (Covered u) (fun _ _ label h => Covered.step hcountable h label)
    (covered_start u client server) labels

/-- Whatever the environments, the rates, the clocks and the random numbers of the two
programs are, and whatever the network does besides: the processes go through a run of
`World`, turn by turn, and the library ends none of them, but `rcopy` in a turn that has to
resend a slot without a packet. -/
theorem linked_refines (hcountable : u.Countable) (client server : Setting)
    (labels : List World.Label) :
    let n := Runs.run Network.step (start u client server) labels
    (∃ labels', List.Forall₂ SameProcess labels labels' ∧
      n.world = Runs.run World.step (session u) labels') ∧
      (∀ child ∈ n.children, child.stopped = none) ∧
      (n.client.stopped = none ∨ n.client.stopped = some .emptySend) ∧
      (n.client.stopped = none ↔
        Runs.Along Network.step (¬ Network.Unfilled · ·) (start u client server) labels) := by
  intro n
  obtain ⟨labels', hsame, hcovered⟩ := covered_run hcountable client server labels
  refine ⟨⟨labels', hsame, hcovered.world⟩, fun child hchild => (hcovered.children child hchild).2,
    hcovered.stopped, ?_⟩
  refine (Runs.run_iff_along (fun n => ∃ w, Covered u n w) (fun n => n.client.stopped = none)
    ?_ ?_ ⟨_, covered_start u client server⟩ Runs.along_true).trans (and_iff_right rfl)
  · rintro n label ⟨w, h⟩ -
    obtain ⟨label', -, hnext⟩ := h.step hcountable label
    exact ⟨_, hnext⟩
  · rintro n label ⟨w, h⟩
    exact h.stopped_step hcountable label

/-- The client loses its second message, and of the child all but the first are changed. -/
theorem linked_refines_letter :
    let n := Runs.run Network.step
      (start letter ⟨{ unset with errDrop := some (listText [2]) }, 1, 5, 6⟩
        ⟨{ unset with errDrop := some (listText [9]) }, 1, 5, 6⟩) (handshake ++ delivery)
    (∃ labels', List.Forall₂ SameProcess (handshake ++ delivery) labels' ∧
      n.world = Runs.run World.step (session letter) labels') ∧
      (∀ child ∈ n.children, child.stopped = none) ∧
      (n.client.stopped = none ∨ n.client.stopped = some .emptySend) ∧
      (n.client.stopped = none ↔ Runs.Along Network.step (¬ Network.Unfilled · ·)
        (start letter ⟨{ unset with errDrop := some (listText [2]) }, 1, 5, 6⟩
          ⟨{ unset with errDrop := some (listText [9]) }, 1, 5, 6⟩) (handshake ++ delivery)) :=
  linked_refines ⟨by decide, by decide⟩ _ _ _

end SlidingWindow.Linked

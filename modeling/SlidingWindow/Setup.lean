import Mathlib.Data.List.TakeWhile
import SlidingWindow.Framing
import SlidingWindow.Truncation

/-! What the setup phase hands over: the name and the two sizes that the client sends
arrive in the child as they were, and the child then marks the slots of its window. -/
namespace SlidingWindow.Setup

open Library

variable {s s' : Server} {input : Input} {name : Bytes}

def Forked (s : Server) : Prop :=
  ∃ src packet inputs, s = Runs.run Server.step (Server.forked src packet) inputs

def Opened (s : Server) : Prop :=
  s.fileOpen = true ∨ s.state = .start ∨ s.state = .setupClientSocket ∨
    s.state = .receivedRemoteFileName ∨ s.state = .done ∨ s.state = .exited

theorem opened_turn (h : Opened s) (hturn : Server.Turn s input s') : Opened s' := by
  have hkept (hstate : s.state ≠ .start ∧ s.state ≠ .setupClientSocket ∧
      s.state ≠ .receivedRemoteFileName ∧ s.state ≠ .done ∧ s.state ≠ .exited) :
      s.fileOpen = true := by
    simpa [Opened, hstate] using h
  cases hturn with
  | halted => exact h
  | gaveUp => exact .inr (.inr (.inr (.inr (.inl rfl))))
  | started => exact .inr (.inr (.inl rfl))
  | socketMade => exact .inr (.inr (.inr (.inl rfl)))
  | badName | undelivered | aborted | crashed =>
      exact .inr (.inr (.inr (.inr (.inr rfl))))
  | diverged state | stuck state => exact .inl (hkept (by simp [state]))
  | refused | ended => exact .inr (.inr (.inr (.inr (.inl rfl))))
  | keptOpen _ _ isOpen => exact .inl isOpen
  | opened => exact .inl rfl
  | bufferSize state | windowSize state | setupUnanswered state | dataUnanswered state
  | setupRead state | dataRead state => exact .inl (hkept (by simp [state]))
  | corrupted state => exact .inl (hkept (by rcases state with state | state <;> simp [state]))
  | allocated state allocates =>
      rw [DataPhase.readyForDataPacketSetup_ok allocates]
      exact .inl (hkept (by simp [state]))
  | delivered state delivers =>
      obtain ⟨added, hadded, -⟩ := Truncation.adds_receivedData state delivers
      exact .inl (hadded.fileOpen.trans (hkept (by simp [state])))

theorem Forked.opened (h : Forked s) : Opened s := by
  obtain ⟨src, packet, inputs, rfl⟩ := h
  exact Runs.run_invariant Opened (fun s input h _ => opened_turn h (s.turn input))
    (.inr (.inl rfl)) Runs.along_true

theorem Forked.fileOpen (h : Forked s) (hwaits : s.state = .readyForNextSetupPacket) :
    s.fileOpen = true := by
  simpa [Opened, hwaits] using h.opened

theorem nameOf_fileName {seqNum : ℕ} (hlen : name.length ≤ 1000) :
    Server.nameOf (plainDatagram (htonl name.length ++ name) .fileName seqNum) = .ok name := by
  have hfield : fieldOf (plainDatagram (htonl name.length ++ name) .fileName seqNum) =
      name.length := by
    rw [fieldOf_plainDatagram, u32_of_lt (by omega)]
  have hname : load (plainDatagram (htonl name.length ++ name) .fileName seqNum) 11
      name.length = name := by
    have hdata := Framing.load_sendBuf_data (htonl name.length ++ name) .fileName seqNum []
    rw [List.length_append, length_htonl, load_add] at hdata
    rw [plainDatagram, sendtoErr, load_load (by simp; omega), Nat.zero_add]
    exact List.append_inj_right hdata (by simp)
  rw [Server.nameOf, hfield, if_neg (by simp [headerLen, maxPacketLen]; omega), headerLen,
    hname]

def served (s : Server) (src : Peer) (datagram : Datagram) (input : Input) : Server :=
  (s.step (.datagram src datagram)).step input

theorem step_plainDatagram (hwaits : s.state = .readyForNextSetupPacket) {buf : Bytes}
    {flag : Flag} {seqNum : ℕ} (hlen : buf.length + 8 ≤ maxPacketLen) (src : Peer) :
    s.step (.datagram src (plainDatagram buf flag seqNum)) =
      s.read src ⟨some flag, u32 seqNum, plainDatagram buf flag seqNum⟩
        (s.setupState (some flag)) := by
  have hrecv := @Framing.recvBuf_plainDatagram buf flag seqNum hlen
  have hturn := s.turn (.datagram src (plainDatagram buf flag seqNum))
  generalize s.step (.datagram src (plainDatagram buf flag seqNum)) = s' at hturn ⊢
  cases hturn with
  | setupRead _ accepted =>
      cases hrecv.symm.trans accepted
      rfl
  | corrupted _ crcError => simp [hrecv] at crcError
  | crashed _ runt => simp [hrecv] at runt
  | setupUnanswered _ quiet => exact absurd rfl (quiet _ _)
  | _ => simp_all

structure KeepsFile (s s' : Server) : Prop where
  fileOpen : s'.fileOpen = s.fileOpen
  opens : s'.trace.opens = s.trace.opens

/-- The child is back in its wait and has opened the name, once. -/
structure OpenedAs (name : Bytes) (s : Server) : Prop where
  waits : s.state = .readyForNextSetupPacket
  fileName : s.fileName = name
  fileOpen : s.fileOpen = true
  opens : s.trace.opens = [name]

/-- The child is back in its wait with these settings, and the file as it was. -/
structure Configured (s s' : Server) (name : Bytes) (bufSize winSize : ℕ) : Prop where
  waits : s'.state = .readyForNextSetupPacket
  file : KeepsFile s s'
  fileName : s'.fileName = name
  bufSize : s'.bufSize = bufSize
  winSize : s'.winSize = winSize

theorem fileName_opened {seqNum : ℕ} (hlen : name.length ≤ 1000)
    (hterminated : ∀ byte ∈ name, byte ≠ 0) (src : Peer) {first second third : Input}
    (hopens : third ≠ .failure) :
    OpenedAs name (Runs.run Server.step
      (Server.forked src (plainDatagram (htonl name.length ++ name) .fileName seqNum))
      [first, second, third]) := by
  have hname := @nameOf_fileName name seqNum hlen
  have hopened : name.takeWhile (· ≠ 0) = name :=
    List.takeWhile_eq_self_iff.mpr fun byte hbyte => by simpa using hterminated byte hbyte
  simp only [Runs.run_cons, Runs.run_nil, Server.step, Server.processClient, Server.forked,
    Server.setupClientSocket, Server.receivedRemoteFileName, hname, bind, Except.bind]
  cases third with
  | failure => exact absurd rfl hopens
  | silent => exact ⟨rfl, rfl, rfl, congrArg ([·]) hopened⟩
  | datagram => exact ⟨rfl, rfl, rfl, congrArg ([·]) hopened⟩

section Served

variable (hwaits : s.state = .readyForNextSetupPacket) (src : Peer) (input : Input)
include hwaits

theorem served_fileName (hopen : s.fileOpen = true) {seqNum : ℕ} (hlen : name.length ≤ 1000) :
    Configured s
      (served s src (plainDatagram (htonl name.length ++ name) .fileName seqNum) input)
      name s.bufSize s.winSize := by
  have hname := @nameOf_fileName name seqNum hlen
  rw [served, step_plainDatagram hwaits (by simp [maxPacketLen]; omega)]
  simp only [Server.step, Server.processClient, Server.read, Server.setupState,
    Server.receivedRemoteFileName, hname, bind, Except.bind, hopen, if_true, pure, Except.pure]
  refine ⟨rfl, ⟨hopen.symm, ?_⟩, rfl, rfl, rfl⟩
  simp [Server.acceptFileName, Server.sendAnswer, Server.log]

theorem served_bufferSize {seqNum bufSize : ℕ} (hlt : bufSize < 4294967296) :
    Configured s (served s src (plainDatagram (htonl bufSize) .bufferSize seqNum) input)
      s.fileName bufSize s.winSize := by
  have hsize : fieldOf (plainDatagram (htonl bufSize) .bufferSize seqNum) = bufSize := by
    rw [fieldOf_plainDatagram_htonl, u32_of_lt hlt]
  rw [served, step_plainDatagram hwaits (by simp [maxPacketLen])]
  simp only [Server.step, Server.processClient, Server.read, Server.setupState,
    Server.receivedBufferSize, hsize]
  exact ⟨rfl, ⟨rfl, by simp [Server.sendAnswer, Server.log]⟩, rfl, rfl, rfl⟩

theorem served_windowSize {seqNum winSize : ℕ} (hlt : winSize < 4294967296) :
    Configured s (served s src (plainDatagram (htonl winSize) .windowSize seqNum) input)
      s.fileName s.bufSize winSize := by
  have hsize : fieldOf (plainDatagram (htonl winSize) .windowSize seqNum) = winSize := by
    rw [fieldOf_plainDatagram_htonl, u32_of_lt hlt]
  rw [served, step_plainDatagram hwaits (by simp [maxPacketLen])]
  simp only [Server.step, Server.processClient, Server.read, Server.setupState,
    Server.receivedWindowSize, hsize]
  exact ⟨rfl, ⟨rfl, by simp [Server.sendAnswer, Server.log]⟩, rfl, rfl, rfl⟩

end Served

def Sends (c : Client) (send : Client → Client) (datagram : Datagram) : Prop :=
  (send c).trace = c.trace ++ [.sent c.server datagram]

/-- Each of the three setup packets sets its own setting of a waiting child to the
client's value and leaves the other two and the file as they were; the child forked for
the first copy of the name opens exactly that name. -/
structure RoundTrips (c : Client) : Prop where
  fileName : ∃ datagram, Sends c Client.sendRemoteFileName datagram ∧
    (∀ (w : World) (src : Peer), ∃ child,
      w.fork (.datagram src datagram) = { w with children := w.children ++ [child] } ∧
        ∀ first second third, third ≠ .failure →
          OpenedAs c.remoteFileName (Runs.run Server.step child [first, second, third])) ∧
    ∀ s, Forked s → s.state = .readyForNextSetupPacket → ∀ src input,
      Configured s (served s src datagram input) c.remoteFileName s.bufSize s.winSize
  bufferSize : ∃ datagram, Sends c Client.sendBufferSize datagram ∧
    ∀ s, Forked s → s.state = .readyForNextSetupPacket → ∀ src input,
      Configured s (served s src datagram input) s.fileName c.bufSize s.winSize
  windowSize : ∃ datagram, Sends c Client.sendWindowSize datagram ∧
    ∀ s, Forked s → s.state = .readyForNextSetupPacket → ∀ src input,
      Configured s (served s src datagram input) s.fileName s.bufSize c.winSize

theorem setup_round_trips (c : Client) (hlen : c.remoteFileName.length ≤ 1000)
    (hterminated : ∀ byte ∈ c.remoteFileName, byte ≠ 0) (hbufSize : c.bufSize < 4294967296)
    (hwinSize : c.winSize < 4294967296) : RoundTrips c := by
  refine ⟨⟨_, rfl, ?_, ?_⟩, ⟨_, rfl, ?_⟩, ⟨_, rfl, ?_⟩⟩
  · intro w src
    refine ⟨_, ?_, fun first second third =>
      @fileName_opened c.remoteFileName c.seqNum hlen hterminated src first second third⟩
    have hrecv := @Framing.recvBuf_plainDatagram (htonl c.remoteFileName.length ++
      c.remoteFileName) .fileName c.seqNum (by simp [maxPacketLen]; omega)
    rw [World.fork, Server.forkedFor_of_accepted hrecv, Option.toList_some]
  · intro s hforked hwaits src input
    exact served_fileName hwaits src input (hforked.fileOpen hwaits) hlen
  · intro s _ hwaits src input
    exact served_bufferSize hwaits src input hbufSize
  · intro s _ hwaits src input
    exact served_windowSize hwaits src input hwinSize

/-- A name of three bytes, and sizes with a byte in each position. -/
theorem setup_round_trips_sizes :
    RoundTrips (Client.started [] [102, 46, 255] 16909060 4278255360) :=
  setup_round_trips (Client.started [] [102, 46, 255] 16909060 4278255360) (by decide)
    (by simp [Client.started]) (by decide) (by decide)

structure Initialised (s s' : Server) : Prop where
  length : s'.window.length = s.winSize
  unused : ∀ chunk ∈ s'.window, chunk.len = unusedLen
  unbuffered : s'.arePacketsBuffered = false
  curRRnum : s'.curRRnum = 1
  winMin : s'.winMin = 0
  winMax : s'.winMax = s.winSize

theorem initialised_allocated (s : Server) : Initialised s (DataPhase.allocated s) where
  length := by simp [DataPhase.allocated]
  unused := by simp [DataPhase.allocated]
  unbuffered := by simp [DataPhase.allocated, Server.arePacketsBuffered]
  curRRnum := rfl
  winMin := rfl
  winMax := rfl

/-- The loop over the slots, with as many iterations as it may need. -/
def SlotsMarked (s : Server) : Prop :=
  ∃ fuel window,
    Server.markUnused fuel s.winSize (List.replicate s.winSize ⟨[], 0⟩) 0 = .ok window

theorem slotsMarked_iff (s : Server) : SlotsMarked s ↔ s.winSize ≤ 255 := by
  constructor
  · rintro ⟨fuel, window, hmarked⟩
    by_contra hlarge
    rw [DataPhase.markUnused_diverges (by omega) fuel _ (Nat.zero_le _)] at hmarked
    contradiction
  · intro hslots
    exact ⟨_, _, DataPhase.markUnused_spec hslots⟩

/-- A window of any size that a client can announce is initialised, in any number of
iterations, exactly when its slots can be counted in the `uint8_t` of the loop. -/
theorem window_initialised_iff (s : Server) :
    (SlotsMarked s ∧ ∃ s', s.readyForDataPacketSetup = .ok s' ∧ Initialised s s') ↔
      s.winSize ≤ 255 := by
  constructor
  · rintro ⟨hmarked, -⟩
    exact (slotsMarked_iff s).mp hmarked
  · intro hslots
    exact ⟨(slotsMarked_iff s).mpr hslots, _, DataPhase.readyForDataPacketSetup_eq hslots,
      initialised_allocated s⟩

def wide : Upload := { Completion.letter with width := 256, width_lt := by decide }

/-- A window of 256 slots: after the handshake and the first data packet the child goes
round its loop for ever. -/
theorem wide_window_hangs :
    ∃ s, (Runs.run World.step (Completion.session wide)
        (Completion.handshake ++ [.child 0 (.deliver 2)])).children = [s] ∧
      s.state = .readyForDataPacketsSetup ∧ s.winSize = 256 ∧
      ¬ (SlotsMarked s ∧ ∃ s', s.readyForDataPacketSetup = .ok s' ∧ Initialised s s') := by
  have hstate : (Runs.run World.step (Completion.session wide)
      (Completion.handshake ++ [.child 0 (.deliver 2)])).children.map
        (fun s => (s.state, s.winSize)) = [(.readyForDataPacketsSetup, 256)] := by
    decide +kernel
  obtain ⟨s, hs, hread⟩ := List.map_eq_singleton_iff.mp hstate
  obtain ⟨hready, hsize⟩ := Prod.mk.inj hread
  refine ⟨s, hs, hready, hsize, ?_⟩
  rintro ⟨hmarked, -⟩
  have := (slotsMarked_iff s).mp hmarked
  omega

end SlidingWindow.Setup

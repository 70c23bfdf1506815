import SlidingWindow.Messages
import SlidingWindow.Responses
import SlidingWindow.ServerTurns

/-! The server child as the receiver of an upload, through all its states. As long
as what it reads comes from the client of the upload, what it has written is a
prefix of the file, and what it answers is true. -/
namespace SlidingWindow.Phases

open Library Library.SelectiveReject ServerWindow DataPhase Responses

variable {u : Upload} {top : ℕ} {s s' : Server} {input : Input}

abbrev limit (u : Upload) : ℕ := u.chunks.length + 1

def Complete (u : Upload) (s : Server) : Prop := s.curRRnum = u.chunks.length + 1

structure Preparing (u : Upload) (s : Server) : Prop where
  state : s.state = .start ∨ s.state = .setupClientSocket ∨
    s.state = .receivedRemoteFileName ∨ s.state = .receivedBufferSize ∨
    s.state = .receivedWindowSize ∨ s.state = .readyForNextSetupPacket
  fresh : s.curRRnum = 0
  writes : s.trace.writes = []
  window : s.winGood = true → s.winSize = u.width
  size : s.state = .receivedWindowSize → fieldOf s.recvPacket.buf = u.width

structure Receiving (u : Upload) (top : ℕ) (s : Server) (receiver : Receiver u.width Bytes) :
    Prop where
  stable : Stable u.width (limit u) s receiver
  every : Receiver.Every (u.Genuine top) receiver.toPending

def Arrived (u : Upload) (top : ℕ) (s : Server) : Prop :=
  ∃ number data, IsPacket s.recvPacket number data ∧ u.Genuine top number data

structure Prefix (u : Upload) (top : ℕ) (s : Server) : Prop where
  writes : s.trace.writes = u.chunks.take (s.curRRnum - 1)
  le : s.curRRnum ≤ top + 1

inductive Phase (u : Upload) (top : ℕ) (s : Server) : Prop
  | preparing (prepare : Preparing u s)
  | allocating (state : s.state = .readyForDataPacketsSetup) (winSize : s.winSize = u.width)
      (fresh : s.curRRnum = 0) (writes : s.trace.writes = []) (packet : Arrived u top s)
  | waiting (receiver : Receiver u.width Bytes) (state : s.state = .readyForNextDataPacket)
      (receives : Receiving u top s receiver)
  | processing (receiver : Receiver u.width Bytes) (state : s.state = .receivedData)
      (receives : Receiving u top s receiver) (packet : Arrived u top s)
  | finishing (state : s.state = .receivedEof) (stored : Prefix u top s)
      (complete : Complete u s)
  | stopped (state : s.state = .timeoutOnClient ∨ s.state = .timeoutOnClientSetup ∨
      s.state = .done ∨ s.state = .exited ∨ s.state = .hung) (stored : Prefix u top s)

structure Serving (u : Upload) (top : ℕ) (s : Server) : Prop where
  phase : Phase u top s
  client : s.client = .rcopy
  sends : ∀ dst datagram, .sent dst datagram ∈ s.trace →
    dst = .rcopy ∧ Upload.FromServer top s.curRRnum (Complete u s) datagram

section Prefix

variable {receiver : Receiver u.width Bytes}

theorem Receiving.le (h : Receiving u top s receiver) : s.curRRnum ≤ top + 1 := by
  have hcount := receiver.count
  rw [h.stable.next]
  by_contra hgt
  have hlast : receiver.output.length - 1 < receiver.output.length := by omega
  have := (h.every.output _ _ (List.getElem?_eq_getElem hlast)).le
  omega

theorem Receiving.stored (h : Receiving u top s receiver) : Prefix u top s := by
  refine ⟨?_, h.le⟩
  rw [h.stable.writes, h.stable.next]
  refine Receiver.Every.output_eq_take (h.every.mono fun n item hgenuine => ?_)
  exact hgenuine.chunk

theorem Receiving.mono (h : Receiving u top s receiver) {top' : ℕ} (hle : top ≤ top') :
    Receiving u top' s receiver :=
  ⟨h.stable, h.every.mono fun _ _ hgenuine => hgenuine.mono hle⟩

theorem Arrived.mono (h : Arrived u top s) {top' : ℕ} (hle : top ≤ top') :
    Arrived u top' s := by
  obtain ⟨number, data, hpacket, hgenuine⟩ := h
  exact ⟨number, data, hpacket, hgenuine.mono hle⟩

theorem Prefix.mono (h : Prefix u top s) {top' : ℕ} (hle : top ≤ top') : Prefix u top' s :=
  ⟨h.writes, by have := h.le; omega⟩

theorem Phase.mono (h : Phase u top s) {top' : ℕ} (hle : top ≤ top') : Phase u top' s := by
  cases h with
  | preparing prepare => exact .preparing prepare
  | allocating state winSize fresh writes packet =>
      exact .allocating state winSize fresh writes (packet.mono hle)
  | waiting receiver state receives => exact .waiting receiver state (receives.mono hle)
  | processing receiver state receives packet =>
      exact .processing receiver state (receives.mono hle) (packet.mono hle)
  | finishing state stored complete => exact .finishing state (stored.mono hle) complete
  | stopped state stored => exact .stopped state (stored.mono hle)

theorem Phase.stored (h : Phase u top s) : Prefix u top s := by
  cases h with
  | preparing prepare =>
      exact ⟨by rw [prepare.writes, prepare.fresh]; rfl, by rw [prepare.fresh]; omega⟩
  | allocating _ _ fresh writes _ => exact ⟨by rw [writes, fresh]; rfl, by omega⟩
  | waiting receiver _ receives => exact receives.stored
  | processing receiver _ receives _ => exact receives.stored
  | finishing _ stored _ => exact stored
  | stopped _ stored => exact stored

end Prefix

section Inversion

theorem Phase.preparing_of (h : Phase u top s)
    (hstate : s.state = .start ∨ s.state = .setupClientSocket ∨
      s.state = .receivedRemoteFileName ∨ s.state = .receivedBufferSize ∨
      s.state = .receivedWindowSize ∨ s.state = .readyForNextSetupPacket) :
    Preparing u s := by
  cases h with
  | preparing prepare => exact prepare
  | _ => grind

theorem Phase.allocating_of (h : Phase u top s)
    (hstate : s.state = .readyForDataPacketsSetup) :
    s.winSize = u.width ∧ s.curRRnum = 0 ∧ s.trace.writes = [] ∧ Arrived u top s := by
  cases h with
  | preparing prepare => exact absurd prepare.state (by simp [hstate])
  | allocating _ winSize fresh writes packet => exact ⟨winSize, fresh, writes, packet⟩
  | _ => simp_all

theorem Phase.waiting_of (h : Phase u top s) (hstate : s.state = .readyForNextDataPacket) :
    ∃ receiver, Receiving u top s receiver := by
  cases h with
  | preparing prepare => exact absurd prepare.state (by simp [hstate])
  | waiting receiver _ receives => exact ⟨receiver, receives⟩
  | _ => simp_all

theorem Phase.processing_of (h : Phase u top s) (hstate : s.state = .receivedData) :
    ∃ receiver, Receiving u top s receiver ∧ Arrived u top s := by
  cases h with
  | preparing prepare => exact absurd prepare.state (by simp [hstate])
  | processing receiver _ receives packet => exact ⟨receiver, receives, packet⟩
  | _ => simp_all

theorem Phase.complete_of (h : Phase u top s) (hstate : s.state = .receivedEof) :
    Complete u s := by
  cases h with
  | preparing prepare => exact absurd prepare.state (by simp [hstate])
  | finishing _ _ complete => exact complete
  | _ => simp_all

end Inversion

def Reads (u : Upload) (top : ℕ) (complete : Prop) : Input → Prop
  | .datagram src datagram => src = .rcopy ∧
      (recvBuf datagram = .ok none ∨ u.FromClient top complete datagram)
  | _ => True

theorem Reads.received {complete : Prop} {src : Peer} {datagram : Datagram}
    {received : Received} (h : Reads u top complete (.datagram src datagram))
    (haccepted : recvBuf datagram = .ok (some received)) :
    src = .rcopy ∧ u.FromClient top complete received.packet ∧
      received.flag = flagOf received.packet := by
  obtain ⟨hsrc, hcorrupt | hclient⟩ := h
  · rw [hcorrupt] at haccepted
    simp at haccepted
  · obtain ⟨hpacket, hflag⟩ := recvBuf_eq_some_of_length hclient.length.2 haccepted
    rw [hpacket]
    exact ⟨hsrc, hclient, hflag⟩

theorem arrived_of_data {complete : Prop} (hcountable : u.Countable) {received : Received}
    (hclient : u.FromClient top complete received.packet)
    (hflag : flagOf received.packet = some .data) {s : Server}
    (hpacket : s.recvPacket = ⟨received.packet, received.packet.length⟩) :
    Arrived u top s := by
  obtain ⟨number, chunk, hgenuine, hlower, hnumber, hpayload⟩ := hclient.data_of_flag hflag
  have hupper := hclient.length.2
  have := hcountable.count
  have hsmall : number < 4294967296 := by
    have := hgenuine.le_length
    omega
  refine ⟨number, chunk, ?_, hgenuine⟩
  rw [hpacket, ← u32_of_lt hsmall, ← hnumber, ← hpayload]
  exact isPacket_of_length hlower hupper

theorem Prefix.congr (h : Prefix u top s) (hcur : s'.curRRnum = s.curRRnum)
    (hwrites : s'.trace.writes = s.trace.writes) : Prefix u top s' :=
  ⟨by rw [hwrites, hcur, h.writes], hcur ▸ h.le⟩

structure Delivered (u : Upload) (top : ℕ) (s s' : Server) (response : Option Flag) :
    Prop where
  phase : Phase u top s'
  client : s'.client = s.client
  le : s.curRRnum ≤ s'.curRRnum
  le_limit : s'.curRRnum ≤ limit u
  answers : Answers s s' response
  later : response = some .srej → s'.curRRnum < top
  positive : 1 ≤ s'.curRRnum

theorem delivered_of_receivedData {receiver : Receiver u.width Bytes}
    (hreceives : Receiving u top s receiver) (hpacket : Arrived u top s)
    (hstep : s.receivedData = .ok s') :
    ∃ response, Delivered u top s s' response := by
  obtain ⟨number, data, hpacket, hgenuine⟩ := hpacket
  have hlimit : number < limit u := Nat.lt_succ_of_le hgenuine.le_length
  obtain ⟨after, hafter, hstable, hreaction, hsettled⟩ :=
    receivedData_spec hreceives.stable hpacket hlimit
  obtain rfl : after = s' := Except.ok.inj (hafter.symm.trans hstep)
  obtain ⟨response, hanswers, hlater⟩ := Reaction.answers_later hreaction
  have hreceives' : Receiving u top after (receiver.accept number data) :=
    ⟨hstable, hreceives.every.accept hgenuine⟩
  refine ⟨response, .waiting _ (eq_of_frame Server.state (fun _ => rfl) hsettled :)
    hreceives', (eq_of_frame Server.client (fun _ => rfl) hsettled :), ?_, ?_, hanswers, ?_, ?_⟩
  · rw [hreceives.stable.next, hstable.next]
    exact Receiver.le_next_accept
  · rw [hstable.next]
    exact hstable.next_le
  · intro hsrej
    obtain ⟨hsame, hearly | hbuffered⟩ := hlater hsrej
    · exact hsame ▸ Nat.lt_of_lt_of_le hearly hgenuine.le
    · obtain ⟨n, hn⟩ := hreceives.stable.arePacketsBuffered_iff.mp hbuffered
      have hheld := hreceives.stable.buffered_iff.mp hn
      obtain ⟨item, hitem⟩ := Finmap.mem_iff.mp hheld
      have hle := (hreceives.every.held n item hitem).le
      have hlt := (receiver.ahead n hheld).1
      have hnext := hreceives.stable.next
      omega
  · have := (receiver.accept number data).count
    rw [hstable.next]
    omega

theorem Preparing.read {complete : Prop} (hcountable : u.Countable) (h : Preparing u s)
    {src : Peer} {received : Received} (hclient : u.FromClient top complete received.packet)
    (hflag : received.flag = flagOf received.packet) :
    Phase u top (s.read src received (s.setupState received.flag)) := by
  by_cases hready : s.setupState received.flag = .readyForDataPacketsSetup
  · have hdata : received.flag = some .data ∧ s.winGood = true := by
      unfold Server.setupState at hready
      grind
    have hpacket : (s.read src received (s.setupState received.flag)).recvPacket =
        ⟨received.packet, received.packet.length⟩ := by
      simp [Server.read, hready]
    exact .allocating hready (h.window hdata.2) h.fresh h.writes
      (arrived_of_data hcountable hclient (hflag ▸ hdata.1) hpacket)
  · refine .preparing ⟨?_, h.fresh, h.writes, h.window, fun hwindow => ?_⟩
    · simp only [Server.read]
      unfold Server.setupState at hready ⊢
      grind
    · have hsize : received.flag = some .windowSize := by
        simp only [Server.read] at hwindow
        unfold Server.setupState at hwindow
        grind
      exact hclient.windowSize_of_flag (hflag ▸ hsize)

theorem Receiving.read (hcountable : u.Countable) {receiver : Receiver u.width Bytes}
    (h : Receiving u top s receiver) {src : Peer} {received : Received}
    (hclient : u.FromClient top (Complete u s) received.packet)
    (hflag : received.flag = flagOf received.packet) :
    Phase u top (s.read src received (Server.dataState received.flag)) := by
  have hreceives : Receiving u top (s.read src received (Server.dataState received.flag))
      receiver :=
    ⟨⟨h.stable.congr rfl rfl rfl rfl rfl rfl, h.stable.srej⟩, h.every⟩
  by_cases hdata : received.flag = some .data
  · have hstate : Server.dataState received.flag = .receivedData := by
      rw [hdata]
      rfl
    refine .processing receiver hstate hreceives ?_
    exact arrived_of_data hcountable hclient (hflag ▸ hdata) (by simp [Server.read, hstate])
  · by_cases heof : received.flag = some .endOfFile
    · refine .finishing ?_ hreceives.stored ?_
      · simp only [Server.read, heof]
        rfl
      · exact hclient.complete_of_flag (hflag ▸ heof)
    · refine .waiting receiver ?_ hreceives
      simp only [Server.read]
      unfold Server.dataState
      grind

theorem Phase.turn (hcountable : u.Countable) (h : Phase u top s)
    (hreads : Reads u top (Complete u s) input) (hturn : Server.Turn s input s') :
    Phase u top s' := by
  have hstored := h.stored
  cases hturn with
  | halted => exact h
  | gaveUp => exact .stopped (by simp) (hstored.congr rfl rfl)
  | started state =>
      have hprepare := h.preparing_of (by simp [state])
      exact .preparing
        ⟨by simp, hprepare.fresh, hprepare.writes, hprepare.window, by simp⟩
  | socketMade state =>
      have hprepare := h.preparing_of (by simp [state])
      exact .preparing
        ⟨by simp, hprepare.fresh, hprepare.writes, hprepare.window, by simp⟩
  | badName => exact .stopped (by simp) (hstored.congr rfl rfl)
  | keptOpen state =>
      have hprepare := h.preparing_of (by simp [state])
      refine .preparing ⟨by simp [Server.acceptFileName], hprepare.fresh, ?_,
        hprepare.window, by simp [Server.acceptFileName]⟩
      simpa [Server.acceptFileName, Server.sendAnswer, Server.log] using hprepare.writes
  | refused =>
      refine .stopped (by simp [Server.rejectFileName]) (hstored.congr rfl ?_)
      simp [Server.rejectFileName, Server.sendAnswer, Server.log]
  | opened state =>
      have hprepare := h.preparing_of (by simp [state])
      dsimp only [Server.openFile, Server.acceptFileName, Server.sendAnswer, Server.log]
      refine .preparing ⟨by simp, hprepare.fresh, ?_, hprepare.window, by simp⟩
      dsimp only
      rw [Trace.writes_append, Trace.writes_append, hprepare.writes]
      rfl
  | bufferSize state =>
      have hprepare := h.preparing_of (by simp [state])
      refine .preparing ⟨by simp [Server.receivedBufferSize], hprepare.fresh, ?_,
        hprepare.window, by simp [Server.receivedBufferSize]⟩
      simpa [Server.receivedBufferSize, Server.sendAnswer, Server.log] using hprepare.writes
  | windowSize state =>
      have hprepare := h.preparing_of (by simp [state])
      refine .preparing ⟨by simp [Server.receivedWindowSize], hprepare.fresh, ?_,
        fun _ => hprepare.size state, by simp [Server.receivedWindowSize]⟩
      simpa [Server.receivedWindowSize, Server.sendAnswer, Server.log] using hprepare.writes
  | allocated state allocates =>
      obtain ⟨hsize, hfresh, hwrites, hpacket⟩ := h.allocating_of state
      have hpositive := hcountable.positive
      have hcount := hcountable.count
      rw [← hsize] at hpositive hcount
      obtain rfl := readyForDataPacketSetup_ok allocates
      have hstable : Stable s.winSize (limit u) (allocated s) Receiver.start :=
        stable_allocated hpositive (by simp only [limit]; omega) (by simp [limit]) hwrites
      rw [hsize] at hstable
      exact .processing Receiver.start rfl ⟨hstable, Receiver.Every.start⟩ hpacket
  | diverged => exact .stopped (by simp) (hstored.congr rfl rfl)
  | delivered state delivers =>
      obtain ⟨receiver, hreceives, hpacket⟩ := h.processing_of state
      obtain ⟨response, hdelivered⟩ := delivered_of_receivedData hreceives hpacket delivers
      exact hdelivered.phase
  | undelivered | stuck | aborted => exact .stopped (by simp) (hstored.congr rfl rfl)
  | ended =>
      refine .stopped (by simp [Server.answerEof]) (hstored.congr rfl ?_)
      simp [Server.answerEof, Server.sendAnswer, Server.log]
  | setupUnanswered state =>
      have hprepare := h.preparing_of (by simp [state])
      by_cases hlate : 10 < u32 (s.timeout + 1)
      · rw [if_pos hlate]
        exact .stopped (by simp) (hstored.congr rfl rfl)
      · rw [if_neg hlate]
        exact .preparing
          ⟨by simp, hprepare.fresh, hprepare.writes, hprepare.window, by simp⟩
  | dataUnanswered => exact .stopped (by simp) (hstored.congr rfl rfl)
  | crashed => exact .stopped (by simp) (hstored.congr rfl rfl)
  | corrupted state =>
      rcases state with state | state
      · have hprepare := h.preparing_of (by simp [state])
        exact .preparing ⟨by simp [state], hprepare.fresh, hprepare.writes, hprepare.window,
          by simp [state]⟩
      · obtain ⟨receiver, hreceives⟩ := h.waiting_of state
        refine .waiting receiver state ⟨⟨?_, hreceives.stable.srej⟩, hreceives.every⟩
        exact hreceives.stable.congr rfl rfl rfl rfl rfl rfl
  | setupRead state accepted =>
      obtain ⟨-, hclient, hflag⟩ := hreads.received accepted
      exact (h.preparing_of (by simp [state])).read hcountable hclient hflag
  | dataRead state accepted =>
      obtain ⟨receiver, hreceives⟩ := h.waiting_of state
      obtain ⟨-, hclient, hflag⟩ := hreads.received accepted
      exact hreceives.read hcountable hclient hflag

theorem Phase.curRRnum_le (h : Phase u top s) (hturn : Server.Turn s input s') :
    s.curRRnum ≤ s'.curRRnum := by
  cases hturn with
  | allocated state allocates =>
      obtain ⟨-, hfresh, -, -⟩ := h.allocating_of state
      rw [hfresh]
      exact Nat.zero_le _
  | delivered state delivers =>
      obtain ⟨receiver, hreceives, hpacket⟩ := h.processing_of state
      obtain ⟨response, hdelivered⟩ := delivered_of_receivedData hreceives hpacket delivers
      exact hdelivered.le
  | _ => exact Nat.le_refl _

theorem Delivered.sends {response : Option Flag} {complete : Prop}
    (h : Delivered u top s s' response) (hclient : s.client = .rcopy) :
    ∃ added, s'.trace = s.trace ++ added ∧ ∀ dst datagram, .sent dst datagram ∈ added →
      dst = .rcopy ∧ Upload.FromServer top s'.curRRnum complete datagram := by
  obtain ⟨⟨written, seqNum, htrace⟩, -, hflag⟩ := h.answers
  rw [List.append_assoc] at htrace
  refine ⟨_, htrace, fun dst datagram hsent => ?_⟩
  rcases List.mem_append.mp hsent with hwritten | hresponse
  · obtain ⟨data, -, hdata⟩ := List.mem_map.mp hwritten
    contradiction
  · cases response with
    | none => simp at hresponse
    | some flag =>
        simp only [Option.toList_some, List.map_cons, List.map_nil, List.mem_singleton,
          Event.sent.injEq] at hresponse
        obtain ⟨rfl, rfl⟩ := hresponse
        refine ⟨h.client.trans hclient, ?_⟩
        rcases hflag flag rfl with rfl | rfl
        · exact .rr seqNum _ h.positive (Nat.le_refl _)
        · exact .srej seqNum _ h.positive (Nat.le_refl _) (h.later rfl)

theorem Serving.sends_turn (h : Serving u top s) (hturn : Server.Turn s input s') :
    ∃ added, s'.trace = s.trace ++ added ∧ ∀ dst datagram, .sent dst datagram ∈ added →
      dst = .rcopy ∧ Upload.FromServer top s'.curRRnum (Complete u s') datagram := by
  have hquiet {trace : Trace} (htrace : trace = s.trace) :
      ∃ added, trace = s.trace ++ added ∧ ∀ dst datagram, .sent dst datagram ∈ added →
        dst = .rcopy ∧ Upload.FromServer top s'.curRRnum (Complete u s') datagram :=
    ⟨[], by rw [htrace, List.append_nil], by simp⟩
  have hanswer {trace : Trace} {flag : Flag} (before : List Event)
      (htrace : trace =
        s.trace ++ (before ++ [.sent s.client (plainDatagram [] flag s.seqNum)]))
      (hbefore : ∀ dst datagram, .sent dst datagram ∉ before)
      (hflag : flag ∈ Upload.setupAnswers ∨ flag = .ackEof ∧ Complete u s') :
      ∃ added, trace = s.trace ++ added ∧ ∀ dst datagram, .sent dst datagram ∈ added →
        dst = .rcopy ∧ Upload.FromServer top s'.curRRnum (Complete u s') datagram := by
    refine ⟨_, htrace, fun dst datagram hsent => ?_⟩
    rcases List.mem_append.mp hsent with hearlier | hlast
    · exact absurd hearlier (hbefore dst datagram)
    · simp only [List.mem_singleton, Event.sent.injEq] at hlast
      obtain ⟨rfl, rfl⟩ := hlast
      refine ⟨h.client, ?_⟩
      rcases hflag with hsetup | ⟨rfl, hcomplete⟩
      · exact .answer flag s.seqNum hsetup
      · exact .ackEof s.seqNum hcomplete
  cases hturn with
  | keptOpen =>
      exact hanswer [] rfl (by simp) (.inl (by simp [Upload.setupAnswers]))
  | refused =>
      exact hanswer [] rfl (by simp) (.inl (by simp [Upload.setupAnswers]))
  | opened =>
      exact hanswer [.opened _] (List.append_assoc ..) (by simp)
        (.inl (by simp [Upload.setupAnswers]))
  | bufferSize =>
      exact hanswer [] rfl (by simp) (.inl (by simp [Upload.setupAnswers]))
  | windowSize =>
      exact hanswer [] rfl (by simp) (.inl (by simp [Upload.setupAnswers]))
  | ended state =>
      exact hanswer [] rfl (by simp) (.inr ⟨rfl, h.phase.complete_of state⟩)
  | allocated state allocates =>
      obtain rfl := readyForDataPacketSetup_ok allocates
      exact hquiet rfl
  | delivered state delivers =>
      obtain ⟨receiver, hreceives, hpacket⟩ := h.phase.processing_of state
      obtain ⟨response, hdelivered⟩ := delivered_of_receivedData hreceives hpacket delivers
      exact hdelivered.sends h.client
  | _ => exact hquiet rfl

/-- A turn of the child keeps the invariant, and never lowers the number it expects. -/
theorem Serving.turn (hcountable : u.Countable) (htop : top ≤ u.chunks.length)
    (h : Serving u top s) (hreads : Reads u top (Complete u s) input)
    (hturn : Server.Turn s input s') :
    Serving u top s' ∧ s.curRRnum ≤ s'.curRRnum ∧ (Complete u s → Complete u s') := by
  have hphase := h.phase.turn hcountable hreads hturn
  have hle := h.phase.curRRnum_le hturn
  have hcomplete : Complete u s → Complete u s' := by
    have := hphase.stored.le
    simp only [Complete]
    omega
  obtain ⟨added, htrace, hadded⟩ := h.sends_turn hturn
  refine ⟨⟨hphase, ?_, fun dst datagram hsent => ?_⟩, hle, hcomplete⟩
  · cases hturn with
    | corrupted => exact hreads.1
    | setupRead => exact hreads.1
    | dataRead => exact hreads.1
    | allocated state allocates =>
        obtain rfl := readyForDataPacketSetup_ok allocates
        exact h.client
    | delivered state delivers =>
        obtain ⟨receiver, hreceives, hpacket⟩ := h.phase.processing_of state
        obtain ⟨response, hdelivered⟩ := delivered_of_receivedData hreceives hpacket delivers
        exact hdelivered.client.trans h.client
    | _ => exact h.client
  · rw [htrace, List.mem_append] at hsent
    rcases hsent with hbefore | hnow
    · obtain ⟨hdst, hserver⟩ := h.sends dst datagram hbefore
      exact ⟨hdst, hserver.mono (Nat.le_refl _) hle hcomplete⟩
    · exact hadded dst datagram hnow

theorem Serving.mono (h : Serving u top s) {top' : ℕ} (hle : top ≤ top') :
    Serving u top' s := by
  refine ⟨h.phase.mono hle, h.client, fun dst datagram hsent => ?_⟩
  obtain ⟨hdst, hserver⟩ := h.sends dst datagram hsent
  exact ⟨hdst, hserver.mono hle (Nat.le_refl _) id⟩

end SlidingWindow.Phases

import SlidingWindow.Session
import SlidingWindow.Sender
import SlidingWindow.Phases

/-! One upload between `rcopy` and one server child. The invariant ties the client's
progress through the file, the child's ring and everything either of them has sent:
whatever is delivered, however late and however often, was sent under it. -/
namespace SlidingWindow.Transfer

open Library Phases

variable {u : Upload} {c c' : Client} {s s' : Server} {input : Input}

structure Preparing (u : Upload) (c : Client) : Prop where
  state : c.inSetup ∨ c.state = .done ∨ c.state = .exited
  fresh : c.winCur = 0
  reading : c.doneTransmitting = false
  winSize : c.winSize = u.width
  bufSize : c.bufSize = u.bufSize
  name : c.remoteFileName = u.name
  file : c.localFile = u.chunks

inductive ClientPhase (u : Upload) (c : Client) : Prop
  | preparing (prepare : Preparing u c)
  | uploading (upload : Sender.Uploading u c)

theorem ClientPhase.winCur_le (h : ClientPhase u c) : c.winCur ≤ u.chunks.length := by
  cases h with
  | preparing prepare => exact prepare.fresh ▸ Nat.zero_le _
  | uploading upload => exact upload.winCur_le

theorem uploading_start (hcountable : u.Countable) (h : Preparing u c) :
    Sender.Uploading u c.readyToSendDataSetup := by
  have hsize := h.winSize
  have hpositive := hcountable.positive
  refine
    { transfer := .inl rfl
      ring := ⟨by change 0 < c.winSize; omega, List.length_replicate ..⟩
      winSize := hsize
      count := rfl
      file := h.file
      winCur_le := Nat.zero_le _
      ended := fun hdone => absurd hdone (by simp [Client.readyToSendDataSetup, h.reading])
      slots := fun i hi => absurd hi (Nat.not_lt_zero i)
      fresh := fun i _ hi => ?_ }
  have hlt : i < c.winSize := by omega
  simp [Ring.slot?, Client.readyToSendDataSetup, Nat.mod_eq_of_lt hlt, hlt]

theorem Preparing.answered (h : Preparing u c) (hwait : c.state = .waitForSetupAcks)
    (flag : Option Flag) : Preparing u (c.answered flag) := by
  unfold Client.answered
  split <;> refine ⟨?_, h.fresh, h.reading, h.winSize, h.bufSize, h.name, h.file⟩ <;>
    simp [Client.inSetup, hwait]

theorem Preparing.turn_cases (h : Preparing u c) (hturn : Client.SetupTurn c input c') :
    Preparing u c' ∨ c.state = .readyToSendDataSetup ∧ c' = c.readyToSendDataSetup := by
  cases hturn with
  | allocated state => exact .inr ⟨state, rfl⟩
  | unanswered =>
      refine .inl ⟨.inl ?_, h.fresh, h.reading, h.winSize, h.bufSize, h.name, h.file⟩
      simp only [Client.inSetup, Client.unansweredState]
      split <;> (try split) <;> (try split) <;> simp
  | answered state accepted =>
      rename_i src datagram received
      have hheard : Preparing u { c with timeout := 0, server := src } :=
        ⟨.inl (by simp [Client.inSetup, state]), h.fresh, h.reading, h.winSize, h.bufSize,
          h.name, h.file⟩
      exact .inl (hheard.answered state received.flag)
  | corrupted state =>
      exact .inl ⟨.inl (by simp [Client.inSetup, state]), h.fresh, h.reading, h.winSize,
        h.bufSize, h.name, h.file⟩
  | fileName | bufferSize | windowSize =>
      exact .inl ⟨.inl (by simp [Client.inSetup, Client.sendRemoteFileName,
        Client.sendBufferSize, Client.sendWindowSize, Client.sendSetup]), h.fresh, h.reading,
        h.winSize, h.bufSize, h.name, h.file⟩
  | _ =>
      exact .inl ⟨by simp [Client.inSetup], h.fresh, h.reading, h.winSize, h.bufSize,
        h.name, h.file⟩

theorem Preparing.setupTurn (hcountable : u.Countable) (h : Preparing u c)
    (hturn : Client.SetupTurn c input c') : ClientPhase u c' := by
  rcases h.turn_cases hturn with hprepare | ⟨-, rfl⟩
  · exact .preparing hprepare
  · exact .uploading (uploading_start hcountable h)

theorem ClientPhase.turns (h : ClientPhase u c) (input : Input) :
    (Preparing u c ∧ c.inSetup ∧ Client.SetupTurn c input (c.step input)) ∨
      (c.step input = c ∧ (c.state = .done ∨ c.state = .exited)) ∨
      (Sender.Uploading u c ∧ Client.Turn c input (c.step input)) := by
  cases h with
  | preparing prepare =>
      rcases prepare.state with hsetup | hhalted
      · exact .inl ⟨prepare, hsetup, Client.setupTurn hsetup input⟩
      · exact .inr (.inl ⟨Client.step_halted hhalted input, hhalted⟩)
  | uploading upload =>
      exact .inr (.inr ⟨upload, Client.turn upload.transfer upload.ring input⟩)

theorem count_lt (hcountable : u.Countable) : u.chunks.length < 4294967294 := by
  have := hcountable.count
  have := hcountable.positive
  omega

theorem ClientPhase.step (hcountable : u.Countable) (h : ClientPhase u c) (input : Input) :
    ClientPhase u (c.step input) ∧ c.winCur ≤ (c.step input).winCur := by
  rcases h.turns input with ⟨hprepare, -, hturn⟩ | ⟨hsame, -⟩ | ⟨hupload, hturn⟩
  · refine ⟨hprepare.setupTurn hcountable hturn, ?_⟩
    rw [hprepare.fresh]
    exact Nat.zero_le _
  · rw [hsame]
    exact ⟨h, Nat.le_refl _⟩
  · have hcount := count_lt hcountable
    exact ⟨.uploading (hupload.turn hcount hturn), Sender.winCur_le_turn hupload hcount hturn⟩

theorem sends_setupTurn {complete : Prop} (h : Preparing u c)
    (hturn : Client.SetupTurn c input c') :
    ∃ added, c'.trace = c.trace ++ added ∧
      ∀ event ∈ added, ∃ datagram, event = .sent c.server datagram ∧
        u.FromClient c'.winCur complete datagram := by
  cases hturn with
  | fileName =>
      refine ⟨_, rfl, ?_⟩
      simp only [List.mem_singleton, forall_eq]
      rw [h.name]
      exact ⟨_, rfl, .fileName c.seqNum⟩
  | bufferSize =>
      refine ⟨_, rfl, ?_⟩
      simp only [List.mem_singleton, forall_eq]
      rw [h.bufSize]
      exact ⟨_, rfl, .bufferSize c.seqNum⟩
  | windowSize =>
      refine ⟨_, rfl, ?_⟩
      simp only [List.mem_singleton, forall_eq]
      rw [h.winSize]
      exact ⟨_, rfl, .windowSize c.seqNum⟩
  | answered =>
      refine ⟨[], ?_, by simp⟩
      unfold Client.answered
      split <;> simp
  | _ => exact ⟨[], (List.append_nil _).symm, by simp⟩

theorem ClientPhase.sends {complete : Prop} (hcountable : u.Countable) (h : ClientPhase u c)
    (heof : c.state = .sendEofAndQuit → complete) (input : Input) :
    ∃ added, (c.step input).trace = c.trace ++ added ∧
      ∀ event ∈ added, ∃ datagram, event = .sent c.server datagram ∧
        u.FromClient (c.step input).winCur complete datagram := by
  rcases h.turns input with ⟨hprepare, -, hturn⟩ | ⟨hsame, -⟩ | ⟨hupload, hturn⟩
  · exact sends_setupTurn hprepare hturn
  · exact ⟨[], by rw [hsame, List.append_nil], by simp⟩
  · exact Sender.sends_turn hupload (count_lt hcountable) heof hturn

theorem ClientPhase.server_cases (h : ClientPhase u c) (input : Input) :
    (c.step input).server = c.server ∨
      ∃ src datagram, input = .datagram src datagram ∧ (c.step input).server = src := by
  rcases h.turns input with ⟨-, -, hturn⟩ | ⟨hsame, -⟩ | ⟨-, hturn⟩
  · generalize c.step input = c' at hturn
    cases hturn with
    | corrupted => exact .inr ⟨_, _, rfl, rfl⟩
    | answered =>
        refine .inr ⟨_, _, rfl, ?_⟩
        unfold Client.answered
        split <;> rfl
    | _ => exact .inl rfl
  · exact .inl (by rw [hsame])
  · generalize c.step input = c' at hturn
    cases hturn with
    | resent source =>
        obtain ⟨timeout, rfl⟩ := Client.resending?_frame source
        exact .inl rfl
    | crashed listens =>
        obtain ⟨seqNum, trace, rfl⟩ := Client.listening?_frame listens
        exact .inl rfl
    | corrupted | acknowledged | rejected | ended => exact .inr ⟨_, _, rfl, rfl⟩
    | _ => exact .inl rfl

theorem ClientPhase.eof_cases (h : ClientPhase u c) (input : Input)
    (heof : (c.step input).state = .sendEofAndQuit) :
    c.state = .sendEofAndQuit ∨
      ∃ src datagram received, input = .datagram src datagram ∧
        recvBuf datagram = .ok (some received) ∧ received.flag = some .rr ∧
        fieldOf received.packet = u.chunks.length + 1 := by
  rcases h.turns input with ⟨-, -, hturn⟩ | ⟨hsame, -⟩ | ⟨hupload, hturn⟩
  · generalize c.step input = c' at hturn heof
    cases hturn with
    | unanswered =>
        simp only [Client.unansweredState] at heof
        grind
    | answered state =>
        unfold Client.answered at heof
        grind
    | corrupted state => exact absurd heof (by simp [state])
    | _ => contradiction
  · exact .inl (hsame ▸ heof)
  · generalize c.step input = c' at hturn heof
    cases hturn with
    | halted => exact .inl heof
    | sent _ chunk rest =>
        rcases Client.sentChunk_state c chunk rest with h | h <;> rw [h] at heof <;>
          contradiction
    | resent =>
        rename_i before index slot _ _ _
        rcases Client.resent_state before slot with h | h <;> rw [h] at heof <;>
          contradiction
    | polled =>
        dsimp only at heof
        split at heof <;> contradiction
    | eofUnanswered state => exact .inl state
    | corrupted listens =>
        simp only [Client.heard] at heof
        split at heof <;> contradiction
    | acknowledged listens accepted flag =>
        obtain ⟨seqNum, trace, rfl⟩ := Client.listening?_frame listens
        refine .inr ⟨_, _, _, rfl, accepted, flag, ?_⟩
        simp only [Client.acknowledged] at heof
        split at heof
        · rename_i hlast
          have hfile := hupload.ended hlast.1
          rw [hupload.file, List.drop_eq_nil_iff] at hfile
          have hle := hupload.winCur_le
          have hcount := hupload.count
          have hnumber := hlast.2
          simp only [Client.heard] at hnumber
          omega
        · contradiction
    | _ => contradiction

/-- The client and the child, and everything they have put on the network. -/
structure Pair (u : Upload) (c : Client) (s : Server) : Prop where
  phase : ClientPhase u c
  serving : Serving u c.winCur s
  server : c.server ≠ .rcopy
  sends : ∀ dst datagram, .sent dst datagram ∈ c.trace →
    dst ≠ .rcopy ∧ u.FromClient c.winCur (Complete u s) datagram
  eof : c.state = .sendEofAndQuit → Complete u s

def ClientReads (c : Client) (s : Server) (complete : Prop) : Input → Prop
  | .datagram src datagram => src ≠ .rcopy ∧
      (recvBuf datagram = .ok none ∨
        Upload.FromServer c.winCur s.curRRnum complete datagram)
  | _ => True

theorem ClientReads.received {complete : Prop} {src : Peer} {datagram : Datagram}
    {received : Received} (h : ClientReads c s complete (.datagram src datagram))
    (haccepted : recvBuf datagram = .ok (some received)) :
    src ≠ .rcopy ∧ Upload.FromServer c.winCur s.curRRnum complete received.packet ∧
      received.flag = flagOf received.packet := by
  obtain ⟨hsrc, hcorrupt | hserver⟩ := h
  · rw [hcorrupt] at haccepted
    simp at haccepted
  · obtain ⟨hpacket, hflag⟩ := recvBuf_eq_some_of_length hserver.length.2 haccepted
    rw [hpacket]
    exact ⟨hsrc, hserver, hflag⟩

theorem ClientReads.acknowledged {complete : Prop} {src : Peer} {datagram : Datagram}
    {received : Received} (hcountable : u.Countable) (hcur : c.winCur ≤ u.chunks.length)
    (hle : s.curRRnum ≤ c.winCur + 1) (h : ClientReads c s complete (.datagram src datagram))
    (haccepted : recvBuf datagram = .ok (some received)) (hflag : received.flag = some .rr) :
    ∃ number, fieldOf received.packet = number ∧ 1 ≤ number ∧ number ≤ s.curRRnum ∧
      sub32 number 1 = number - 1 ∧
      sub32 (u32 (number + u.width)) 1 = number + u.width - 1 := by
  have hcount := hcountable.count
  obtain ⟨-, hserver, hpacketFlag⟩ := h.received haccepted
  obtain ⟨number, hlower, hupper, hfield⟩ := hserver.rr_of_flag (hpacketFlag ▸ hflag)
  refine ⟨number, ?_, hlower, hupper, sub32_of_le hlower, ?_⟩
  · rw [hfield, u32_of_lt (by omega)]
  · rw [u32_of_lt (by omega), sub32_of_le (by omega)]

theorem ClientReads.rejected {complete : Prop} {src : Peer} {datagram : Datagram}
    {received : Received} (hcountable : u.Countable) (hcur : c.winCur ≤ u.chunks.length)
    (h : ClientReads c s complete (.datagram src datagram))
    (haccepted : recvBuf datagram = .ok (some received)) (hflag : received.flag = some .srej) :
    1 ≤ fieldOf received.packet ∧ fieldOf received.packet < c.winCur := by
  have hcount := hcountable.count
  obtain ⟨-, hserver, hpacketFlag⟩ := h.received haccepted
  obtain ⟨number, hlower, -, hsent, hfield⟩ := hserver.srej_of_flag (hpacketFlag ▸ hflag)
  rw [hfield, u32_of_lt (by omega)]
  exact ⟨hlower, hsent⟩

theorem Pair.curRRnum_le (h : Pair u c s) : s.curRRnum ≤ c.winCur + 1 :=
  h.serving.phase.stored.le

theorem ClientPhase.sends_step (hcountable : u.Countable) (h : ClientPhase u c)
    {complete : Prop} (heof : c.state = .sendEofAndQuit → complete) (hserver : c.server ≠ .rcopy)
    (hsends : ∀ dst datagram, .sent dst datagram ∈ c.trace →
      dst ≠ .rcopy ∧ u.FromClient c.winCur complete datagram) (input : Input) :
    ∀ dst datagram, .sent dst datagram ∈ (c.step input).trace →
      dst ≠ .rcopy ∧ u.FromClient (c.step input).winCur complete datagram := by
  obtain ⟨-, hle⟩ := h.step hcountable input
  obtain ⟨added, htrace, hadded⟩ := h.sends hcountable heof input
  intro dst datagram hsent
  rw [htrace, List.mem_append] at hsent
  rcases hsent with hbefore | hnow
  · obtain ⟨hdst, hclient⟩ := hsends dst datagram hbefore
    exact ⟨hdst, hclient.mono hle id⟩
  · obtain ⟨found, hfound, hclient⟩ := hadded _ hnow
    cases hfound
    exact ⟨hserver, hclient⟩

theorem Pair.client_step (hcountable : u.Countable) (h : Pair u c s)
    (hreads : ClientReads c s (Complete u s) input) : Pair u (c.step input) s := by
  obtain ⟨hphase, hle⟩ := h.phase.step hcountable input
  refine ⟨hphase, h.serving.mono hle, ?_,
    h.phase.sends_step hcountable h.eof h.server h.sends input, fun heof => ?_⟩
  · rcases h.phase.server_cases input with hsame | ⟨src, datagram, rfl, hsrc⟩
    · rw [hsame]
      exact h.server
    · rw [hsrc]
      exact hreads.1
  · rcases h.phase.eof_cases input heof with
      hbefore | ⟨src, datagram, received, rfl, haccepted, hflag, hlast⟩
    · exact h.eof hbefore
    · have hcur := h.curRRnum_le
      have htop := h.phase.winCur_le
      obtain ⟨number, hfield, -, hnumber, -⟩ :=
        hreads.acknowledged hcountable htop hcur haccepted hflag
      simp only [Complete]
      omega

theorem Pair.server_step (hcountable : u.Countable) (h : Pair u c s)
    (hreads : Reads u c.winCur (Complete u s) input) : Pair u c (s.step input) := by
  obtain ⟨hserving, -, hcomplete⟩ :=
    h.serving.turn hcountable h.phase.winCur_le hreads (Server.turn s input)
  refine ⟨h.phase, hserving, h.server, fun dst datagram hsent => ?_, fun heof => ?_⟩
  · obtain ⟨hdst, hclient⟩ := h.sends dst datagram hsent
    exact ⟨hdst, hclient.mono (Nat.le_refl _) hcomplete⟩
  · exact hcomplete (h.eof heof)

end SlidingWindow.Transfer

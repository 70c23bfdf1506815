import SlidingWindow.Replies
import SlidingWindow.LocalFile
import SlidingWindow.Completion

/-! Anybody can answer `rcopy`: it takes a datagram from any sender, and follows its number,
its flag and its address. Here all that the client reads is made up, as it may be by an
attacker who sees everything, and the main port forks as often as it is sent something. What
the server reads still comes from the client, or does not pass its checksum. -/
namespace SlidingWindow.Forgery

open Library Phases Transfer Completion LocalFile

variable {u : Upload} {top : ℕ} {s s' : Server} {w : World} {input : Input}

/-- One turn: the client reads anything, the server what the network has for it. -/
inductive Move where
  | client (input : Input)
  | child (index : ℕ) (choice : World.Choice)
  | main (choice : World.Choice)
  deriving DecidableEq

def move (w : World) : Move → World
  | .client input => { w with client := w.client.step input }
  | .child index choice => w.step (.child index choice)
  | .main choice => w.step (.main choice)

/-- The child has the beginning of the file, though it may be told of the end too early. -/
def Held (u : Upload) (top : ℕ) (s : Server) : Prop :=
  Phase u top s ∨ s.state = .receivedEof ∧ Prefix u top s

theorem Held.stored (h : Held u top s) : Prefix u top s := by
  rcases h with hphase | ⟨-, hstored⟩
  · exact hphase.stored
  · exact hstored

theorem Held.mono (h : Held u top s) {top' : ℕ} (hle : top ≤ top') : Held u top' s := by
  rcases h with hphase | ⟨hstate, hstored⟩
  · exact .inl (hphase.mono hle)
  · exact .inr ⟨hstate, hstored.mono hle⟩

theorem step_of_busy (hbusy : ¬ s.waits) (src : Peer) (datagram : Datagram) :
    s.step (.datagram src datagram) = s.step .silent := by
  have hsame : s.processClient (.datagram src datagram) = s.processClient .silent := by
    unfold Server.waits at hbusy
    unfold Server.processClient
    cases hstate : s.state <;> simp_all [Server.receivedRemoteFileName, Server.receivedEof]
  simp only [Server.step, hsame]

theorem Held.ends (h : Phase u top s) (seqNum : ℕ) (hwaits : s.waits) (src : Peer) :
    Held u top (s.step (.datagram src (plainDatagram [] .endOfFile seqNum))) := by
  have hrecv := @Framing.recvBuf_plainDatagram [] .endOfFile seqNum (by simp [maxPacketLen])
  have hturn := s.turn (.datagram src (plainDatagram [] .endOfFile seqNum))
  generalize s.step (.datagram src _) = s' at hturn ⊢
  cases hturn with
  | setupRead state accepted =>
      cases hrecv.symm.trans accepted
      have hprepare := h.preparing_of (by simp [state])
      exact .inl (.preparing ⟨by simp [Server.read, Server.setupState], hprepare.fresh,
        hprepare.writes, hprepare.window, by simp [Server.read, Server.setupState]⟩)
  | dataRead state accepted =>
      cases hrecv.symm.trans accepted
      exact .inr ⟨rfl, h.stored.congr rfl rfl⟩
  | corrupted _ crcError => simp [hrecv] at crcError
  | crashed _ runt => simp [hrecv] at runt
  | setupUnanswered _ quiet | dataUnanswered _ quiet => exact absurd rfl (quiet _ _)
  | _ =>
      unfold Server.waits at hwaits
      grind

theorem Held.step (hcountable : u.Countable) (h : Held u top s)
    (hreads : Reads u top True input) : Held u top (s.step input) := by
  rcases h with hphase | ⟨hstate, hstored⟩
  · have hphase' {input : Input} (hreads : Reads u top (Complete u s) input) :
        Held u top (s.step input) :=
      .inl (hphase.turn hcountable hreads (s.turn input))
    cases input with
    | silent => exact @hphase' .silent trivial
    | failure => exact @hphase' .failure trivial
    | datagram src datagram =>
        by_cases hwaits : s.waits
        · obtain ⟨rfl, hcorrupt | hclient⟩ := hreads
          · exact @hphase' (.datagram .rcopy datagram) ⟨rfl, .inl hcorrupt⟩
          · have hother (hfrom : u.FromClient top (Complete u s) datagram) :
                Held u top (s.step (.datagram .rcopy datagram)) :=
              @hphase' (.datagram .rcopy datagram) ⟨rfl, .inr hfrom⟩
            cases hclient with
            | fileName seqNum => exact hother (.fileName seqNum)
            | bufferSize seqNum => exact hother (.bufferSize seqNum)
            | windowSize seqNum => exact hother (.windowSize seqNum)
            | data seqNum number chunk genuine => exact hother (.data seqNum number chunk genuine)
            | endOfFile seqNum => exact Held.ends hphase seqNum hwaits .rcopy
        · rw [step_of_busy hwaits]
          exact @hphase' .silent trivial
  · have hturn := s.turn input
    generalize s.step input = s' at hturn ⊢
    cases hturn with
    | ended =>
        refine .inl (.stopped (by simp [Server.answerEof]) (hstored.congr rfl ?_))
        simp [Server.answerEof, Server.sendAnswer, Server.log]
    | aborted => exact .inl (.stopped (by simp) (hstored.congr rfl rfl))
    | crashed state | corrupted state => simp [Server.waits, hstate] at state
    | _ => simp_all

structure Tied (s : Server) : Prop where
  client : s.client = .rcopy
  sends : ∀ dst datagram, .sent dst datagram ∈ s.trace → dst = .rcopy

theorem client_cases (hturn : Server.Turn s input s') :
    s'.client = s.client ∨ ∃ src datagram, input = .datagram src datagram ∧ s'.client = src := by
  cases hturn with
  | corrupted | setupRead | dataRead => exact .inr ⟨_, _, rfl, rfl⟩
  | allocated state allocates =>
      obtain rfl := DataPhase.readyForDataPacketSetup_ok allocates
      exact .inl rfl
  | delivered state delivers =>
      have hsettled := (ServerWindow.handles_of_dataTurn (Server.dataTurn delivers)).settled
      exact .inl (ServerWindow.eq_of_frame Server.client (fun _ => rfl) hsettled :)
  | _ => exact .inl rfl

theorem Tied.turn (h : Tied s) (hsrc : ∀ src datagram, input = .datagram src datagram → src = .rcopy)
    (hturn : Server.Turn s input s') : Tied s' where
  client := by
    rcases client_cases hturn with hsame | ⟨src, datagram, hinput, hclient⟩
    · exact hsame.trans h.client
    · exact hclient.trans (hsrc src datagram hinput)
  sends dst datagram hsent := by
    have hold (hbefore : .sent dst datagram ∈ s.trace) : dst = .rcopy := h.sends dst datagram hbefore
    cases Replies.exchange hturn with
    | took src seqNum heard trace => exact hold (trace ▸ hsent)
    | answered deaf before after added answer trace sends =>
        rw [trace, List.mem_append] at hsent
        rcases hsent with hbefore | hnow
        · exact hold hbefore
        · have hanswer := World.mem_sends.mpr hnow
          rw [sends, List.mem_singleton] at hanswer
          cases hanswer
          exact h.client
    | quiet deaf added trace sends =>
        rw [trace, List.mem_append] at hsent
        rcases hsent with hbefore | hnow
        · exact hold hbefore
        · have hnone := World.mem_sends.mpr hnow
          rw [sends] at hnone
          exact absurd hnone List.not_mem_nil

structure Guarded (u : Upload) (w : World) : Prop where
  phase : ClientPhase u w.client
  sends : ∀ dst datagram, .sent dst datagram ∈ w.client.trace →
    u.FromClient w.client.winCur True datagram
  held : ∀ s ∈ w.children, Held u w.client.winCur s
  tied : ∀ s ∈ w.children, Tied s

theorem guarded_session (u : Upload) : Guarded u (session u) where
  phase := .preparing ⟨.inl (.inl rfl), rfl, rfl, rfl, rfl, rfl, rfl⟩
  sends dst datagram hsent := by simp [session, World.start, Client.started] at hsent
  held s hs := by simp [session, World.start] at hs
  tied s hs := by simp [session, World.start] at hs

theorem Guarded.reads (h : Guarded u w) {peer : Peer} (hpeer : peer ≠ .rcopy)
    (choice : World.Choice) :
    Reads u w.client.winCur True (World.resolve (w.inbox peer) choice) := by
  have hinbox : ∀ src datagram, (src, datagram) ∈ w.inbox peer →
      src = .rcopy ∧ u.FromClient w.client.winCur True datagram := by
    intro src datagram hmem
    rcases World.mem_inbox.mp hmem with ⟨hsrc, hsent⟩ | ⟨index, s, hchild, -, hsent⟩
    · exact ⟨hsrc, h.sends peer datagram hsent⟩
    · exact absurd ((h.tied s (List.mem_of_getElem? hchild)).sends peer datagram hsent) hpeer
  have hoffered := World.offered_resolve (w.inbox peer) choice
  generalize World.resolve (w.inbox peer) choice = input at hoffered ⊢
  cases input with
  | silent => trivial
  | failure => trivial
  | datagram src datagram =>
      exact World.of_offered (P := (· = .rcopy)) (Q := u.FromClient w.client.winCur True)
        hinbox hoffered

theorem Guarded.client_step (hcountable : u.Countable) (h : Guarded u w) (input : Input) :
    Guarded u (move w (.client input)) := by
  obtain ⟨hphase, hle⟩ := h.phase.step hcountable input
  obtain ⟨added, htrace, hadded⟩ := h.phase.sends hcountable (fun _ => trivial) input
  refine ⟨hphase, fun dst datagram hsent => ?_, fun s hs => (h.held s hs).mono hle, h.tied⟩
  change .sent dst datagram ∈ (w.client.step input).trace at hsent
  rw [htrace, List.mem_append] at hsent
  rcases hsent with hbefore | hnow
  · exact (h.sends dst datagram hbefore).mono hle id
  · obtain ⟨found, hfound, hclient⟩ := hadded _ hnow
    cases hfound
    exact hclient

theorem Guarded.child_step (hcountable : u.Countable) (h : Guarded u w) (index : ℕ)
    (choice : World.Choice) : Guarded u (move w (.child index choice)) := by
  have hreads := @Guarded.reads u w h (.child index) (by simp) choice
  refine ⟨h.phase, h.sends, World.forall_children_step h.held fun s hchild => ?_,
    World.forall_children_step h.tied fun s hchild => ?_⟩
  · exact (h.held s (List.mem_of_getElem? hchild)).step hcountable hreads
  · refine (h.tied s (List.mem_of_getElem? hchild)).turn (fun src datagram hinput => ?_) (s.turn _)
    rw [hinput] at hreads
    exact hreads.1

theorem Guarded.main_step (h : Guarded u w) (choice : World.Choice) :
    Guarded u (move w (.main choice)) := by
  have hreads := @Guarded.reads u w h .main (by simp) choice
  rcases w.step_main choice with hsame | ⟨src, datagram, received, hinput, -, hfork⟩
  · rw [move, hsame]
    exact h
  · rw [hinput] at hreads
    obtain ⟨rfl, -⟩ := hreads
    rw [move, hfork]
    refine ⟨h.phase, h.sends, fun s hs => ?_, fun s hs => ?_⟩
    · rcases List.mem_append.mp hs with hbefore | hforked
      · exact h.held s hbefore
      · rw [List.mem_singleton.mp hforked]
        exact .inl (serving_forked u _ received.packet).phase
    · rcases List.mem_append.mp hs with hbefore | hforked
      · exact h.tied s hbefore
      · rw [List.mem_singleton.mp hforked]
        exact ⟨rfl, by simp [Server.forked]⟩

theorem guarded_run (hcountable : u.Countable) (moves : List Move) :
    Guarded u (Runs.run move (session u) moves) := by
  refine Runs.run_invariant (Guarded u) (fun w taken h _ => ?_) (guarded_session u)
    Runs.along_true
  cases taken with
  | client input => exact h.client_step hcountable input
  | child index choice => exact h.child_step hcountable index choice
  | main choice => exact h.main_step choice

theorem Guarded.part {r : Request} {s : Server} (h : Guarded r.upload w) (hs : s ∈ w.children) :
    s.trace.writes.flatten <+: r.file := by
  rw [(h.held s hs).stored.writes]
  exact r.take_prefix _

/-- Whatever `rcopy` is told, and by whom: what it sends is a packet of this upload, and no
child, of however many, writes anything but the beginning of the file, as far as the client
has sent it. -/
theorem forged_prefix (r : Request) (moves : List Move) :
    (∀ dst datagram,
      .sent dst datagram ∈ (Runs.run move (session r.upload) moves).client.trace →
        r.upload.FromClient (Runs.run move (session r.upload) moves).client.winCur True
          datagram) ∧
    ∀ s ∈ (Runs.run move (session r.upload) moves).children,
      s.trace.writes.flatten <+: r.file ∧
        s.trace.writes.length ≤ (Runs.run move (session r.upload) moves).client.winCur := by
  have hguarded := guarded_run r.countable moves
  refine ⟨hguarded.sends, fun s hs => ?_⟩
  have hstored := (hguarded.held s hs).stored
  have hle := hstored.le
  refine ⟨hguarded.part hs, ?_⟩
  rw [hstored.writes, List.length_take]
  omega

end SlidingWindow.Forgery

import SlidingWindow.Upload

/-! A whole session of `rcopy` and one child, from the first step of `rcopy` on. In
the states of the transfer every packet but an `RR` or an `SREJ` ends the client, an
`ACK_EOF` as well as a setup answer that comes late. -/
namespace SlidingWindow.Completion

open Library Phases Transfer

variable {u : Upload} {c c' : Client} {s : Server} {w : World} {input : Input}

def session (u : Upload) : World :=
  World.start (Client.started u.chunks u.name u.bufSize u.width)

/-- The main port forks for one datagram at most. -/
def OneChild (w : World) (label : World.Label) : Prop := (w.step label).children.length ≤ 1

structure Alone (u : Upload) (w : World) : Prop where
  children : w.children = []
  phase : ClientPhase u w.client
  server : w.client.server ≠ .rcopy
  sends : ∀ dst datagram, .sent dst datagram ∈ w.client.trace →
    dst ≠ .rcopy ∧ u.FromClient w.client.winCur False datagram
  notEnded : w.client.state ≠ .sendEofAndQuit

theorem Alone.quiet (h : Alone u w) (choice : World.Choice) (src : Peer)
    (datagram : Datagram) : World.resolve (w.inbox .rcopy) choice ≠ .datagram src datagram := by
  have hempty (src : Peer) (datagram : Datagram) : (src, datagram) ∉ w.inbox .rcopy := by
    intro hmem
    rcases World.mem_inbox.mp hmem with ⟨-, hsent⟩ | ⟨index, child, hchild, -, -⟩
    · exact (h.sends _ _ hsent).1 rfl
    · simp [h.children] at hchild
  intro hinput
  have hoffered := World.offered_resolve (w.inbox .rcopy) choice
  rw [hinput] at hoffered
  rcases hoffered with hmem | ⟨-, original, hmem⟩
  · exact hempty _ _ hmem
  · exact hempty _ _ hmem

theorem Alone.client_step (hcountable : u.Countable) (h : Alone u w)
    (hquiet : ∀ src datagram, input ≠ .datagram src datagram) :
    Alone u { w with client := w.client.step input } := by
  obtain ⟨hphase, -⟩ := h.phase.step hcountable input
  refine ⟨h.children, hphase, ?_,
    h.phase.sends_step hcountable h.notEnded h.server h.sends input, fun heof => ?_⟩
  · rcases h.phase.server_cases input with hsame | ⟨src, datagram, hinput, -⟩
    · exact hsame ▸ h.server
    · exact absurd hinput (hquiet src datagram)
  · rcases h.phase.eof_cases input heof with hbefore | ⟨src, datagram, -, hinput, -⟩
    · exact h.notEnded hbefore
    · exact hquiet src datagram hinput

theorem serving_forked (u : Upload) (top : ℕ) (packet : Bytes) :
    Serving u top (Server.forked .rcopy packet) where
  phase := .preparing ⟨.inl rfl, rfl, rfl, by simp [Server.forked], by simp [Server.forked]⟩
  client := rfl
  sends dst datagram hsent := by simp [Server.forked] at hsent

theorem Alone.fork_cases (h : Alone u w) (choice : World.Choice) :
    w.step (.main choice) = w ∨ ∃ s, Carries u (w.step (.main choice)) s := by
  rcases w.step_main choice with hsame | ⟨src, datagram, received, hinput, haccepted, hfork⟩
  · exact .inl hsame
  · have hoffered := World.offered_resolve (w.inbox .main) choice
    rw [hinput] at hoffered
    have hsrc : src = .rcopy := by
      rcases hoffered with hmem | ⟨hcorrupt, -⟩
      · rcases World.mem_inbox.mp hmem with ⟨hsrc, -⟩ | ⟨index, child, hchild, -, -⟩
        · exact hsrc
        · simp [h.children] at hchild
      · simp [hcorrupt] at haccepted
    rw [hfork]
    refine .inr ⟨Server.forked src received.packet, by simp [h.children], h.phase, ?_,
      h.server, fun dst datagram hsent => ?_, fun heof => absurd heof h.notEnded⟩
    · rw [hsrc]
      exact serving_forked u _ _
    · obtain ⟨hdst, hclient⟩ := h.sends dst datagram hsent
      exact ⟨hdst, hclient.mono (Nat.le_refl _) False.elim⟩

def InSession (u : Upload) (w : World) : Prop := Alone u w ∨ ∃ s, Carries u w s

theorem InSession.step (hcountable : u.Countable) (h : InSession u w) {label : World.Label}
    (hone : OneChild w label) : InSession u (w.step label) := by
  rcases h with halone | ⟨s, hcarries⟩
  · cases label with
    | main choice =>
        rcases halone.fork_cases choice with hsame | hforked
        · rw [hsame]
          exact .inl halone
        · exact .inr hforked
    | client choice => exact .inl (halone.client_step hcountable (halone.quiet choice))
    | child index choice =>
        refine .inl ?_
        simp only [World.step, halone.children, List.modify_nil]
        rw [← halone.children]
        exact halone
  · cases label with
    | main choice =>
        rcases w.step_main choice with hsame | ⟨src, datagram, received, -, -, hfork⟩
        · rw [hsame]
          exact .inr ⟨s, hcarries⟩
        · simp [OneChild, hfork, hcarries.children] at hone
    | client choice => exact .inr (hcarries.step hcountable trivial)
    | child index choice => exact .inr (hcarries.step hcountable trivial)

theorem alone_session (u : Upload) : Alone u (session u) where
  children := rfl
  phase := .preparing ⟨.inl (.inl rfl), rfl, rfl, rfl, rfl, rfl, rfl⟩
  server := by simp [session, World.start, Client.started]
  sends dst datagram hsent := by simp [session, World.start, Client.started] at hsent
  notEnded := by simp [session, World.start, Client.started]

/-- The client ends, from a state of the transfer, though it has neither lost the server
nor failed to read its file. -/
structure NormalEnd (c : Client) (input : Input) : Prop where
  transfer : c.inTransfer
  running : c.state ≠ .done
  answered : c.state ≠ .timeoutOnServer
  reads : c.state = .sendData → input ≠ .failure
  done : (c.step input).state = .done

/-- The end has been acknowledged, and the server has written the whole file. -/
structure Delivered (u : Upload) (w : World) (input : Input) : Prop where
  acknowledged : ∃ src datagram received, input = .datagram src datagram ∧
    recvBuf datagram = .ok (some received) ∧ received.flag = some .ackEof
  written : ∃ s, w.children = [s] ∧ s.trace.writes = u.chunks

def Expects (c : Client) : Input → Prop
  | .datagram _ datagram => c.listening?.isSome → ∀ received,
      recvBuf datagram = .ok (some received) → received.flag = some .rr ∨
        received.flag = some .srej ∨ received.flag = some .ackEof
  | _ => True

theorem NormalEnd.packet (h : NormalEnd c input) (hturn : Client.Turn c input c')
    (hstep : c.step input = c') :
    ∃ src datagram received, input = .datagram src datagram ∧ c.listening?.isSome ∧
      recvBuf datagram = .ok (some received) ∧ received.flag ≠ some .rr ∧
      received.flag ≠ some .srej := by
  have hdone := hstep ▸ h.done
  cases hturn with
  | ended listens accepted flag =>
      exact ⟨_, _, _, rfl, by simp [listens], accepted, flag.1, flag.2⟩
  | halted => exact absurd hdone h.running
  | gaveUp state => exact absurd state h.answered
  | readFailed state => exact absurd rfl (h.reads state)
  | sent _ chunk rest =>
      rcases Client.sentChunk_state c chunk rest with hopen | hclosed <;> simp_all
  | resent =>
      rename_i before index slot _ _ _
      rcases Client.resent_state before slot with hopen | hclosed <;> simp_all
  | polled | eofUnanswered | corrupted | acknowledged =>
      simp only [Client.heard, Client.acknowledged] at hdone
      grind
  | _ => contradiction

def Delivers (u : Upload) (w : World) : World.Label → Prop
  | .client choice =>
      let input := World.resolve (w.inbox .rcopy) choice
      NormalEnd w.client input → Delivered u w input
  | _ => True

def ExpectsAnswers (w : World) : World.Label → Prop
  | .client choice => Expects w.client (World.resolve (w.inbox .rcopy) choice)
  | _ => True

theorem NormalEnd.uploading (hphase : ClientPhase u c) (h : NormalEnd c input) :
    ∃ src datagram received, input = .datagram src datagram ∧ c.listening?.isSome ∧
      recvBuf datagram = .ok (some received) ∧ received.flag ≠ some .rr ∧
      received.flag ≠ some .srej := by
  rcases hphase.turns input with ⟨-, hsetup, -⟩ | ⟨hsame, hhalted⟩ | ⟨-, hturn⟩
  · have htransfer := h.transfer
    unfold Client.inTransfer at htransfer
    unfold Client.inSetup at hsetup
    grind
  · have hdone := h.done
    rw [hsame] at hdone
    exact absurd hdone h.running
  · exact h.packet hturn rfl

theorem normalEnd_of_unexpected (hphase : ClientPhase u c) (src : Peer)
    {datagram : Datagram} {received : Received} (hlistens : c.listening?.isSome)
    (haccepted : recvBuf datagram = .ok (some received))
    (hflag : received.flag ≠ some .rr ∧ received.flag ≠ some .srej) :
    NormalEnd c (.datagram src datagram) := by
  obtain ⟨before, hbefore⟩ := Option.isSome_iff_exists.mp hlistens
  have hstate := Client.listening?_state hbefore
  rcases hphase.turns (.datagram src datagram) with ⟨-, hsetup, -⟩ | ⟨-, hhalted⟩ |
    ⟨hupload, hturn⟩
  · unfold Client.inSetup at hsetup
    grind
  · grind
  · refine ⟨hupload.transfer, by grind, by grind, by simp, ?_⟩
    cases hturn.of_accepted hbefore haccepted with
    | acknowledged hrr => exact absurd hrr hflag.1
    | rejected hsrej => exact absurd hsrej hflag.2
    | ended _ hdone => exact hdone

theorem InSession.phase (h : InSession u w) : ClientPhase u w.client := by
  rcases h with halone | ⟨s, hcarries⟩
  · exact halone.phase
  · exact hcarries.pair.phase

theorem InSession.delivers_iff (h : InSession u w) (label : World.Label) :
    Delivers u w label ↔ ExpectsAnswers w label := by
  cases label with
  | main choice => exact Iff.rfl
  | child index choice => exact Iff.rfl
  | client choice =>
      simp only [Delivers, ExpectsAnswers]
      constructor
      · intro hdelivers
        generalize World.resolve (w.inbox .rcopy) choice = input at hdelivers
        cases input with
        | silent => trivial
        | failure => trivial
        | datagram src datagram =>
            intro hlistens received haccepted
            by_contra hother
            simp only [not_or] at hother
            have hend := normalEnd_of_unexpected h.phase src hlistens haccepted
              ⟨hother.1, hother.2.1⟩
            obtain ⟨found, same, ended, hinput, haccepted', hflag⟩ :=
              (hdelivers hend).acknowledged
            cases hinput
            rw [haccepted] at haccepted'
            cases haccepted'
            exact hother.2.2 hflag
      · intro hexpects hend
        obtain ⟨src, datagram, received, hinput, hlistens, haccepted, hrr, hsrej⟩ :=
          hend.uploading h.phase
        rw [hinput] at hexpects
        have hflag : received.flag = some .ackEof := by
          rcases hexpects hlistens received haccepted with h | h | h
          · exact absurd h hrr
          · exact absurd h hsrej
          · exact h
        refine ⟨⟨src, datagram, received, hinput, haccepted, hflag⟩, ?_⟩
        rcases h with halone | ⟨s, hcarries⟩
        · exact absurd hinput (halone.quiet choice src datagram)
        · have hreads := hcarries.clientReads choice
          rw [hinput] at hreads
          obtain ⟨-, hserver, hpacketFlag⟩ := hreads.received haccepted
          have hcomplete := hserver.complete_of_flag (hpacketFlag ▸ hflag)
          exact ⟨s, hcarries.children,
            Complete.writes hcomplete hcarries.pair.serving.phase.stored⟩

/-- In a session with one child, the client ends normally only after an `ACK_EOF` and
with the whole file delivered, exactly when every packet it reads in the transfer is one
of the transfer. -/
theorem normal_end_delivers_iff (hcountable : u.Countable) (labels : List World.Label)
    (hone : Runs.Along World.step OneChild (session u) labels) :
    Runs.Along World.step (Delivers u) (session u) labels ↔
      Runs.Along World.step ExpectsAnswers (session u) labels :=
  Runs.along_iff_of_invariant (InSession u) (fun _ _ h hone => h.step hcountable hone)
    (fun _ label h => h.delivers_iff label) (.inl (alone_session u)) hone

def letter : Upload where
  chunks := [[65]]
  width := 1
  bufSize := 400
  name := [102]
  chunk_length := by decide
  bufSize_range := smallest_bufSize
  width_lt := single_width
  name_length := short_name

def handshake : List World.Label :=
  [.client .quiet, .client .quiet, .main (.deliver 0), .child 0 .quiet, .child 0 .quiet,
    .child 0 .quiet, .client (.deliver 0), .client .quiet, .child 0 (.deliver 0),
    .child 0 .quiet, .client (.deliver 1), .client .quiet, .child 0 (.deliver 1),
    .child 0 .quiet, .client (.deliver 2), .client .quiet, .client .quiet]

/-- The packet, its acknowledgement, which arrives twice, and the end of the file. -/
def delivery : List World.Label :=
  [.child 0 (.deliver 2), .child 0 .quiet, .child 0 .quiet, .client (.deliver 3),
    .client .quiet, .client (.deliver 3), .client .quiet, .child 0 (.deliver 3),
    .child 0 .quiet, .client (.deliver 4)]

instance (w : World) : DecidablePred (OneChild w) := fun label =>
  inferInstanceAs (Decidable ((w.step label).children.length ≤ 1))

theorem normal_end_delivers_iff_delivery :
    Runs.Along World.step (Delivers letter) (session letter) (handshake ++ delivery) ↔
      Runs.Along World.step ExpectsAnswers (session letter) (handshake ++ delivery) :=
  normal_end_delivers_iff ⟨by decide, by decide⟩ (handshake ++ delivery) (by decide +kernel)

/-- The answer to the window size arrives once more, and ends the client when nothing has
been written. -/
theorem late_answer_ends :
    ¬ Runs.Along World.step (Delivers letter) (session letter)
      (handshake ++ [.client (.deliver 2)]) := by
  intro h
  have hdelivers := (Runs.along_append.mp h).2.1
  have hend : NormalEnd (Runs.run World.step (session letter) handshake).client
      (World.resolve ((Runs.run World.step (session letter) handshake).inbox .rcopy)
        (.deliver 2)) :=
    ⟨.inr (.inr (.inr (.inl (by decide +kernel)))), by decide +kernel, by decide +kernel,
      by decide +kernel, by decide +kernel⟩
  obtain ⟨s, hchildren, hwritten⟩ := (hdelivers hend).written
  have hnothing : (Runs.run World.step (session letter) handshake).children.map
      (·.trace.writes) = [[]] := by
    decide +kernel
  rw [hchildren] at hnothing
  simp [hwritten, letter] at hnothing

end SlidingWindow.Completion

import SlidingWindow.Arguments
import SlidingWindow.DataPhase

/-! A whole session when nothing is delivered any more: in whatever order the processes
take their turns, each of them ends, the client and every child that was ever forked, but
for a child that is caught in the loop over a window of more than 255 slots. -/
namespace SlidingWindow.Quiescence

open Library Silence

variable {u : Upload} {c c' : Client} {s s' : Server} {w : World} {input : Input}

def Ended (s : Server) : Prop := s.state = .done ∨ s.state = .exited

def Still (s : Server) : Prop := Ended s ∨ s.state = .hung

/-- A child counts to ten as well, but only in the setup. -/
def Counting (s : Server) : Prop := s.timeout ≤ 10 ∨ s.state = .timeoutOnClient ∨ Still s

def childPatience (s : Server) : ℕ :=
  match s.state with
  | .done => 0
  | .exited => 0
  | .hung => 0
  | .timeoutOnClient => 1
  | .timeoutOnClientSetup => 1
  | .receivedEof => 1
  | .readyForNextDataPacket => 2
  | .receivedData => 3
  | .readyForDataPacketsSetup => 4
  | .readyForNextSetupPacket => 12 - s.timeout
  | .receivedRemoteFileName => 13 - s.timeout
  | .receivedBufferSize => 13 - s.timeout
  | .receivedWindowSize => 13 - s.timeout
  | .setupClientSocket => 14 - s.timeout
  | .start => 15 - s.timeout

theorem childPatience_le (s : Server) : childPatience s ≤ 15 := by
  unfold childPatience
  split <;> omega

theorem counting_forked (client : Peer) (packet : Bytes) :
    Counting (Server.forked client packet) := .inl (Nat.zero_le _)

theorem Counting.timeout_le (h : Counting s) (hwaits : s.state ≠ .timeoutOnClient)
    (hmoves : ¬ Still s) : s.timeout ≤ 10 := by
  rcases h with h | h | h
  · exact h
  · exact absurd h hwaits
  · exact absurd h hmoves

theorem received (h : s.receivedData = .ok s') :
    s'.state = .readyForNextDataPacket ∧ s'.timeout = s.timeout := by
  have hsettled := (ServerWindow.handles_of_dataTurn (Server.dataTurn h)).settled
  exact ⟨(ServerWindow.eq_of_frame Server.state (fun _ => rfl) hsettled :),
    (ServerWindow.eq_of_frame Server.timeout (fun _ => rfl) hsettled :)⟩

theorem u32_count (h : s.timeout ≤ 10) : u32 (s.timeout + 1) = s.timeout + 1 :=
  u32_of_lt (by omega)

theorem Counting.turn (h : Counting s) (hturn : Server.Turn s input s') : Counting s' := by
  have hle (hstate : s.state ≠ .timeoutOnClient ∧ s.state ≠ .done ∧ s.state ≠ .exited ∧
      s.state ≠ .hung) : s.timeout ≤ 10 := h.timeout_le hstate.1 (by simp [Still, Ended, hstate])
  cases hturn with
  | halted => exact h
  | gaveUp | badName | refused | diverged | undelivered | stuck | ended | aborted | crashed =>
      exact .inr (.inr (by simp [Still, Ended, Server.rejectFileName, Server.answerEof]))
  | dataUnanswered => exact .inr (.inl rfl)
  | corrupted | setupRead | dataRead => exact .inl (Nat.zero_le _)
  | started state | socketMade state | keptOpen state | opened state | bufferSize state
  | windowSize state => exact .inl (hle (by simp [state]))
  | allocated state allocates =>
      obtain rfl := DataPhase.readyForDataPacketSetup_ok allocates
      exact .inl (hle (by simp [state]))
  | delivered state delivers =>
      exact .inl ((received delivers).2 ▸ hle (by simp [state]))
  | setupUnanswered state =>
      have hcount := hle (by simp [state])
      simp only [Counting, u32_count hcount]
      by_cases hlate : 10 < s.timeout + 1
      · exact .inr (.inl (if_pos hlate))
      · exact .inl (by omega)

theorem childPatience_turn (h : Counting s) (hquiet : Quiet input) (hmoves : ¬ Still s)
    (hturn : Server.Turn s input s') : childPatience s' < childPatience s := by
  have hle (hstate : s.state ≠ .timeoutOnClient) : s.timeout ≤ 10 := h.timeout_le hstate hmoves
  cases hturn with
  | halted state => exact absurd (or_assoc.mpr state) hmoves
  | gaveUp state => rcases state with state | state <;> simp [childPatience, state]
  | crashed | corrupted | setupRead | dataRead => exact absurd rfl (hquiet _ _)
  | delivered state delivers =>
      simp [childPatience, state, (received delivers).1]
  | allocated state allocates =>
      obtain rfl := DataPhase.readyForDataPacketSetup_ok allocates
      simp [childPatience, state, DataPhase.allocated]
  | setupUnanswered state =>
      have hcount := hle (by simp [state])
      by_cases hlate : 10 < s.timeout + 1
      · simp [childPatience, state, u32_count hcount, hlate]
        omega
      · simp [childPatience, state, u32_count hcount, hlate]
        omega
  | started state | socketMade state | badName state | keptOpen state | refused state
  | opened state | bufferSize state | windowSize state =>
      have hcount := hle (by simp [state])
      simp [childPatience, state, Server.acceptFileName, Server.rejectFileName,
        Server.receivedBufferSize, Server.receivedWindowSize, Server.sendAnswer, Server.log,
        Server.openFile]
      omega
  | diverged state | undelivered state | stuck state | ended state | aborted state
  | dataUnanswered state => simp [childPatience, state, Server.answerEof]

theorem Still.step (h : Still s) (input : Input) : s.step input = s := by
  apply Server.step_of_ok
  rcases h with (h | h) | h <;> simp only [Server.processClient, h]

theorem still_of_childPatience (h : Counting s) (hzero : childPatience s = 0) : Still s := by
  by_contra hmoves
  have hle (hstate : s.state ≠ .timeoutOnClient) : s.timeout ≤ 10 := h.timeout_le hstate hmoves
  unfold childPatience at hzero
  simp only [Still, Ended, not_or] at hmoves
  cases hstate : s.state <;> simp only [hstate] at hzero hmoves hle <;> grind

theorem child_still (h : Counting s) {inputs : List Input}
    (hquiet : ∀ input ∈ inputs, Quiet input) (hlong : 15 ≤ inputs.length) :
    Still (Runs.run Server.step s inputs) := by
  have halong : Runs.Along Server.step (fun _ input => Quiet input) s inputs := by
    rw [Runs.along_iff_split]
    rintro first input second rfl
    exact hquiet input (by simp)
  refine Runs.run_final_of_measure Counting Still childPatience ?_ ?_ ?_ h halong
    (fun _ => still_of_childPatience) (Nat.le_trans (childPatience_le s) hlong)
  · exact fun s input h _ => h.turn (Server.turn s input)
  · exact fun s input h hquiet hmoves =>
      childPatience_turn h hquiet hmoves (Server.turn s input)
  · intro s input hstill
    rwa [hstill.step]

/-- A child with the window of the upload. Only a large one can catch it. -/
structure Turning (width : ℕ) (s : Server) : Prop where
  counting : Counting s
  child : Arguments.Child width s
  ring : s.state = .receivedData ∨ s.state = .readyForNextDataPacket →
    s.window.length = s.winSize
  hung : s.state = .hung → 255 < width

theorem ring_hung_of_state {width : ℕ} (hstate : s.state ≠ .receivedData ∧
    s.state ≠ .readyForNextDataPacket ∧ s.state ≠ .hung) :
    (s.state = .receivedData ∨ s.state = .readyForNextDataPacket →
      s.window.length = s.winSize) ∧ (s.state = .hung → 255 < width) := by
  simp [hstate]

theorem Turning.turn {width : ℕ} (h : Turning width s) (hheard : Arguments.Heard width input)
    (hturn : Server.Turn s input s') : Turning width s' := by
  have hchild := Arguments.child_turn h.child hheard hturn
  suffices hrest : (s'.state = .receivedData ∨ s'.state = .readyForNextDataPacket →
      s'.window.length = s'.winSize) ∧ (s'.state = .hung → 255 < width) from
    ⟨h.counting.turn hturn, hchild, hrest.1, hrest.2⟩
  cases hturn with
  | halted => exact ⟨h.ring, h.hung⟩
  | diverged state loops =>
      refine ⟨by simp, fun _ => ?_⟩
      by_contra hnarrow
      rw [DataPhase.readyForDataPacketSetup_eq (by rw [h.child.data (.inl state)]; omega)]
        at loops
      contradiction
  | stuck state loops =>
      exact absurd loops (Server.receivedData_ends (Nat.le_of_eq (h.ring (.inl state))))
  | allocated state allocates =>
      obtain rfl := DataPhase.readyForDataPacketSetup_ok allocates
      exact ⟨fun _ => List.length_replicate, by simp [DataPhase.allocated]⟩
  | delivered state delivers =>
      have hhandles := ServerWindow.handles_of_dataTurn (Server.dataTurn delivers)
      refine ⟨fun _ => ?_, by simp [(received delivers).1]⟩
      rw [ServerWindow.eq_of_frame Server.winSize (fun _ => rfl) hhandles.settled,
        ← h.ring (.inl state)]
      exact (Server.dataTurn delivers).length_window
  | corrupted state =>
      refine ⟨fun hdata => h.ring hdata, ?_⟩
      rcases state with state | state <;> simp [state]
  | dataRead state =>
      refine ⟨fun _ => h.ring (.inr state), ?_⟩
      simp only [Server.read, Server.dataState]
      grind
  | setupRead =>
      apply ring_hung_of_state
      simp only [Server.read, Server.setupState]
      grind
  | setupUnanswered =>
      apply ring_hung_of_state
      dsimp only
      split <;> simp
  | _ =>
      apply ring_hung_of_state
      simp [Server.acceptFileName, Server.rejectFileName, Server.receivedBufferSize,
        Server.receivedWindowSize, Server.answerEof]

def Over (c : Client) : Prop := c.state = .done ∨ c.state = .exited

/-- More than a silent client with `length` buffers to read goes on for. -/
def endurance (length : ℕ) : ℕ := 24 * length + 47

theorem patience_le_endurance {length : ℕ} (hle : c.localFile.length ≤ length) :
    patience c ≤ endurance length := by
  have hround : (11 - c.timeout) * Silence.round c ≤ 11 * Silence.round c :=
    Nat.mul_le_mul_right _ (Nat.sub_le _ _)
  have hrank : rank c ≤ 2 * c.localFile.length + 3 := by
    unfold rank
    split <;> omega
  unfold patience endurance
  split <;> simp only [Silence.round] at * <;> omega

/-- A resend of nothing stops the program at once, everything else wears it out. -/
theorem patience_falls (h : Patient c) (hquiet : Quiet input) (hover : ¬ Over c) :
    patience (c.step input) < patience c := by
  rw [Over, not_or] at hover
  by_cases hreturns : Returns c input
  · exact patience_step h hquiet hreturns hover
  · rw [Client.step_of_error (not_ne_iff.mp hreturns)]
    exact Nat.pos_of_ne_zero fun hzero => hover.1 (done_of_patience h hover.2 hzero)

theorem client_ends (h : Patient c) {inputs : List Input}
    (hquiet : ∀ input ∈ inputs, Quiet input)
    (hlong : endurance c.localFile.length ≤ inputs.length) :
    Over (Runs.run Client.step c inputs) := by
  have halong : Runs.Along Client.step (fun _ input => Quiet input) c inputs := by
    rw [Runs.along_iff_split]
    rintro first input second rfl
    exact hquiet input (by simp)
  refine Runs.run_final_of_measure Patient Over patience ?_ ?_ ?_ h halong ?_
    (Nat.le_trans (patience_le_endurance (Nat.le_refl _)) hlong)
  · exact fun c input h _ => h.step input
  · exact fun c input h hquiet hover => patience_falls h hquiet hover
  · intro c input hover
    rwa [Client.step_halted hover]
  · intro c h hzero
    by_cases hexited : c.state = .exited
    · exact .inr hexited
    · exact .inl (done_of_patience h hexited hzero)

def Silent : World.Label → Prop
  | .client choice => choice = .quiet ∨ choice = .fails
  | .child _ choice => choice = .quiet ∨ choice = .fails
  | .main choice => choice = .quiet ∨ choice = .fails

/-- What a silent choice lets a process read, whatever was sent to it. -/
def silentInput : World.Choice → Input
  | .fails => .failure
  | _ => .silent

theorem resolve_silent {choice : World.Choice} (h : choice = .quiet ∨ choice = .fails)
    (inbox : List (Peer × Datagram)) : World.resolve inbox choice = silentInput choice := by
  rcases h with rfl | rfl <;> rfl

theorem quiet_silentInput (choice : World.Choice) : Quiet (silentInput choice) := by
  cases choice <;> simp [Quiet, silentInput]

def clientTurns : List World.Label → List Input
  | [] => []
  | .client choice :: labels => silentInput choice :: clientTurns labels
  | _ :: labels => clientTurns labels

def childTurns (index : ℕ) : List World.Label → List Input
  | [] => []
  | .child other choice :: labels =>
      if other = index then silentInput choice :: childTurns index labels
      else childTurns index labels
  | _ :: labels => childTurns index labels

theorem quiet_clientTurns {labels : List World.Label} : ∀ input ∈ clientTurns labels, Quiet input := by
  fun_induction clientTurns labels with
  | case1 => simp
  | case2 choice labels ih => exact List.forall_mem_cons.mpr ⟨quiet_silentInput choice, ih⟩
  | case3 label labels _ ih => exact ih

theorem quiet_childTurns {index : ℕ} {labels : List World.Label} :
    ∀ input ∈ childTurns index labels, Quiet input := by
  fun_induction childTurns index labels with
  | case1 => simp
  | case2 choice labels ih => exact List.forall_mem_cons.mpr ⟨quiet_silentInput choice, ih⟩
  | case3 other choice labels _ ih => exact ih
  | case4 label labels _ ih => exact ih

theorem step_main_silent {choice : World.Choice} (h : choice = .quiet ∨ choice = .fails) :
    w.step (.main choice) = w := by
  rcases h with rfl | rfl <;> simp [World.step, World.fork, World.resolve, Server.forkedFor]

theorem client_run {labels : List World.Label} (h : ∀ label ∈ labels, Silent label) :
    (Runs.run World.step w labels).client =
      Runs.run Client.step w.client (clientTurns labels) := by
  induction labels generalizing w with
  | nil => rfl
  | cons label labels ih =>
      obtain ⟨hsilent, hrest⟩ := List.forall_mem_cons.mp h
      rw [Runs.run_cons, ih hrest]
      cases label with
      | client choice => rw [clientTurns, Runs.run_cons, World.step, resolve_silent hsilent]
      | child other choice => rfl
      | main choice =>
          rw [step_main_silent hsilent]
          rfl

theorem child_run {labels : List World.Label} (h : ∀ label ∈ labels, Silent label) (index : ℕ) :
    (Runs.run World.step w labels).children[index]? =
      w.children[index]?.map (Runs.run Server.step · (childTurns index labels)) := by
  induction labels generalizing w with
  | nil => simp [childTurns]
  | cons label labels ih =>
      obtain ⟨hsilent, hrest⟩ := List.forall_mem_cons.mp h
      rw [Runs.run_cons, ih hrest]
      cases label with
      | client choice => rfl
      | child other choice =>
          rw [World.getElem?_children_step, resolve_silent hsilent, childTurns, Option.map_map]
          congr 1
          funext s
          by_cases hother : other = index <;> simp [hother]
      | main choice =>
          rw [step_main_silent hsilent]
          rfl

structure Reached (u : Upload) (w : World) : Prop where
  bound : Arguments.Bound u.width u.bufSize w
  file : w.client.localFile.length ≤ u.chunks.length
  children : ∀ s ∈ w.children, Turning u.width s

theorem localFile_step (h : Patient c) (input : Input) :
    (c.step input).localFile.length ≤ c.localFile.length := by
  rcases h.turns input with ⟨-, hturn⟩ | ⟨-, hturn⟩ | ⟨hsame, -⟩
  · generalize c.step input = c' at hturn
    cases hturn with
    | answered =>
        unfold Client.answered
        split <;> simp
    | _ => simp [Client.sendRemoteFileName, Client.sendBufferSize, Client.sendWindowSize,
        Client.sendSetup, Client.send, Client.readyToSendDataSetup]
  · generalize c.step input = c' at hturn
    cases hturn with
    | sent _ chunk rest file => simp [Client.sentChunk, file]
    | resent source =>
        obtain ⟨timeout, rfl⟩ := Client.resending?_frame source
        exact Nat.le_refl _
    | crashed listens | corrupted listens | acknowledged listens | rejected listens
    | ended listens =>
        obtain ⟨seqNum, trace, rfl⟩ := Client.listening?_frame listens
        exact Nat.le_refl _
    | _ => exact Nat.le_refl _
  · rw [hsame]

theorem Reached.step (h : Reached u w) (label : World.Label) : Reached u (w.step label) := by
  have hbound := h.bound.step u.width_lt u.bufSize_range.2 label
  cases label with
  | client choice =>
      exact ⟨hbound, Nat.le_trans (localFile_step h.bound.patient _) h.file, h.children⟩
  | child index choice =>
      refine ⟨hbound, h.file, World.forall_children_step h.children fun s hs => ?_⟩
      exact (h.children s (List.mem_of_getElem? hs)).turn (h.bound.heard _ _) (s.turn _)
  | main choice =>
      rcases w.step_main choice with hsame | ⟨src, datagram, received, -, -, hfork⟩
      · rwa [hsame]
      · rw [hfork] at hbound ⊢
        refine ⟨hbound, h.file, fun s hs => ?_⟩
        rcases List.mem_append.mp hs with hs | hs
        · exact h.children s hs
        · obtain rfl := List.mem_singleton.mp hs
          exact ⟨counting_forked src received.packet,
            Arguments.child_forked src received.packet, by simp [Server.forked],
            by simp [Server.forked]⟩

theorem reached_session (hpositive : 1 ≤ u.width) : Reached u (Completion.session u) where
  bound := Arguments.bound_session hpositive
  file := Nat.le_refl _
  children s hs := by simp [Completion.session, World.start] at hs

/-- After any run, however many children have been forked: when nothing is delivered any
more, a child ends within fifteen of its turns, unless it hangs, and the client within a
number of its turns that the length of the file bounds, in whatever order they take them. -/
theorem silence_ends (hpositive : 1 ≤ u.width) (labels : List World.Label)
    {silence : List World.Label} (hsilent : ∀ label ∈ silence, Silent label) :
    let w := Runs.run World.step (Completion.session u) (labels ++ silence)
    (endurance u.chunks.length ≤ (clientTurns silence).length → Over w.client) ∧
      ∀ index s, w.children[index]? = some s → 15 ≤ (childTurns index silence).length →
        Ended s ∨ s.state = .hung ∧ 255 < u.width := by
  have hinvariant (labels : List World.Label) :
      Reached u (Runs.run World.step (Completion.session u) labels) :=
    Runs.run_invariant (Reached u) (fun _ label h _ => h.step label)
      (reached_session hpositive) Runs.along_true
  have hreached := hinvariant labels
  have hlast := hinvariant (labels ++ silence)
  rw [Runs.run_append] at hlast
  generalize hworld : Runs.run World.step (Completion.session u) labels = w at hreached hlast
  dsimp only
  rw [Runs.run_append, hworld]
  refine ⟨fun hlong => ?_, fun index s hs hlong => ?_⟩
  · rw [client_run hsilent]
    refine client_ends hreached.bound.patient quiet_clientTurns (Nat.le_trans ?_ hlong)
    have := hreached.file
    simp only [endurance]
    omega
  · have hturning := hlast.children s (List.mem_of_getElem? hs)
    rw [child_run hsilent] at hs
    obtain ⟨before, hbefore, rfl⟩ := Option.map_eq_some_iff.mp hs
    have hbefore := hreached.children before (List.mem_of_getElem? hbefore)
    rcases child_still hbefore.counting quiet_childTurns hlong with hended | hhung
    · exact .inl hended
    · exact .inr ⟨hhung, hturning.hung hhung⟩

instance : DecidablePred Silent
  | .client _ => inferInstanceAs (Decidable (_ ∨ _))
  | .child _ _ => inferInstanceAs (Decidable (_ ∨ _))
  | .main _ => inferInstanceAs (Decidable (_ ∨ _))

def cutOff : List World.Label :=
  List.replicate 15 (.child 0 .quiet) ++ List.replicate 71 (.client .quiet)

theorem silence_ends_cutOff :
    let w := Runs.run World.step (Completion.session Completion.letter)
      (Completion.handshake ++ cutOff)
    Over w.client ∧ ∀ s, w.children[0]? = some s → Ended s := by
  have h := @silence_ends Completion.letter (Nat.le_refl 1) Completion.handshake cutOff (by decide)
  refine ⟨h.1 (by decide), fun s hs => (h.2 0 s hs (by decide)).resolve_right ?_⟩
  exact fun hhung => absurd hhung.2 (by decide)

end SlidingWindow.Quiescence

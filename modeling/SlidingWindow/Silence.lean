import SlidingWindow.ClientTurns
import SlidingWindow.Library.Runs

/-! The client when nothing arrives any more. The three waits share one timeout counter,
and a wait in vain either sends something again or gives up. -/
namespace SlidingWindow.Silence

open Library

variable {c c' : Client} {input : Input}

def Quiet (input : Input) : Prop := ∀ src datagram, input ≠ .datagram src datagram

/-- `sendtoErr` returns from this turn, a resend included. -/
def Returns (c : Client) (input : Input) : Prop :=
  c.enterStateMachine input ≠ .error .emptySend

def GaveUp (c : Client) : Prop :=
  c.state = .timeoutOnSetupServer ∨ c.state = .timeoutOnServer ∨ c.state = .done ∨
    c.state = .exited

/-- What every state of the client has in common: past the setup it has its ring, and it
counts to ten. -/
structure Patient (c : Client) : Prop where
  positive : 0 < c.winSize
  ring : c.inSetup ∨ c.Ring ∨ c.state = .done ∨ c.state = .exited
  timeout : c.timeout ≤ 10 ∨ GaveUp c

theorem Patient.timeout_le (h : Patient c) (hwaits : ¬ GaveUp c) : c.timeout ≤ 10 :=
  h.timeout.resolve_right hwaits

theorem u32_timeout (h : c.timeout ≤ 10) : u32 (c.timeout + 1) = c.timeout + 1 :=
  u32_of_lt (by omega)

theorem answered_kept (c : Client) (flag : Option Flag) :
    (c.answered flag).winSize = c.winSize ∧ (c.answered flag).timeout = c.timeout ∧
      (c.state = .waitForSetupAcks → (c.answered flag).inSetup ∨
        (c.answered flag).state = .done) := by
  unfold Client.answered
  split <;> simp_all [Client.inSetup]

theorem patient_setupTurn (h : Patient c) (hturn : Client.SetupTurn c input c') :
    Patient c' := by
  cases hturn with
  | allocated =>
      exact ⟨h.positive, .inr (.inl ⟨h.positive, List.length_replicate ..⟩), .inl (by simp
        [Client.readyToSendDataSetup])⟩
  | answered state accepted =>
      rename_i src datagram received
      obtain ⟨hsize, htimeout, hsetup⟩ :=
        answered_kept { c with timeout := 0, server := src } received.flag
      refine ⟨by rw [hsize]; exact h.positive, ?_, .inl (by rw [htimeout]; exact Nat.zero_le _)⟩
      rcases hsetup state with hsetup | hdone
      · exact .inl hsetup
      · exact .inr (.inr (.inl hdone))
  | unanswered state =>
      have hle := h.timeout_le (by simp [GaveUp, state])
      refine ⟨h.positive, .inl ?_, ?_⟩
      · simp only [Client.inSetup, Client.unansweredState]
        grind
      · simp only [GaveUp, Client.unansweredState, u32_timeout hle]
        grind
  | gaveUp => exact ⟨h.positive, .inr (.inr (.inl rfl)), .inr (by simp [GaveUp])⟩
  | crashed => exact ⟨h.positive, .inr (.inr (.inr rfl)), .inr (by simp [GaveUp])⟩
  | started state | fileName state | bufferSize state | windowSize state =>
      have hle := h.timeout_le (by simp [GaveUp, state])
      refine ⟨h.positive, .inl ?_, .inl hle⟩
      simp [Client.inSetup, Client.sendRemoteFileName, Client.sendBufferSize,
        Client.sendWindowSize, Client.sendSetup]
  | corrupted state =>
      exact ⟨h.positive, .inl (by simp [Client.inSetup, state]), .inl (Nat.zero_le _)⟩

theorem Patient.resending_cases (h : Patient c) {before : Client} {index : Nat}
    (hsource : c.resending? input = some (before, index)) :
    before = c ∧ c.state = .sendDataSREJ ∨
      c.timeout + 1 ≤ 10 ∧ before = { c with timeout := c.timeout + 1 } ∧
        c.state = .receiveDataWindowClosed := by
  unfold Client.resending? at hsource
  have hcounted : c.state = .receiveDataWindowClosed → u32 (c.timeout + 1) = c.timeout + 1 :=
    fun hstate => u32_timeout (h.timeout_le (by simp [GaveUp, hstate]))
  grind

theorem patient_turn (h : Patient c) (hring : c.Ring) (hturn : Client.Turn c input c') :
    Patient c' := by
  have hring' := hturn.ring hring
  refine ⟨hring'.positive, .inr (.inl hring'), ?_⟩
  cases hturn with
  | halted => exact h.timeout
  | gaveUp | readFailed | emptySlot | expired | crashed | ended => exact .inr (by simp [GaveUp])
  | fileEnded state | polled state | sent state =>
      have hle := h.timeout_le (by simp [GaveUp, state])
      exact .inl hle
  | resent source =>
      rename_i before index slot _ _
      have hbound : before.timeout ≤ 10 := by
        rcases h.resending_cases source with ⟨rfl, hstate⟩ | ⟨hle, rfl, -⟩
        · exact h.timeout_le (by simp [GaveUp, hstate])
        · exact hle
      exact .inl hbound
  | eofUnanswered state =>
      have hle := h.timeout_le (by simp [GaveUp, state])
      simp only [GaveUp, u32_timeout hle]
      grind
  | corrupted listens | acknowledged listens | rejected listens =>
      obtain ⟨seqNum, trace, rfl⟩ := Client.listening?_frame listens
      exact .inl (Nat.zero_le _)

theorem Patient.turns (h : Patient c) (input : Input) :
    (c.inSetup ∧ Client.SetupTurn c input (c.step input)) ∨
      (c.Ring ∧ Client.Turn c input (c.step input)) ∨
      (c.step input = c ∧ (c.state = .done ∨ c.state = .exited)) := by
  rcases c.inSetup_or_inTransfer with hsetup | htransfer
  · exact .inl ⟨hsetup, Client.setupTurn hsetup input⟩
  · rcases h.ring with hsetup | hring | hhalted
    · exact .inl ⟨hsetup, Client.setupTurn hsetup input⟩
    · exact .inr (.inl ⟨hring, Client.turn htransfer hring input⟩)
    · exact .inr (.inr ⟨Client.step_halted hhalted input, hhalted⟩)

theorem Patient.step (h : Patient c) (input : Input) : Patient (c.step input) := by
  rcases h.turns input with ⟨-, hturn⟩ | ⟨hring, hturn⟩ | ⟨hsame, -⟩
  · exact patient_setupTurn h hturn
  · exact patient_turn h hring hturn
  · rwa [hsame]

def round (c : Client) : Nat := 2 * c.localFile.length + 4

def rank (c : Client) : Nat :=
  match c.state with
  | .start => 2
  | .sendRemoteFileName => 1
  | .sendBufferSize => 1
  | .sendWindowSize => 1
  | .sendData => 2 * c.localFile.length + 1
  | .receiveDataWindowOpen => 2 * c.localFile.length + 2
  | .sendDataSREJ => 2 * c.localFile.length + 3
  | _ => 0

/-- How many turns without a datagram the client goes on for. -/
def patience (c : Client) : Nat :=
  match c.state with
  | .done => 0
  | .exited => 0
  | .timeoutOnSetupServer => 1
  | .timeoutOnServer => 1
  | .readyToSendDataSetup => 11 * round c + 2 * c.localFile.length + 2
  | _ => (11 - c.timeout) * round c + rank c

theorem countdown {timeout round rest : Nat} (hle : timeout ≤ 10) (hlt : rest < round) :
    (10 - timeout) * round + rest < (11 - timeout) * round := by
  have hsucc : 11 - timeout = 10 - timeout + 1 := by omega
  rw [hsucc, Nat.add_mul]
  omega

theorem patience_sent
    (hstate : c.state = .receiveDataWindowOpen ∨ c.state = .receiveDataWindowClosed) :
    patience c ≤ (11 - c.timeout) * round c + (2 * c.localFile.length + 2) := by
  rcases hstate with h | h <;> simp [patience, rank, h]

theorem unansweredState_cases (c : Client) :
    c.unansweredState = .timeoutOnSetupServer ∨ c.unansweredState = .sendRemoteFileName ∨
      c.unansweredState = .sendBufferSize ∨ c.unansweredState = .sendWindowSize := by
  unfold Client.unansweredState
  split <;> (try split) <;> (try split) <;> simp

theorem patience_setupTurn (h : Patient c) (hquiet : Quiet input)
    (hturn : Client.SetupTurn c input c') : patience c' < patience c := by
  cases hturn with
  | started state => simp [patience, rank, round, state]
  | fileName state =>
      simp [patience, rank, round, state, Client.sendRemoteFileName, Client.sendSetup,
        Client.send]
  | bufferSize state =>
      simp [patience, rank, round, state, Client.sendBufferSize, Client.sendSetup, Client.send]
  | windowSize state =>
      simp [patience, rank, round, state, Client.sendWindowSize, Client.sendSetup, Client.send]
  | allocated state => simp [patience, rank, round, state, Client.readyToSendDataSetup]; omega
  | gaveUp state => simp [patience, state]
  | unanswered state =>
      have hle := h.timeout_le (by simp [GaveUp, state])
      have hspent := @countdown c.timeout (2 * c.localFile.length + 4) 1 hle (by omega)
      rcases unansweredState_cases c with h | h | h | h <;>
        simp [patience, rank, round, state, h, u32_timeout hle] <;> omega
  | crashed | corrupted | answered => exact absurd rfl (hquiet _ _)

theorem not_returns_of_empty (hring : c.Ring) {before : Client} {index : Nat}
    {slot : BufferChunk} (hsource : c.resending? input = some (before, index))
    (hquiet : Quiet input) (hheld : c.window[index % c.winSize]? = some slot)
    (hempty : slot.len = 0) : ¬ Returns c input := by
  intro hreturns
  apply hreturns
  rcases Client.resending?_eq_some hsource with ⟨rfl, rfl, hstate⟩ | ⟨rfl, rfl, hstate, -⟩
  · simp only [Client.enterStateMachine, hstate]
    rw [hring.sendDataFromWindow hheld, if_pos hempty]
  · have hstep : c.enterStateMachine input =
        { c with timeout := u32 (c.timeout + 1) }.sendDataFromWindow c.winMin := by
      simp only [Client.enterStateMachine, hstate, Client.receiveDataWindowClosed]
      unfold Client.resending? at hsource
      cases input with
      | datagram => exact absurd rfl (hquiet _ _)
      | silent => grind
      | failure => grind
    have hring' : Client.Ring { c with timeout := u32 (c.timeout + 1) } :=
      ⟨hring.positive, hring.length⟩
    rw [hstep, hring'.sendDataFromWindow hheld, if_pos hempty]

theorem patience_turn (h : Patient c) (hring : c.Ring) (hquiet : Quiet input)
    (hreturns : Returns c input) (hrunning : c.state ≠ .done ∧ c.state ≠ .exited)
    (hturn : Client.Turn c input c') : patience c' < patience c := by
  cases hturn with
  | halted state => exact absurd state (by simp [hrunning])
  | gaveUp state => simp [patience, state]
  | readFailed state =>
      simp only [patience, rank, state]
      omega
  | fileEnded state => simp [patience, rank, round, state]
  | sent state chunk rest file =>
      have hround : (11 - c.timeout) * (2 * rest.length + 4) ≤
          (11 - c.timeout) * (2 * (rest.length + 1) + 4) := Nat.mul_le_mul_left _ (by omega)
      refine Nat.lt_of_le_of_lt (patience_sent (Client.sentChunk_state c chunk rest)) ?_
      change (11 - c.timeout) * (2 * rest.length + 4) + (2 * rest.length + 2) < _
      simp only [patience, rank, round, state, file, List.length_cons]
      omega
  | resent source =>
      rename_i before index slot _ _
      refine Nat.lt_of_le_of_lt (patience_sent (Client.resent_state before slot)) ?_
      rcases h.resending_cases source with ⟨rfl, hstate⟩ | ⟨hle, rfl, hstate⟩
      · change (11 - before.timeout) * (2 * before.localFile.length + 4) +
          (2 * before.localFile.length + 2) < _
        simp only [patience, rank, round, hstate]
        omega
      · have hspent := @countdown c.timeout (2 * c.localFile.length + 4)
          (2 * c.localFile.length + 2) (by omega) (by omega)
        change (10 + 1 - (c.timeout + 1)) * (2 * c.localFile.length + 4) +
          (2 * c.localFile.length + 2) < _
        rw [Nat.add_sub_add_right]
        simp only [patience, rank, round, hstate]
        omega
  | emptySlot source held empty =>
      exact absurd hreturns (not_returns_of_empty hring source hquiet held empty)
  | expired state =>
      have hle := h.timeout_le (by simp [GaveUp, state])
      have hspent := @countdown c.timeout (2 * c.localFile.length + 4) 1 hle (by omega)
      simp only [patience, rank, round, state]
      omega
  | polled state =>
      by_cases hopen : c.winCur < c.winMax <;> simp [patience, rank, round, state, hopen]
  | eofUnanswered state =>
      have hle := h.timeout_le (by simp [GaveUp, state])
      have hspent := @countdown c.timeout (2 * c.localFile.length + 4) 1 hle (by omega)
      by_cases hlate : 10 < c.timeout + 1
      · simp [patience, rank, round, state, u32_timeout hle, hlate]
        omega
      · simp [patience, rank, round, state, u32_timeout hle, hlate, Client.sentEof,
          Client.send]
        omega
  | crashed | corrupted | acknowledged | rejected | ended => exact absurd rfl (hquiet _ _)

theorem running_step (h : Patient c) (hquiet : Quiet input) (hreturns : Returns c input)
    (hrunning : c.state ≠ .exited) : (c.step input).state ≠ .exited := by
  rcases h.turns input with ⟨-, hturn⟩ | ⟨hring, hturn⟩ | ⟨hsame, -⟩
  · generalize c.step input = c' at hturn
    cases hturn with
    | unanswered =>
        rcases unansweredState_cases c with h | h | h | h <;> simp [h]
    | crashed | corrupted | answered => exact absurd rfl (hquiet _ _)
    | _ => simp [Client.sendRemoteFileName, Client.sendBufferSize, Client.sendWindowSize,
        Client.sendSetup, Client.readyToSendDataSetup]
  · generalize c.step input = c' at hturn
    cases hturn with
    | halted => exact hrunning
    | emptySlot source held empty =>
        exact absurd hreturns (not_returns_of_empty hring source hquiet held empty)
    | sent _ chunk rest =>
        rcases Client.sentChunk_state c chunk rest with h | h <;> simp [h]
    | resent =>
        rename_i before index slot _ _ _
        rcases Client.resent_state before slot with h | h <;> simp [h]
    | polled => dsimp only; split <;> simp
    | eofUnanswered => dsimp only; split <;> simp
    | crashed | corrupted | acknowledged | rejected | ended => exact absurd rfl (hquiet _ _)
    | _ => simp
  · rwa [hsame]

theorem patience_step (h : Patient c) (hquiet : Quiet input) (hreturns : Returns c input)
    (hrunning : c.state ≠ .done ∧ c.state ≠ .exited) :
    patience (c.step input) < patience c := by
  rcases h.turns input with ⟨-, hturn⟩ | ⟨hring, hturn⟩ | ⟨-, hhalted⟩
  · exact patience_setupTurn h hquiet hturn
  · exact patience_turn h hring hquiet hreturns hrunning hturn
  · exact absurd hhalted (by simp [hrunning])

theorem done_of_patience (h : Patient c) (hrunning : c.state ≠ .exited)
    (hzero : patience c = 0) : c.state = .done := by
  unfold patience rank round at hzero
  rcases h.timeout with hle | hgaveUp
  · have hspent := @countdown c.timeout (2 * c.localFile.length + 4) 0 hle (by omega)
    cases hstate : c.state <;> simp only [hstate] at hzero hrunning ⊢ <;>
      first | omega | contradiction
  · unfold GaveUp at hgaveUp
    rcases hgaveUp with hstate | hstate | hstate | hstate <;> simp_all

def Resets (c : Client) : Input → Prop
  | .datagram _ _ => c.state = .waitForSetupAcks ∨ c.listening? ≠ none ∨
      c.state = .readyToSendDataSetup
  | _ => c.state = .readyToSendDataSetup

/-- The turn ends a wait in vain with `timeout <= 10`, the branch that has a packet sent
again. -/
def Retransmits (c : Client) : Input → Prop
  | .datagram _ _ => False
  | _ => (c.state = .waitForSetupAcks ∨ c.state = .receiveDataWindowClosed ∨
      c.state = .sendEofAndQuit) ∧ u32 (c.timeout + 1) ≤ 10

instance (c : Client) : DecidablePred (Resets c)
  | .datagram _ _ => inferInstanceAs (Decidable (_ ∨ _))
  | .silent => inferInstanceAs (Decidable (_ = _))
  | .failure => inferInstanceAs (Decidable (_ = _))

instance (c : Client) : DecidablePred (Retransmits c)
  | .datagram _ _ => .isFalse id
  | .silent => inferInstanceAs (Decidable (_ ∧ _))
  | .failure => inferInstanceAs (Decidable (_ ∧ _))

def counted (state : Client × Nat) (input : Input) : Client × Nat :=
  (state.1.step input,
    if Resets state.1 input then 0
    else if Retransmits state.1 input then state.2 + 1
    else state.2)

def retransmissions (c : Client) (inputs : List Input) : Nat :=
  (Runs.run counted (c, 0) inputs).2

theorem Retransmits.spelled (h : Retransmits c input) : Quiet input ∧
    (c.state = .waitForSetupAcks ∨ c.state = .receiveDataWindowClosed ∨
      c.state = .sendEofAndQuit) ∧ u32 (c.timeout + 1) ≤ 10 := by
  cases input with
  | datagram => exact h.elim
  | silent => exact ⟨by simp [Quiet], h⟩
  | failure => exact ⟨by simp [Quiet], h⟩

theorem retransmits_counted (h : Patient c) (hretransmits : Retransmits c input) :
    c.timeout + 1 ≤ 10 ∧
      (c.timeout + 1 ≤ (c.step input).timeout ∨ (c.step input).state = .exited) := by
  obtain ⟨hquiet, hstate, hle⟩ := hretransmits.spelled
  have hsucc := u32_timeout (h.timeout_le (by unfold GaveUp; grind))
  refine ⟨hsucc ▸ hle, ?_⟩
  rcases h.turns input with ⟨-, hturn⟩ | ⟨hring, hturn⟩ | ⟨hsame, hhalted⟩
  · generalize c.step input = c' at hturn
    cases hturn with
    | unanswered => exact .inl (Nat.le_of_eq hsucc.symm)
    | crashed => exact .inr rfl
    | corrupted | answered => exact absurd rfl (hquiet _ _)
    | _ => grind
  · generalize c.step input = c' at hturn
    cases hturn with
    | resent source =>
        rcases h.resending_cases source with ⟨-, hsrej⟩ | ⟨-, rfl, -⟩
        · grind
        · exact .inl (Nat.le_refl _)
    | emptySlot | crashed => exact .inr rfl
    | expired | eofUnanswered => exact .inl (Nat.le_of_eq hsucc.symm)
    | corrupted | acknowledged | rejected | ended => exact absurd rfl (hquiet _ _)
    | halted | gaveUp | readFailed | fileEnded | sent | polled => grind
  · grind

theorem resending?_sendEofAndQuit (hstate : c.state = .sendEofAndQuit) :
    c.resending? input = none := by
  cases input <;> simp [Client.resending?, hstate]

theorem trace_sendEofAndQuit (h : Patient c) (hstate : c.state = .sendEofAndQuit)
    (input : Input) : (c.step input).trace =
      c.trace ++ [.sent c.server (plainDatagram [] .endOfFile c.seqNum)] := by
  have hlistens : c.listening? = some c.sentEof := by simp [Client.listening?, hstate]
  rcases h.turns input with ⟨hsetup, -⟩ | ⟨-, hturn⟩ | ⟨-, hhalted⟩
  · simp [Client.inSetup, hstate] at hsetup
  · generalize c.step input = c' at hturn
    cases hturn with
    | eofUnanswered => rfl
    | crashed listens | corrupted listens | acknowledged listens | rejected listens
    | ended listens =>
        cases hlistens.symm.trans listens
        rfl
    | resent source | emptySlot source => simp [resending?_sendEofAndQuit hstate] at source
    | _ => grind
  · simp [hstate] at hhalted

theorem trace_sendSetup (hstate : c.state = .sendRemoteFileName ∨ c.state = .sendBufferSize ∨
    c.state = .sendWindowSize) (input : Input) :
    ∃ datagram, (c.step input).trace = c.trace ++ [.sent c.server datagram] := by
  have hsends {flag : Flag} {data : Bytes}
      (h : c.enterStateMachine input = .ok (c.sendSetup flag data)) :
      ∃ datagram, (c.step input).trace = c.trace ++ [.sent c.server datagram] :=
    ⟨_, congrArg Client.trace (Client.step_of_ok h)⟩
  rcases hstate with hstate | hstate | hstate
  · exact hsends (by simp only [Client.enterStateMachine, hstate]; rfl)
  · exact hsends (by simp only [Client.enterStateMachine, hstate]; rfl)
  · exact hsends (by simp only [Client.enterStateMachine, hstate]; rfl)

/-- Each turn that is counted has one datagram sent: the closed window sends it at once, and
the two other waits leave it to the turn that follows, which sends nothing else. -/
theorem retransmits_sends (h : Patient c) (hretransmits : Retransmits c input)
    (hreturns : Returns c input) :
    (c.state = .receiveDataWindowClosed ∧
      ∃ datagram, (c.step input).trace = c.trace ++ [.sent c.server datagram]) ∨
    (c.state ≠ .receiveDataWindowClosed ∧ ∀ next, ∃ datagram,
      ((c.step input).step next).trace =
        (c.step input).trace ++ [.sent (c.step input).server datagram]) := by
  obtain ⟨hquiet, hstate, hle⟩ := hretransmits.spelled
  rcases hstate with hsetup | hclosed | heof
  · refine .inr ⟨by simp [hsetup], trace_sendSetup ?_⟩
    have hin : c.inSetup := by simp [Client.inSetup, hsetup]
    have hturn := Client.setupTurn hin input
    generalize c.step input = c' at hturn
    cases hturn with
    | unanswered =>
        simp only [Client.unansweredState]
        grind
    | crashed | corrupted | answered => exact absurd rfl (hquiet _ _)
    | _ => grind
  · refine .inl ⟨hclosed, ?_⟩
    rcases h.turns input with ⟨hin, -⟩ | ⟨hring, hturn⟩ | ⟨-, hhalted⟩
    · simp [Client.inSetup, hclosed] at hin
    · generalize c.step input = c' at hturn
      cases hturn with
      | resent source =>
          obtain ⟨timeout, rfl⟩ := Client.resending?_frame source
          exact ⟨_, rfl⟩
      | emptySlot source held empty =>
          exact absurd hreturns (not_returns_of_empty hring source hquiet held empty)
      | crashed | corrupted | acknowledged | rejected | ended => exact absurd rfl (hquiet _ _)
      | _ => grind
    · simp [hclosed] at hhalted
  · refine .inr ⟨by simp [heof], fun next => ⟨_, trace_sendEofAndQuit (h.step input) ?_ next⟩⟩
    rcases h.turns input with ⟨hin, -⟩ | ⟨-, hturn⟩ | ⟨-, hhalted⟩
    · simp [Client.inSetup, heof] at hin
    · generalize c.step input = c' at hturn
      cases hturn with
      | eofUnanswered => exact if_neg (Nat.not_lt.mpr hle)
      | crashed | corrupted | acknowledged | rejected | ended => exact absurd rfl (hquiet _ _)
      | resent source | emptySlot source => simp [resending?_sendEofAndQuit heof] at source
      | _ => grind
    · simp [heof] at hhalted

theorem timeout_le_step (h : Patient c) (hkept : ¬ Resets c input) :
    c.timeout ≤ (c.step input).timeout := by
  have hsucc : c.timeout ≤ u32 (c.timeout + 1) ∨ GaveUp c := by
    rcases h.timeout with hle | hgaveUp
    · exact .inl (by rw [u32_timeout hle]; omega)
    · exact .inr hgaveUp
  unfold GaveUp at hsucc
  rcases h.turns input with ⟨-, hturn⟩ | ⟨hring, hturn⟩ | ⟨hsame, hhalted⟩
  · generalize c.step input = c' at hturn
    cases hturn with
    | unanswered => grind
    | allocated state => exact absurd state (by cases input <;> simp_all [Resets])
    | corrupted state | answered state => exact absurd (.inl state) hkept
    | _ => exact Nat.le_refl _
  · generalize c.step input = c' at hturn
    cases hturn with
    | resent source =>
        rcases Client.resending?_eq_some source with ⟨rfl, -⟩ | ⟨rfl, -, hstate, -⟩
        · exact Nat.le_refl _
        · change c.timeout ≤ u32 (c.timeout + 1)
          simpa [hstate] using hsucc
    | expired | eofUnanswered => grind
    | crashed listens | corrupted listens | acknowledged listens | rejected listens
    | ended listens => exact absurd (.inr (.inl (by simp [listens]))) hkept
    | _ => exact Nat.le_refl _
  · exact Nat.le_of_eq (congrArg Client.timeout hsame.symm)

/-- Since the last reset no more packets were sent again than timeouts were counted. -/
def Bounded (state : Client × Nat) : Prop :=
  Patient state.1 ∧ state.2 ≤ 10 ∧ (state.2 ≤ state.1.timeout ∨ state.1.state = .exited)

theorem bounded_step (state : Client × Nat) (input : Input) (h : Bounded state) :
    Bounded (counted state input) := by
  obtain ⟨c, count⟩ := state
  obtain ⟨hpatient, hle, htimeout⟩ := h
  refine ⟨hpatient.step input, ?_⟩
  dsimp only [counted] at hpatient hle htimeout ⊢
  by_cases hresets : Resets c input
  · rw [if_pos hresets]
    exact ⟨Nat.zero_le _, .inl (Nat.zero_le _)⟩
  · rw [if_neg hresets]
    by_cases hretransmits : Retransmits c input
    · rw [if_pos hretransmits]
      obtain ⟨hlast, hcounted⟩ := retransmits_counted hpatient hretransmits
      rcases htimeout with htimeout | hexited
      · exact ⟨by omega, hcounted.imp_left (Nat.le_trans (Nat.succ_le_succ htimeout))⟩
      · cases input <;> simp_all [Retransmits]
    · rw [if_neg hretransmits]
      refine ⟨hle, ?_⟩
      rcases htimeout with htimeout | hexited
      · exact .inl (Nat.le_trans htimeout (timeout_le_step hpatient hresets))
      · exact .inr ((Client.step_halted (.inr hexited) input).symm ▸ hexited)

/-- When nothing arrives any more, a client whose resends return ends in as many turns as
its patience has left, and from one reset of its counter to the next it sends no more than
ten packets again. -/
theorem gives_up (localFile : List Bytes) (name : Bytes) (bufSize : Nat) {winSize : Nat}
    (hpositive : 1 ≤ winSize) (history rest : List Input)
    (hrunning : (Runs.run Client.step (Client.started localFile name bufSize winSize)
      history).state ≠ .exited)
    (hquiet : ∀ input ∈ rest, Quiet input)
    (hreturns : Runs.Along Client.step Returns
      (Runs.run Client.step (Client.started localFile name bufSize winSize) history) rest) :
    let start := Client.started localFile name bufSize winSize
    (patience (Runs.run Client.step start history) ≤ rest.length →
      (Runs.run Client.step start (history ++ rest)).state = .done) ∧
    retransmissions start (history ++ rest) ≤ 10 := by
  have hstart : Patient (Client.started localFile name bufSize winSize) :=
    ⟨hpositive, .inl (.inl rfl), .inl (Nat.zero_le _)⟩
  have hpatient : Patient (Runs.run Client.step
      (Client.started localFile name bufSize winSize) history) :=
    Runs.run_invariant Patient (fun _ input h _ => h.step input) hstart Runs.along_true
  refine ⟨fun hlong => ?_, ?_⟩
  · rw [Runs.run_append]
    have hsilent : Runs.Along Client.step (fun c input => Quiet input ∧ Returns c input)
        (Runs.run Client.step (Client.started localFile name bufSize winSize) history) rest := by
      rw [Runs.along_iff_split] at hreturns ⊢
      intro first input second hsplit
      exact ⟨hquiet input (by simp [hsplit]), hreturns first input second hsplit⟩
    refine Runs.run_final_of_measure (fun c => Patient c ∧ c.state ≠ .exited)
      (fun c => c.state = .done) patience ?_ ?_ ?_ ⟨hpatient, hrunning⟩ hsilent ?_ hlong
    · intro c input h hok
      exact ⟨h.1.step input, running_step h.1 hok.1 hok.2 h.2⟩
    · intro c input h hok hnotDone
      exact patience_step h.1 hok.1 hok.2 ⟨hnotDone, h.2⟩
    · intro c input hdone
      rw [Client.step_halted (.inl hdone), hdone]
    · intro c h hzero
      exact done_of_patience h.1 h.2 hzero
  · exact (Runs.run_invariant Bounded (fun state input h _ => bounded_step state input h)
      ⟨hstart, Nat.zero_le _, .inl (Nat.zero_le _)⟩ Runs.along_true).2.1

instance : DecidablePred Quiet
  | .datagram src datagram => .isFalse fun h => h src datagram rfl
  | .silent => .isTrue (by simp [Quiet])
  | .failure => .isTrue (by simp [Quiet])

instance (c : Client) : DecidablePred (Returns c) :=
  fun _ => inferInstanceAs (Decidable (¬ _ = _))

def unanswered : List Input :=
  [.silent, .silent, .datagram (.child 0) (plainDatagram [] .ackFileName 1),
    .silent, .datagram (.child 0) (plainDatagram [] .ackBufferSize 2),
    .silent, .datagram (.child 0) (plainDatagram [] .ackWindowSize 3),
    .silent, .silent]

theorem gives_up_unanswered :
    (Runs.run Client.step (Client.started [[65]] [102] 400 1)
        (unanswered ++ List.replicate 44 .silent)).state = .done ∧
      retransmissions (Client.started [[65]] [102] 400 1)
        (unanswered ++ List.replicate 44 .silent) ≤ 10 := by
  have h := gives_up [[65]] [102] 400 (Nat.le_refl 1) unanswered (List.replicate 44 .silent)
    (by decide +kernel) (by decide +kernel) (by decide +kernel)
  exact ⟨h.1 (by decide +kernel), h.2⟩

end SlidingWindow.Silence

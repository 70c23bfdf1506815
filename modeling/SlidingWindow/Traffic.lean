import SlidingWindow.Silence

/-! How much a client can send: one packet for each buffer of its file, and eleven more for
each datagram that it reads, besides the eleven that it begins with. -/
namespace SlidingWindow.Traffic

open Library Silence

variable {c c' : Client} {input : Input}

def hears (c : Client) : Input → Bool
  | .datagram _ _ => c.state = .waitForSetupAcks ∨ c.listening?.isSome
  | _ => false

def heard : Client → List Input → ℕ
  | _, [] => 0
  | c, input :: inputs => (hears c input).toNat + heard (c.step input) inputs

/-- What the client may still send if it reads nothing. -/
def allowance (c : Client) : ℕ :=
  match c.state with
  | .done => 0
  | .exited => 0
  | .timeoutOnSetupServer => 0
  | .timeoutOnServer => 0
  | .start => c.localFile.length + 11 - c.timeout
  | .sendRemoteFileName => c.localFile.length + 11 - c.timeout
  | .sendBufferSize => c.localFile.length + 11 - c.timeout
  | .sendWindowSize => c.localFile.length + 11 - c.timeout
  | .sendDataSREJ => c.localFile.length + 11 - c.timeout
  | .sendEofAndQuit => c.localFile.length + 11 - c.timeout
  | .readyToSendDataSetup => c.localFile.length + 10
  | .waitForSetupAcks => c.localFile.length + 10 - c.timeout
  | .sendData => c.localFile.length + 10 - c.timeout
  | .receiveDataWindowOpen => c.localFile.length + 10 - c.timeout
  | .receiveDataWindowClosed => c.localFile.length + 10 - c.timeout

/-- What a turn sends is taken from the allowance, and a datagram that it reads raises the
allowance by eleven at most. -/
def Spends (c : Client) (input : Input) (c' : Client) : Prop :=
  c'.trace.sends.length + allowance c' ≤
    c.trace.sends.length + allowance c + 11 * (hears c input).toNat

theorem allowance_le (c : Client) : allowance c ≤ c.localFile.length + 11 := by
  unfold allowance
  split <;> omega

theorem spends_nothing (htrace : c'.trace = c.trace) (hzero : allowance c' = 0) :
    Spends c input c' := by
  unfold Spends
  rw [htrace, hzero]
  omega

theorem spends_reading (hhears : hears c input = true) (hfile : c'.localFile = c.localFile)
    (hsends : c'.trace.sends.length + c.localFile.length ≤
      c.trace.sends.length + allowance c) : Spends c input c' := by
  have hle := allowance_le c'
  unfold Spends
  rw [hhears, Bool.toNat_true]
  rw [hfile] at hle
  omega

theorem spends_setupTurn (h : Patient c) (hturn : Client.SetupTurn c input c') :
    Spends c input c' := by
  cases hturn with
  | started state => simp [Spends, allowance, state]
  | fileName state | bufferSize state | windowSize state =>
      have hle := h.timeout_le (by simp [GaveUp, state])
      simp [Spends, allowance, state, Client.sendRemoteFileName, Client.sendBufferSize,
        Client.sendWindowSize, Client.sendSetup, Client.send]
      omega
  | allocated state => simp [Spends, allowance, state, Client.readyToSendDataSetup]
  | gaveUp | crashed => exact spends_nothing rfl rfl
  | unanswered state =>
      have hle := h.timeout_le (by simp [GaveUp, state])
      rcases unansweredState_cases c with hnext | hnext | hnext | hnext <;>
        simp only [Spends, allowance, state, hnext, u32_timeout hle] <;> omega
  | corrupted state =>
      have hle := h.timeout_le (by simp [GaveUp, state])
      refine spends_reading (by simp [hears, state]) rfl ?_
      simp only [allowance, state]
      omega
  | answered state =>
      rename_i src datagram received _
      have hle := h.timeout_le (by simp [GaveUp, state])
      have hkept : ∀ flag, (Client.answered { c with timeout := 0, server := src } flag).trace =
          c.trace ∧ (Client.answered { c with timeout := 0, server := src } flag).localFile =
          c.localFile := by
        intro flag
        unfold Client.answered
        split <;> exact ⟨rfl, rfl⟩
      refine spends_reading (by simp [hears, state]) (hkept _).2 ?_
      rw [(hkept _).1]
      simp only [allowance, state]
      omega

theorem listening_spends (h : Patient c) {before : Client}
    (hlistens : c.listening? = some before) :
    before.localFile = c.localFile ∧
      before.trace.sends.length + c.localFile.length ≤
        c.trace.sends.length + allowance c := by
  rcases Client.listening?_eq_some hlistens with ⟨rfl, hstate⟩ | ⟨rfl, hstate⟩
  · have hle := h.timeout_le (by rcases hstate with h | h <;> simp [GaveUp, h])
    refine ⟨rfl, ?_⟩
    rcases hstate with hstate | hstate <;> simp only [allowance, hstate] <;> omega
  · have hle := h.timeout_le (by simp [GaveUp, hstate])
    refine ⟨rfl, ?_⟩
    simp [allowance, hstate, Client.sentEof, Client.send]
    omega

theorem allowance_polling
    (hstate : c.state = .receiveDataWindowOpen ∨ c.state = .receiveDataWindowClosed) :
    allowance c = c.localFile.length + 10 - c.timeout := by
  rcases hstate with h | h <;> simp only [allowance, h]

theorem spends_turn (h : Patient c) (hturn : Client.Turn c input c') : Spends c input c' := by
  cases hturn with
  | halted => exact Nat.le_add_right _ _
  | gaveUp | readFailed | emptySlot | expired => exact spends_nothing rfl rfl
  | crashed listens =>
      obtain ⟨-, hsends⟩ := listening_spends h listens
      exact Nat.le_trans (Nat.le_trans (Nat.le_add_right _ _) hsends) (Nat.le_add_right _ _)
  | fileEnded state => simp [Spends, allowance, state]
  | sent state chunk rest file =>
      have hle := h.timeout_le (by simp [GaveUp, state])
      have hbefore : allowance c = c.localFile.length + 10 - c.timeout := by
        simp only [allowance, state]
      have hsends : (c.sentChunk chunk rest).trace.sends.length = c.trace.sends.length + 1 := by
        simp [Client.sentChunk, Client.send]
      unfold Spends
      rw [allowance_polling (Client.sentChunk_state c chunk rest), hbefore, hsends, file]
      change _ + (rest.length + 10 - c.timeout) ≤ _
      rw [List.length_cons]
      omega
  | resent source =>
      rename_i before index slot _ _
      have hsends : (before.resent slot).trace.sends.length = before.trace.sends.length + 1 := by
        simp [Client.resent, Client.send]
      unfold Spends
      rw [allowance_polling (Client.resent_state before slot), hsends]
      change _ + (before.localFile.length + 10 - before.timeout) ≤ _
      rcases h.resending_cases source with ⟨rfl, hstate⟩ | ⟨hle, rfl, hstate⟩
      · have hle := h.timeout_le (by simp [GaveUp, hstate])
        simp only [allowance, hstate]
        omega
      · simp only [allowance, hstate]
        omega
  | polled state =>
      have hsame (next : ClientState) (hnext : next = .sendData ∨
          next = .receiveDataWindowClosed) :
          allowance { c with state := next } = allowance c := by
        rcases hnext with rfl | rfl <;> simp only [allowance, state]
      refine Nat.le_trans (Nat.le_of_eq ?_) (Nat.le_add_right _ _)
      rw [hsame _ (by split <;> simp)]
  | eofUnanswered state =>
      have hle := h.timeout_le (by simp [GaveUp, state])
      by_cases hlate : 10 < c.timeout + 1
      · simp [Spends, allowance, state, u32_timeout hle, hlate, Client.sentEof, Client.send]
        omega
      · simp [Spends, allowance, state, u32_timeout hle, hlate, Client.sentEof, Client.send]
        omega
  | corrupted listens | acknowledged listens | rejected listens | ended listens =>
      obtain ⟨hfile, hsends⟩ := listening_spends h listens
      exact spends_reading (by simp [hears, listens]) hfile hsends

theorem spends_step (h : Patient c) (input : Input) : Spends c input (c.step input) := by
  rcases h.turns input with ⟨-, hturn⟩ | ⟨-, hturn⟩ | ⟨hsame, -⟩
  · exact spends_setupTurn h hturn
  · exact spends_turn h hturn
  · rw [hsame]
    exact Nat.le_add_right _ _

theorem spends_run (h : Patient c) (inputs : List Input) :
    (Runs.run Client.step c inputs).trace.sends.length +
        allowance (Runs.run Client.step c inputs) ≤
      c.trace.sends.length + allowance c + 11 * heard c inputs := by
  induction inputs generalizing c with
  | nil => exact Nat.le_refl _
  | cons input inputs ih =>
      have hstep := spends_step h input
      have hrest := ih (h.step input)
      unfold Spends at hstep
      rw [Runs.run_cons, heard]
      omega

/-- Whatever arrives, and whether it makes sense or not: the client sends a packet for each
buffer of its file, and no more than eleven others for each datagram that it reads, besides
the first eleven. -/
theorem sends_bounded (localFile : List Bytes) (name : Bytes) (bufSize : ℕ) {winSize : ℕ}
    (hpositive : 1 ≤ winSize) (inputs : List Input) :
    let start := Client.started localFile name bufSize winSize
    (Runs.run Client.step start inputs).trace.sends.length ≤
      localFile.length + 11 * (heard start inputs + 1) := by
  have hstart : Patient (Client.started localFile name bufSize winSize) :=
    ⟨hpositive, .inl (.inl rfl), .inl (Nat.zero_le _)⟩
  have hrun := spends_run hstart inputs
  have hempty : (Client.started localFile name bufSize winSize).trace.sends.length = 0 := rfl
  have hallowance := allowance_le (Client.started localFile name bufSize winSize)
  change _ ≤ localFile.length + 11 at hallowance
  dsimp only
  omega

/-- Nobody answers: eleven file names leave. -/
theorem sends_bounded_unheard :
    (Runs.run Client.step (Client.started [[65]] [102] 400 1)
        (List.replicate 30 .silent)).trace.sends.length ≤
      1 + 11 * (heard (Client.started [[65]] [102] 400 1) (List.replicate 30 .silent) + 1) :=
  sends_bounded [[65]] [102] 400 (Nat.le_refl 1) (List.replicate 30 .silent)

end SlidingWindow.Traffic

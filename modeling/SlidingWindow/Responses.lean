import SlidingWindow.DataPhase

/-! What the server's `RR` and `SREJ` packets tell the client. Every response that
leaves is the last event of the datagram that caused it, so the state after that
datagram is the state it was sent in. -/
namespace SlidingWindow.Responses

open Library Library.SelectiveReject ServerWindow DataPhase

variable {width limit : ℕ} {s s' : Server}

/-- The server writes, and then sends at most one `RR` or `SREJ`; it sends an `RR`
only when its window is empty. -/
def Answers (s s' : Server) (response : Option Flag) : Prop :=
  Emits s s' response ∧ (response = some .rr → s'.arePacketsBuffered = false) ∧
    ∀ flag, response = some flag → flag = .rr ∨ flag = .srej

theorem Reaction.answers_later {number : ℕ} (h : Reaction s s' number) :
    ∃ response, Answers s s' response ∧
      (response = some .srej → s'.curRRnum = s.curRRnum ∧
        (s.curRRnum < number ∨ s.arePacketsBuffered = true)) := by
  cases h with
  | acknowledged _ emits _ empty => exact ⟨_, ⟨emits, fun _ => empty, by simp⟩, by simp⟩
  | gap _ emits _ _ => exact ⟨_, ⟨emits, by simp, by simp⟩, by simp⟩
  | rejected early same _ _ emits =>
      exact ⟨_, ⟨emits, by simp, by simp⟩, fun _ => ⟨same, .inl early⟩⟩
  | awaited _ _ _ _ emits => exact ⟨_, ⟨emits, by simp, by simp⟩, by simp⟩
  | repeated _ same _ buffered emits =>
      refine ⟨_, ⟨emits, ?_, ?_⟩, ?_⟩
      · intro hrr
        rw [buffered]
        cases hempty : s.arePacketsBuffered with
        | true => simp [hempty] at hrr
        | false => rfl
      · intro flag hflag
        cases hempty : s.arePacketsBuffered <;> simp [hempty] at hflag <;> simp [← hflag]
      · intro hsrej
        cases hempty : s.arePacketsBuffered with
        | true => exact ⟨same, .inr rfl⟩
        | false => simp [hempty] at hsrej

theorem Reaction.answers {number : ℕ} (h : Reaction s s' number) :
    ∃ response, Answers s s' response := by
  obtain ⟨response, hanswers, -⟩ := Reaction.answers_later h
  exact ⟨response, hanswers⟩

theorem Read.answers (h : Read s s') : Answers s s' none := by
  obtain ⟨_, _, _, heq⟩ := h
  exact ⟨⟨[], 0, by rw [heq]; simp⟩, by simp, by simp⟩

theorem Read.answers_of {middle : Server} {response : Option Flag} (h : Read s middle)
    (answers : Answers middle s' response) : Answers s s' response := by
  obtain ⟨_, _, _, heq⟩ := h
  have htrace : middle.trace = s.trace := by rw [heq]
  obtain ⟨⟨written, seqNum, hemits⟩, hrest⟩ := answers
  exact ⟨⟨written, seqNum, htrace ▸ hemits⟩, hrest⟩

theorem FeedOutcome.answers {receiver : Receiver width Bytes} {datagram : Datagram}
    (h : FeedOutcome width limit s s' receiver datagram) :
    ∃ response, Answers s s' response := by
  cases h with
  | dropped _ read _ => exact ⟨none, Read.answers read⟩
  | accepted _ _ _ _ middle read reaction =>
      obtain ⟨response, answers⟩ := Reaction.answers reaction
      exact ⟨response, Read.answers_of read answers⟩

section Answer

variable {response : Option Flag}

theorem response?_numbered {dst : Peer} {flag : Flag} {seqNum number : ℕ}
    (hflag : flag = .rr ∨ flag = .srej) (hnumber : number < 4294967296) :
    response? (.sent dst (numberedDatagram [] flag seqNum number)) = some (flag, number) := by
  rcases hflag with rfl | rfl <;> simp [response?, u32_of_lt hnumber]

theorem Answers.responses_eq (h : Answers s s' response) (hcur : s'.curRRnum < 4294967296) :
    responses s'.trace = responses s.trace ++ response.toList.map (·, s'.curRRnum) := by
  obtain ⟨⟨written, seqNum, htrace⟩, -, hflag⟩ := h
  have hwrites : (written.map Event.wrote).filterMap response? = [] := by
    simp [List.filterMap_eq_nil_iff, response?]
  rw [htrace]
  simp only [responses, List.filterMap_append, hwrites, List.append_nil]
  cases response with
  | none => rfl
  | some flag => simp [response?_numbered (hflag flag rfl) hcur]

theorem Answers.trace_eq (h : Answers s s' response) :
    ∃ added, s'.trace = s.trace ++ added := by
  obtain ⟨⟨written, seqNum, htrace⟩, -⟩ := h
  exact ⟨_, htrace.trans (List.append_assoc _ _ _)⟩

theorem Answers.response_at (h : Answers s s' response) (hcur : s'.curRRnum < 4294967296)
    {k : ℕ} {event : Event} {flag : Flag} {number : ℕ}
    (hevent : s'.trace[k]? = some event) (hresponse : response? event = some (flag, number)) :
    s.trace[k]? = some event ∨
      s'.trace = s'.trace.take (k + 1) ∧ response = some flag ∧ number = s'.curRRnum := by
  obtain ⟨⟨written, seqNum, htrace⟩, -, hflag⟩ := h
  by_cases hbefore : k < s.trace.length
  · rw [htrace, List.append_assoc, List.getElem?_append_left hbefore] at hevent
    exact .inl hevent
  · by_cases hwritten : k < (s.trace ++ written.map Event.wrote).length
    · rw [htrace, List.getElem?_append_left hwritten,
        List.getElem?_append_right (Nat.le_of_not_lt hbefore)] at hevent
      obtain ⟨data, _, rfl⟩ := List.mem_map.mp (List.mem_of_getElem? hevent)
      contradiction
    · rw [htrace, List.getElem?_append_right (Nat.le_of_not_lt hwritten)] at hevent
      cases response with
      | none => simp at hevent
      | some sent =>
          obtain ⟨hk, rfl⟩ := List.getElem?_eq_some_iff.mp hevent
          simp only [Option.toList_some, List.map_cons, List.map_nil, List.length_singleton,
            List.getElem_singleton, response?_numbered (hflag sent rfl) hcur,
            Option.some.injEq, Prod.mk.injEq] at hk hresponse
          refine .inr ⟨?_, by rw [hresponse.1], hresponse.2.symm⟩
          rw [List.take_of_length_le]
          rw [htrace]
          simp only [List.length_append, Option.toList_some, List.map_cons, List.map_nil,
            List.length_singleton] at hwritten hk ⊢
          omega

end Answer

/-- What is true when a response leaves: the packets before its number are written,
each from a packet received, its own packet is neither written nor buffered, and if
it is an `RR` nothing is buffered. -/
structure Justified (s : Server) (received : List (ℕ × Bytes)) (flag : Flag)
    (number : ℕ) : Prop where
  written : s.trace.writes.length + 1 = number
  each : ∀ i data, s.trace.writes[i]? = some data → (i + 1, data) ∈ received
  missing : ¬ Buffered s number
  drained : flag = .rr → ∀ n, ¬ Buffered s n

theorem Stable.justified {received : List (ℕ × Bytes)} {flag : Flag}
    (h : Stable width limit s (Receiver.start.acceptAll received))
    (hdrained : flag = .rr → s.arePacketsBuffered = false) :
    Justified s received flag s.curRRnum := by
  have hnext := h.next
  have hwrites := h.writes
  have hcount := (Receiver.start.acceptAll received : Receiver width Bytes).count
  have hevery : Receiver.Every (fun n item => (n, item) ∈ received)
      (Receiver.start.acceptAll received : Receiver width Bytes).toPending :=
    Receiver.Every.start.acceptAll fun item hitem => hitem
  refine ⟨by rw [hwrites, hnext, hcount], by rw [hwrites]; exact hevery.output, ?_, ?_⟩
  · rw [h.buffered_iff, hnext]
    exact Finmap.lookup_eq_none.mp (Receiver.lookup_next _)
  · intro hflag n hbuffered
    have := h.arePacketsBuffered_iff.mpr ⟨n, hbuffered⟩
    simp [hdrained hflag] at this

structure Ordered (s : Server) : Prop where
  sorted : ((responses s.trace).map Prod.snd).Pairwise (· ≤ ·)
  le : ∀ response ∈ responses s.trace, response.2 ≤ s.curRRnum

theorem Answers.ordered {response : Option Flag} (h : Answers s s' response)
    (hle : s.curRRnum ≤ s'.curRRnum) (hcur : s'.curRRnum < 4294967296)
    (ordered : Ordered s) : Ordered s' := by
  have heq := h.responses_eq hcur
  constructor
  · rw [heq, List.map_append, List.pairwise_append]
    refine ⟨ordered.sorted, by cases response <;> simp, ?_⟩
    intro before hbefore after hafter
    obtain ⟨sent, hsent, rfl⟩ := List.mem_map.mp hbefore
    have hafter : after = s'.curRRnum := by
      cases response with
      | none => simp at hafter
      | some flag => simpa using hafter
    exact hafter ▸ (ordered.le sent hsent).trans hle
  · intro sent hsent
    rw [heq, List.mem_append] at hsent
    rcases hsent with hbefore | hnow
    · exact (ordered.le sent hbefore).trans hle
    · obtain ⟨flag, -, rfl⟩ := List.mem_map.mp hnow
      exact Nat.le_refl _

structure Sound (first : Datagram) (s : Server) (arrivals : List (Peer × Datagram)) :
    Prop where
  ordered : ((responses (Runs.run feed (begun s) arrivals).trace).map Prod.snd).Pairwise
    (· ≤ ·)
  justified : ∀ (k : ℕ) (event : Event) (flag : Flag) (number : ℕ),
    (Runs.run feed (begun s) arrivals).trace[k]? = some event →
    response? event = some (flag, number) →
    ∃ earlier later, arrivals = earlier ++ later ∧
      (Runs.run feed (begun s) earlier).trace =
        (Runs.run feed (begun s) arrivals).trace.take (k + 1) ∧
      Justified (Runs.run feed (begun s) earlier) (items first earlier) flag number

theorem begun_ordered {first : Datagram} (hstart : StartsData width s first) :
    Ordered (begun s) := by
  obtain ⟨-, hstable, hreaction⟩ := hstart.begun_spec
  obtain ⟨response, hanswers⟩ := Reaction.answers hreaction
  have hquiet : responses (s.step .silent).trace = [] := by
    rw [hstart.ready]
    exact hstart.quiet
  have hle : (s.step .silent).curRRnum ≤ (begun s).curRRnum := by
    rw [hstart.stable.next, hstable.next]
    exact Receiver.le_next_accept
  exact hanswers.ordered hle hstable.curRRnum_lt ⟨by simp [hquiet], by simp [hquiet]⟩

theorem run_answers {first : Datagram} (hstart : StartsData width s first)
    {arrivals : List (Peer × Datagram)} {arrival : Peer × Datagram}
    (hfeed : ∀ other ∈ arrivals ++ [arrival], Feedable packetLimit other.2) :
    ∃ response,
      Answers (Runs.run feed (begun s) arrivals)
        (Runs.run feed (begun s) (arrivals ++ [arrival])) response ∧
      (Runs.run feed (begun s) arrivals).curRRnum ≤
        (Runs.run feed (begun s) (arrivals ++ [arrival])).curRRnum := by
  have hbefore : ∀ other ∈ arrivals, Feedable packetLimit other.2 :=
    fun other hother => hfeed other (by simp [hother])
  obtain ⟨hstate, hstable⟩ := run_stable hstart hbefore
  obtain ⟨-, houtcome⟩ :=
    feed_spec arrival.1 hstate hstable (hfeed arrival (by simp))
  obtain ⟨response, hanswers⟩ := FeedOutcome.answers houtcome
  rw [Runs.run_append]
  exact ⟨response, hanswers, houtcome.curRRnum_le hstable⟩

theorem run_ordered {first : Datagram} (hstart : StartsData width s first)
    {arrivals : List (Peer × Datagram)}
    (hfeed : ∀ arrival ∈ arrivals, Feedable packetLimit arrival.2) :
    Ordered (Runs.run feed (begun s) arrivals) := by
  induction arrivals using List.reverseRecOn with
  | nil => exact begun_ordered hstart
  | append_singleton arrivals arrival ih =>
      have hbefore : ∀ other ∈ arrivals, Feedable packetLimit other.2 :=
        fun other hother => hfeed other (by simp [hother])
      obtain ⟨-, hafter⟩ := run_stable hstart hfeed
      obtain ⟨response, hanswers, hle⟩ := run_answers hstart hfeed
      exact hanswers.ordered hle hafter.curRRnum_lt (ih hbefore)

/-- The server's acknowledgements never lie: along every run their numbers do not
decrease, and each is justified by the state it is sent in. -/
theorem responses_sound {first : Datagram} (hstart : StartsData width s first)
    (arrivals : List (Peer × Datagram))
    (hfeed : ∀ arrival ∈ arrivals, Feedable packetLimit arrival.2) :
    Sound first s arrivals := by
  refine ⟨(run_ordered hstart hfeed).sorted, ?_⟩
  induction arrivals using List.reverseRecOn with
  | nil =>
      intro k event flag number hevent hresponse
      obtain ⟨-, hstable, hreaction⟩ := hstart.begun_spec
      obtain ⟨response, hanswers⟩ := Reaction.answers hreaction
      rcases hanswers.response_at hstable.curRRnum_lt hevent hresponse with
        hbefore | ⟨htake, rfl, rfl⟩
      · -- the setup phase answers with other flags
        rw [hstart.ready] at hbefore
        have hmem : (flag, number) ∈ responses s.trace :=
          List.mem_filterMap.mpr ⟨event, List.mem_of_getElem? hbefore, hresponse⟩
        simp [hstart.quiet] at hmem
      · refine ⟨[], [], rfl, htake, ?_⟩
        exact Stable.justified hstable fun hrr => hanswers.2.1 (congrArg some hrr)
  | append_singleton arrivals arrival ih =>
      intro k event flag number hevent hresponse
      have hbefore : ∀ other ∈ arrivals, Feedable packetLimit other.2 :=
        fun other hother => hfeed other (by simp [hother])
      obtain ⟨-, hafter⟩ := run_stable hstart hfeed
      obtain ⟨response, hanswers, -⟩ := run_answers hstart hfeed
      rcases hanswers.response_at hafter.curRRnum_lt hevent hresponse with
        hold | ⟨htake, rfl, rfl⟩
      · obtain ⟨earlier, later, hsplit, htrace, hjustified⟩ :=
          ih hbefore k event flag number hold hresponse
        obtain ⟨added, hadded⟩ := hanswers.trace_eq
        refine ⟨earlier, later ++ [arrival], by simp [hsplit], ?_, hjustified⟩
        have hlen := (List.getElem?_eq_some_iff.mp hold).1
        rw [htrace, hadded, List.take_append_of_le_length (by omega)]
      · refine ⟨arrivals ++ [arrival], [], by simp, htake, ?_⟩
        exact Stable.justified hafter fun hrr => hanswers.2.1 (congrArg some hrr)

/-- Packet 2 and then packet 1, which is repeated. -/
theorem responses_sound_reordered :
    Sound (numberedDatagram [66] .data 1 2) (ready 2 (numberedDatagram [66] .data 1 2))
      [(.rcopy, numberedDatagram [65] .data 2 1), (.rcopy, numberedDatagram [65] .data 2 1)] := by
  apply responses_sound
  · apply startsData_ready <;> decide
  · intro arrival harrival
    simp only [List.mem_cons, List.not_mem_nil, or_false, or_self] at harrival
    rw [harrival]
    apply feedable_numberedDatagram <;> decide

end SlidingWindow.Responses

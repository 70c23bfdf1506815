import SlidingWindow.Responses

/-! How often the server says the same thing. It answers every packet that it has already
written, once each; apart from that no `RR` and no `SREJ` leaves a second time. -/
namespace SlidingWindow.Repetition

open Library Library.SelectiveReject ServerWindow DataPhase Responses

variable {width limit : ℕ} {s s' middle : Server} {sent : List (Flag × ℕ)}

def isOld (s : Server) (datagram : Datagram) : Bool :=
  match dataOf? datagram with
  | some (number, _) => number < s.curRRnum
  | none => false

def answersTo (s : Server) (arrival : Peer × Datagram) : List (Flag × ℕ) :=
  (responses (feed s arrival).trace).drop (responses s.trace).length

/-- The answers of a run, but for those to old packets. -/
def unprompted : Server → List (Peer × Datagram) → List (Flag × ℕ)
  | _, [] => []
  | s, arrival :: arrivals =>
      (if isOld s arrival.2 then [] else answersTo s arrival) ++
        unprompted (feed s arrival) arrivals

/-- The numbers go up; one number may be acknowledged first and then rejected. -/
def Earlier (before after : Flag × ℕ) : Prop :=
  before.2 < after.2 ∨ before.2 = after.2 ∧ before.1 = .rr ∧ after.1 = .srej

structure Noted (s : Server) (sent : List (Flag × ℕ)) : Prop where
  ordered : sent.Pairwise Earlier
  flags : ∀ answer ∈ sent, answer.1 = .rr ∨ answer.1 = .srej
  bound : ∀ answer ∈ sent, answer.2 ≤ s.curRRnum
  rejected : (.srej, s.curRRnum) ∈ sent → s.hasSREJ = true

theorem Noted.mono (h : Noted s sent) (hle : s.curRRnum ≤ s'.curRRnum)
    (hsrej : s'.curRRnum = s.curRRnum → s.hasSREJ = true → s'.hasSREJ = true) :
    Noted s' sent := by
  refine ⟨h.ordered, h.flags, fun answer hanswer => Nat.le_trans (h.bound answer hanswer) hle,
    fun hmem => ?_⟩
  have hbound := h.bound _ hmem
  have hsame : s'.curRRnum = s.curRRnum := Nat.le_antisymm hbound hle
  exact hsrej hsame (h.rejected (hsame ▸ hmem))

theorem Noted.concat (h : Noted s sent) {flag : Flag} (hflag : flag = .rr ∨ flag = .srej)
    (hearlier : ∀ answer ∈ sent, Earlier answer (flag, s.curRRnum))
    (hsrej : flag = .srej → s.hasSREJ = true) : Noted s (sent ++ [(flag, s.curRRnum)]) where
  ordered := List.pairwise_append.mpr
    ⟨h.ordered, List.pairwise_singleton _ _, by simpa using hearlier⟩
  flags answer hanswer := by
    rcases List.mem_append.mp hanswer with hold | hnew
    · exact h.flags answer hold
    · exact List.mem_singleton.mp hnew ▸ hflag
  bound answer hanswer := by
    rcases List.mem_append.mp hanswer with hold | hnew
    · exact h.bound answer hold
    · exact List.mem_singleton.mp hnew ▸ Nat.le_refl _
  rejected hmem := by
    rcases List.mem_append.mp hmem with hold | hnew
    · exact h.rejected hold
    · exact hsrej (Prod.mk.inj (List.mem_singleton.mp hnew)).1.symm

theorem Noted.reaction {receiver : Receiver width Bytes} {number : ℕ} {data : Bytes}
    (h : Noted s sent) (hstable : Stable width limit s receiver)
    (hstable' : Stable width limit s' (receiver.accept number data))
    (hreaction : Reaction s s' number) :
    ∃ response, Answers s s' response ∧
      (s.curRRnum ≤ number → Noted s' (sent ++ response.toList.map (·, s'.curRRnum))) ∧
      (number < s.curRRnum → Noted s' sent ∧ s'.curRRnum = s.curRRnum ∧
        response = some (if s.arePacketsBuffered then .srej else .rr)) := by
  have hgrows (hexpected : number = s.curRRnum) : s.curRRnum < s'.curRRnum := by
    rw [hexpected, hstable.next] at hstable'
    rw [hstable.next, hstable'.next]
    exact Receiver.lt_next_accept
  cases hreaction with
  | acknowledged hexpected emits hsrej empty =>
      have hlt := hgrows hexpected
      have hold := h.mono hlt.le fun hsame => absurd hsame (by omega)
      refine ⟨some .rr, ⟨emits, fun _ => empty, by simp⟩, fun _ => ?_, fun hless => ?_⟩
      · refine hold.concat (.inl rfl) (fun answer hanswer => .inl ?_) (by simp)
        exact Nat.lt_of_le_of_lt (h.bound answer hanswer) hlt
      · omega
  | gap hexpected emits hsrej buffered =>
      have hlt := hgrows hexpected
      refine ⟨none, ⟨emits, by simp, by simp⟩, fun _ => ?_, fun hless => ?_⟩
      · simpa using h.mono hlt.le fun hsame => absurd hsame (by omega)
      · omega
  | rejected early same fresh hsrej emits =>
      have hold := h.mono same.ge fun _ hset => by simp [fresh] at hset
      refine ⟨some .srej, ⟨emits, by simp, by simp⟩, fun _ => ?_, fun hless => ?_⟩
      · refine hold.concat (.inr rfl) (fun answer hanswer => ?_) fun _ => hsrej
        rcases Nat.lt_or_ge answer.2 s.curRRnum with hlt | hge
        · exact .inl (same ▸ hlt)
        · have hnumber : answer.2 = s.curRRnum := Nat.le_antisymm (h.bound answer hanswer) hge
          rcases h.flags answer hanswer with hrr | hrejected
          · exact .inr ⟨hnumber.trans same.symm, hrr, rfl⟩
          · have hset := h.rejected (by rwa [← hnumber, ← hrejected])
            simp [fresh] at hset
      · omega
  | awaited early same earlier hsrej emits =>
      refine ⟨none, ⟨emits, by simp, by simp⟩, fun _ => ?_, fun hless => ?_⟩
      · simpa using h.mono same.ge fun _ _ => hsrej
      · omega
  | repeated old same hsrej buffered emits =>
      refine ⟨_, ⟨emits, ?_, ?_⟩, fun hge => ?_, fun _ => ⟨?_, same, rfl⟩⟩
      · rw [buffered]
        cases s.arePacketsBuffered <;> simp
      · cases s.arePacketsBuffered <;> simp
      · omega
      · exact h.mono same.ge fun _ hset => hsrej.trans hset

theorem Noted.read (h : Noted s sent) (hread : DataPhase.Read s middle) : Noted middle sent := by
  obtain ⟨seqNum, client, recvPacket, heq⟩ := hread
  rw [heq]
  exact h.mono (Nat.le_refl _) fun _ hset => hset

theorem Noted.feed {receiver : Receiver width Bytes} {arrival : Peer × Datagram}
    (h : Noted s sent) (hstable : Stable width limit s receiver)
    (houtcome : FeedOutcome width limit s (feed s arrival) receiver arrival.2) :
    Noted (DataPhase.feed s arrival)
        (sent ++ if isOld s arrival.2 then [] else answersTo s arrival) ∧
      (isOld s arrival.2 → answersTo s arrival =
        [(if s.arePacketsBuffered then .srej else .rr, s.curRRnum)]) := by
  obtain ⟨receiver', hstable'⟩ := houtcome.stable
  have hlt := hstable'.curRRnum_lt
  have hadded {response : Option Flag} (hanswers : Answers s (DataPhase.feed s arrival) response) :
      answersTo s arrival =
        response.toList.map (·, (DataPhase.feed s arrival).curRRnum) := by
    rw [answersTo, hanswers.responses_eq hlt, List.drop_left]
  cases houtcome with
  | dropped hdata hread _ =>
      have hnew : isOld s arrival.2 = false := by simp [isOld, hdata]
      rw [hnew]
      refine ⟨?_, fun hold => absurd hold (by simp)⟩
      rw [if_neg (by simp), hadded (Read.answers hread)]
      simpa using h.read hread
  | accepted number data hdata hafter middle hread hreaction =>
      have hmiddle := Stable.read hstable hread
      obtain ⟨response, hanswers, hfresh, hrepeat⟩ :=
        (h.read hread).reaction hmiddle hafter hreaction
      have hsum := Read.answers_of hread hanswers
      have hcur : middle.curRRnum = s.curRRnum := hmiddle.next.trans hstable.next.symm
      have hbuffered : middle.arePacketsBuffered = s.arePacketsBuffered := by
        obtain ⟨seqNum, client, recvPacket, heq⟩ := hread
        rw [heq]
        rfl
      rw [hcur] at hfresh hrepeat
      by_cases hold : number < s.curRRnum
      · have hisOld : isOld s arrival.2 = true := by simp [isOld, hdata, hold]
        obtain ⟨hnoted, hsame, hresponse⟩ := hrepeat hold
        rw [hisOld, if_pos rfl, List.append_nil]
        refine ⟨hnoted, fun _ => ?_⟩
        rw [hadded hsum, hresponse, hsame, hbuffered]
        rfl
      · have hisOld : isOld s arrival.2 = false := by simp [isOld, hdata]; omega
        rw [hisOld]
        refine ⟨?_, fun hcontra => absurd hcontra (by simp)⟩
        rw [if_neg (by simp), hadded hsum]
        exact hfresh (Nat.le_of_not_lt hold)

theorem Noted.run {receiver : Receiver width Bytes} {arrivals : List (Peer × Datagram)}
    (h : Noted s sent) (hstate : s.state = .readyForNextDataPacket)
    (hstable : Stable width limit s receiver)
    (hfeed : ∀ arrival ∈ arrivals, Feedable limit arrival.2) :
    Noted (Runs.run DataPhase.feed s arrivals) (sent ++ unprompted s arrivals) := by
  induction arrivals generalizing s sent receiver with
  | nil => simpa [unprompted] using h
  | cons arrival arrivals ih =>
      obtain ⟨hfirst, hrest⟩ := List.forall_mem_cons.mp hfeed
      obtain ⟨hready, houtcome⟩ := feed_spec arrival.1 hstate hstable hfirst
      obtain ⟨receiver', hstable'⟩ := houtcome.stable
      obtain ⟨hnoted, -⟩ := h.feed hstable houtcome
      rw [unprompted, ← List.append_assoc, Runs.run_cons]
      exact ih hnoted hready hstable' hrest

theorem noted_begun {first : Datagram} (hstart : StartsData width s first) :
    Noted (begun s) (responses (begun s).trace) := by
  obtain ⟨-, hstable', hreaction⟩ := hstart.begun_spec
  have hempty : Noted (s.step .silent) [] := ⟨List.Pairwise.nil, by simp, by simp, by simp⟩
  have hquiet : responses (s.step .silent).trace = [] := by
    rw [hstart.ready]
    exact hstart.quiet
  obtain ⟨response, hanswers, hfresh, hold⟩ := hempty.reaction hstart.stable hstable' hreaction
  rw [hanswers.responses_eq hstable'.curRRnum_lt, hquiet]
  rcases Nat.lt_or_ge (fieldOf first) (s.step .silent).curRRnum with hlt | hge
  · obtain ⟨hnoted, -, hresponse⟩ := hold hlt
    have hnone : (s.step .silent).arePacketsBuffered = false := by
      rw [hstart.ready]
      simp [Server.arePacketsBuffered, allocated]
    rw [hresponse, hnone]
    exact hnoted.concat (.inl rfl) (by simp) (by simp)
  · exact hfresh hge

/-- The first answer that the server gives, and all that it says later without having been
sent an old packet, are different from each other and ordered by their numbers; to each old
packet it says once what it expects, as an `SREJ` if it holds later packets. -/
theorem answers_once {first : Datagram} (hstart : StartsData width s first)
    (arrivals : List (Peer × Datagram))
    (hfeed : ∀ arrival ∈ arrivals, Feedable packetLimit arrival.2) :
    (responses (begun s).trace ++ unprompted (begun s) arrivals).Pairwise Earlier ∧
      ∀ earlier arrival later, arrivals = earlier ++ arrival :: later →
        let before := Runs.run feed (begun s) earlier
        isOld before arrival.2 → answersTo before arrival =
          [(if before.arePacketsBuffered then .srej else .rr, before.curRRnum)] := by
  obtain ⟨hready, hstable, -⟩ := hstart.begun_spec
  refine ⟨((noted_begun hstart).run hready hstable hfeed).ordered, ?_⟩
  rintro earlier arrival later rfl before hold
  have hearlier : ∀ other ∈ earlier, Feedable packetLimit other.2 :=
    fun other hother => hfeed other (List.mem_append_left _ hother)
  obtain ⟨hstate, hstable'⟩ := run_stable hstart hearlier
  have hnoted := (noted_begun hstart).run hready hstable hearlier
  obtain ⟨-, houtcome⟩ := feed_spec arrival.1 hstate hstable' (hfeed arrival (by simp))
  exact (hnoted.feed hstable' houtcome).2 hold

/-- Packet 2 is missing for a while, and packet 1 comes again. -/
def withRepeats : List (Peer × Datagram) :=
  [(.rcopy, numberedDatagram [67] .data 3 3), (.rcopy, numberedDatagram [68] .data 4 4),
    (.rcopy, numberedDatagram [65] .data 1 1), (.rcopy, numberedDatagram [66] .data 2 2)]

theorem answers_once_withRepeats :
    let s := ready 4 (numberedDatagram [65] .data 1 1)
    (responses (begun s).trace ++ unprompted (begun s) withRepeats).Pairwise Earlier ∧
      ∀ earlier arrival later, withRepeats = earlier ++ arrival :: later →
        let before := Runs.run feed (begun s) earlier
        isOld before arrival.2 → answersTo before arrival =
          [(if before.arePacketsBuffered then .srej else .rr, before.curRRnum)] := by
  apply answers_once
  · apply startsData_ready <;> decide
  · intro arrival harrival
    simp only [withRepeats, List.mem_cons, List.not_mem_nil, or_false] at harrival
    rcases harrival with rfl | rfl | rfl | rfl <;> apply feedable_numberedDatagram <;> decide

end SlidingWindow.Repetition

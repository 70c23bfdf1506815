import SlidingWindow.Responses

/-! Whether every missing packet is asked for. `send_RR_or_SREJ` is meant to reject
the next gap when packets are left in the window, but it compares `cur_RRnum` with
the value the flush loop returns, which is `cur_RRnum` by then. So a second gap is
rejected only when a later packet arrives out of order. -/
namespace SlidingWindow.Requests

open Library Library.SelectiveReject ServerWindow DataPhase Responses

variable {width limit : ℕ} {s s' : Server}

/-- A response with this flag has left since `cur_RRnum` took its value: the writes
before it are those of the packets below `cur_RRnum`. -/
def Emitted (flag : Flag) (s : Server) : Prop :=
  ∃ k event, s.trace[k]? = some event ∧ response? event = some (flag, s.curRRnum) ∧
    (Trace.writes (s.trace.take k)).length + 1 = s.curRRnum

theorem Emitted.of_append {flag : Flag} (h : Emitted flag s) {added : Trace}
    (htrace : s'.trace = s.trace ++ added) (hcur : s'.curRRnum = s.curRRnum) :
    Emitted flag s' := by
  obtain ⟨k, event, hevent, hresponse, hwrites⟩ := h
  have hlt := (List.getElem?_eq_some_iff.mp hevent).1
  unfold Emitted
  rw [htrace, hcur]
  refine ⟨k, event, ?_, hresponse, ?_⟩
  · rw [List.getElem?_append_left hlt, hevent]
  · rw [List.take_append_of_le_length hlt.le, hwrites]

theorem Answers.emitted {flag : Flag} (h : Answers s s' (some flag))
    {receiver : Receiver width Bytes} (hstable : Stable width limit s' receiver) :
    Emitted flag s' := by
  obtain ⟨⟨written, seqNum, htrace⟩, -, hflag⟩ := h
  have hcount := receiver.count
  rw [← hstable.writes, ← hstable.next, htrace] at hcount
  unfold Emitted
  rw [htrace]
  refine ⟨(s.trace ++ written.map Event.wrote).length,
    .sent s'.client (numberedDatagram [] flag seqNum s'.curRRnum), by simp,
    response?_numbered (hflag flag rfl) hstable.curRRnum_lt, ?_⟩
  rw [List.take_left']
  · simpa using hcount
  · rfl

/-- After a turn the server has rejected the gap of a window that still holds packets, and
has acknowledged an advance that empties the window. -/
structure Requested (s s' : Server) : Prop where
  rejected : (∃ n, Buffered s' n) →
    s'.hasSREJ = true ∧ s'.numSREJ = s'.curRRnum ∧ Emitted .srej s'
  acknowledged : s.curRRnum < s'.curRRnum → (∀ n, ¬ Buffered s' n) → Emitted .rr s'

/-- The buffered packets reach down to the packet after the expected one: filling
this gap leaves no other gap behind it. -/
def Consecutive (s : Server) : Prop :=
  ∀ n gap, Buffered s n → s.curRRnum < gap → gap < n → Buffered s gap

/-- The datagram does not fill a gap below which another gap is left. -/
def GapFree (s : Server) (datagram : Datagram) : Prop :=
  ∀ data, dataOf? datagram = some (s.curRRnum, data) → Consecutive s

structure Awaiting (s : Server) : Prop where
  rejected : (∃ n, Buffered s n) → s.hasSREJ = true
  emitted : s.hasSREJ = true → Emitted .srej s

section Packet

variable {receiver : Receiver width Bytes} {number : ℕ} {data : Bytes}

theorem Awaiting.requested (h : Awaiting s') (hstable : Stable width limit s' receiver)
    (hsame : s'.curRRnum = s.curRRnum) : Requested s s' where
  rejected hbuffered :=
    have hsrej := h.rejected hbuffered
    ⟨hsrej, hstable.srej hsrej, h.emitted hsrej⟩
  acknowledged hlt := absurd hlt (by omega)

/-- Filling a gap empties the window exactly when no second gap is left. -/
theorem buffered_accept_next
    (hstable : Stable width limit s receiver)
    (hstable' : Stable width limit s' (receiver.accept receiver.next data)) :
    (∃ n, Buffered s' n) ↔ ¬ Consecutive s := by
  unfold Consecutive
  simp only [hstable.buffered_iff, hstable'.buffered_iff, Receiver.mem_held_accept_next,
    hstable.next]
  constructor
  · rintro ⟨n, hn, gap, hlt, hgap, hmissing⟩ hconsecutive
    exact hmissing (hconsecutive n gap hn hlt hgap)
  · intro h
    by_contra hnone
    refine h fun n gap hn hlt hgap => ?_
    by_contra hmissing
    exact hnone ⟨n, hn, gap, hlt, hgap, hmissing⟩

theorem Reaction.awaiting (hreaction : Reaction s s' number) (hawait : Awaiting s)
    (hstable : Stable width limit s receiver)
    (hstable' : Stable width limit s' (receiver.accept number data))
    (hconsecutive : number = s.curRRnum → Consecutive s) :
    Awaiting s' ∧ Requested s s' := by
  obtain ⟨response, hanswers⟩ := Reaction.answers hreaction
  cases hreaction with
  | acknowledged hexpected hemits hsrej hempty =>
      have hnone : ¬ ∃ n, Buffered s' n := by
        rw [← hstable'.arePacketsBuffered_iff, hempty]
        decide
      have hrr : Emitted .rr s' :=
        Answers.emitted ⟨hemits, fun _ => hempty, by simp⟩ hstable'
      exact ⟨⟨fun hsome => absurd hsome hnone, by simp [hsrej]⟩,
        ⟨fun hsome => absurd hsome hnone, fun _ _ => hrr⟩⟩
  | gap hexpected hemits hsrej hbuffered =>
      rw [hexpected, hstable.next] at hstable'
      have hsome := hstable'.arePacketsBuffered_iff.mp hbuffered
      exact absurd (hconsecutive hexpected) ((buffered_accept_next hstable hstable').mp hsome)
  | repeated hold hsame hsrej hbuffered hemits =>
      obtain ⟨added, htrace⟩ := hanswers.trace_eq
      have hawait' : Awaiting s' := by
        refine ⟨fun hsome => ?_, fun hset => ?_⟩
        · rw [hsrej]
          apply hawait.rejected
          rw [← hstable.arePacketsBuffered_iff, ← hbuffered]
          exact hstable'.arePacketsBuffered_iff.mpr hsome
        · exact (hawait.emitted (hsrej ▸ hset)).of_append htrace hsame
      exact ⟨hawait', hawait'.requested hstable' hsame⟩
  | rejected hearly hsame hfresh hsrej hemits =>
      have hawait' : Awaiting s' :=
        ⟨fun _ => hsrej, fun _ => Answers.emitted ⟨hemits, by simp, by simp⟩ hstable'⟩
      exact ⟨hawait', hawait'.requested hstable' hsame⟩
  | awaited hearly hsame hearlier hsrej hemits =>
      obtain ⟨added, htrace⟩ := hanswers.trace_eq
      have hawait' : Awaiting s' :=
        ⟨fun _ => hsrej, fun _ => (hawait.emitted hearlier).of_append htrace hsame⟩
      exact ⟨hawait', hawait'.requested hstable' hsame⟩

theorem Reaction.consecutive (hreaction : Reaction s s' number)
    (hstable : Stable width limit s receiver)
    (hstable' : Stable width limit s' (receiver.accept number data))
    (hrequested : Requested s s') (hexpected : number = s.curRRnum) : Consecutive s := by
  rw [hexpected, hstable.next] at hstable'
  by_contra hgap
  have hsome := (buffered_accept_next hstable hstable').mpr hgap
  have hbuffered := hstable'.arePacketsBuffered_iff.mpr hsome
  have hset := (hrequested.rejected hsome).1
  cases hreaction with
  | acknowledged _ _ hsrej _ => simp [hsrej] at hset
  | gap _ _ hsrej _ => simp [hsrej] at hset
  | repeated hold _ _ _ _ => omega
  | rejected hearly _ _ _ _ => omega
  | awaited hearly _ _ _ _ => omega

end Packet

theorem Read.buffered (h : Read s s') {n : ℕ} : Buffered s' n ↔ Buffered s n := by
  obtain ⟨_, _, _, heq⟩ := h
  rw [heq]
  rfl

theorem Read.awaiting (h : Read s s') (hawait : Awaiting s) : Awaiting s' := by
  obtain ⟨_, _, _, heq⟩ := h
  rw [heq]
  exact ⟨hawait.rejected, hawait.emitted⟩

theorem Read.curRRnum (h : Read s s') : s'.curRRnum = s.curRRnum := by
  obtain ⟨_, _, _, heq⟩ := h
  rw [heq]

theorem feed_requested_iff {receiver : Receiver width Bytes} {datagram : Datagram}
    (houtcome : FeedOutcome width limit s s' receiver datagram)
    (hstable : Stable width limit s receiver) (hawait : Awaiting s) :
    (Requested s s' ↔ GapFree s datagram) ∧ (GapFree s datagram → Awaiting s') := by
  cases houtcome with
  | dropped hdata hread hstable' =>
      have hawait' := Read.awaiting hread hawait
      have hrequested : Requested s s' := hawait'.requested hstable' (Read.curRRnum hread)
      exact ⟨⟨fun _ data h => by simp [hdata] at h, fun _ => hrequested⟩, fun _ => hawait'⟩
  | accepted number data hdata hstable' middle hread hreaction =>
      have hmiddle := Stable.read hstable hread
      have hcur := Read.curRRnum hread
      have hgap : GapFree s datagram ↔ (number = middle.curRRnum → Consecutive middle) := by
        simp only [GapFree, hdata, Consecutive, Read.buffered hread, hcur]
        constructor
        · intro h hexpected
          exact h data (by rw [hexpected])
        · intro h other hother
          exact h (by simpa using congrArg (fun item => item.map Prod.fst) hother)
      have hrequested : Requested s s' ↔ Requested middle s' := by
        constructor <;> intro h
        · exact ⟨h.rejected, hcur ▸ h.acknowledged⟩
        · exact ⟨h.rejected, hcur ▸ h.acknowledged⟩
      have hforward :=
        Reaction.awaiting hreaction (Read.awaiting hread hawait) hmiddle hstable'
      rw [hgap, hrequested]
      exact ⟨⟨Reaction.consecutive hreaction hmiddle hstable', fun h => (hforward h).2⟩,
        fun h => (hforward h).1⟩

theorem along_requested_iff {receiver : Receiver width Bytes}
    {arrivals : List (Peer × Datagram)} (hstate : s.state = .readyForNextDataPacket)
    (hstable : Stable width limit s receiver) (hawait : Awaiting s)
    (hfeed : ∀ arrival ∈ arrivals, Feedable limit arrival.2) :
    Runs.Along feed (fun t arrival => Requested t (feed t arrival)) s arrivals ↔
      Runs.Along feed (fun t arrival => GapFree t arrival.2) s arrivals := by
  induction arrivals generalizing s receiver with
  | nil => simp
  | cons arrival arrivals ih =>
      obtain ⟨hstate', houtcome⟩ :=
        feed_spec arrival.1 hstate hstable (hfeed arrival List.mem_cons_self)
      obtain ⟨hiff, hawait'⟩ := feed_requested_iff houtcome hstable hawait
      obtain ⟨receiver', hstable'⟩ := houtcome.stable
      have hrest : ∀ other ∈ arrivals, Feedable limit other.2 :=
        fun other hother => hfeed other (List.mem_cons_of_mem _ hother)
      rw [Runs.along_cons, Runs.along_cons, hiff]
      exact and_congr_right fun hgap => ih hstate' hstable' (hawait' hgap) hrest

/-- Every missing packet is asked for along a run exactly when no datagram of the
run fills a gap while a second gap is left in the window. -/
theorem requested_iff_gapFree {first : Datagram} (hstart : StartsData width s first)
    (arrivals : List (Peer × Datagram))
    (hfeed : ∀ arrival ∈ arrivals, Feedable packetLimit arrival.2) :
    (Requested (s.step .silent) (begun s) ∧
        Runs.Along feed (fun t arrival => Requested t (feed t arrival)) (begun s) arrivals) ↔
      Runs.Along feed (fun t arrival => GapFree t arrival.2) (begun s) arrivals := by
  obtain ⟨hstate, hstable, hreaction⟩ := hstart.begun_spec
  have hnone : ∀ n, ¬ Buffered (s.step .silent) n := by
    intro n
    rw [hstart.stable.buffered_iff]
    exact Finmap.notMem_empty
  have hempty : Awaiting (s.step .silent) := by
    refine ⟨fun ⟨n, hn⟩ => absurd hn (hnone n), fun hset => ?_⟩
    rw [hstart.ready] at hset
    exact absurd hset (by simp [allocated])
  obtain ⟨hawait, hrequested⟩ :=
    Reaction.awaiting hreaction hempty hstart.stable hstable
      fun _ n gap hn => absurd hn (hnone n)
  rw [along_requested_iff hstate hstable hawait hfeed]
  exact and_iff_right hrequested

/-- Packets 2 and 4 arrive before packet 1, in a window of four: packet 1 fills its
gap, packet 4 stays in the window, and nothing asks for packet 3. -/
def twoGaps : List (Peer × Datagram) :=
  [(.rcopy, numberedDatagram [68] .data 3 4), (.rcopy, numberedDatagram [65] .data 1 1)]

theorem startsData_twoGaps :
    StartsData 4 (ready 4 (numberedDatagram [66] .data 2 2))
      (numberedDatagram [66] .data 2 2) := by
  apply startsData_ready <;> decide

theorem feedable_twoGaps : ∀ arrival ∈ twoGaps, Feedable packetLimit arrival.2 := by
  intro arrival harrival
  simp only [twoGaps, List.mem_cons, List.not_mem_nil, or_false] at harrival
  rcases harrival with rfl | rfl <;> apply feedable_numberedDatagram <;> decide

theorem requested_iff_gapFree_twoGaps :
    (Requested ((ready 4 (numberedDatagram [66] .data 2 2)).step .silent)
          (begun (ready 4 (numberedDatagram [66] .data 2 2))) ∧
        Runs.Along feed (fun t arrival => Requested t (feed t arrival))
          (begun (ready 4 (numberedDatagram [66] .data 2 2))) twoGaps) ↔
      Runs.Along feed (fun t arrival => GapFree t arrival.2)
        (begun (ready 4 (numberedDatagram [66] .data 2 2))) twoGaps :=
  requested_iff_gapFree startsData_twoGaps twoGaps feedable_twoGaps

theorem second_gap_unrequested :
    (StartsData 4 (ready 4 (numberedDatagram [66] .data 2 2))
        (numberedDatagram [66] .data 2 2) ∧
      ∀ arrival ∈ twoGaps, Feedable packetLimit arrival.2) ∧
    ¬ Runs.Along feed (fun t arrival => Requested t (feed t arrival))
      (begun (ready 4 (numberedDatagram [66] .data 2 2))) twoGaps := by
  refine ⟨⟨startsData_twoGaps, feedable_twoGaps⟩, fun h => ?_⟩
  have hlast := (Runs.along_iff_split.mp h) [twoGaps[0]] twoGaps[1] [] rfl
  have hbuffered : ∃ n, Buffered (feed (Runs.run feed
      (begun (ready 4 (numberedDatagram [66] .data 2 2))) [twoGaps[0]]) twoGaps[1]) n := by
    refine ⟨4, ?_⟩
    unfold Buffered
    decide +kernel
  have hfresh : (feed (Runs.run feed (begun (ready 4 (numberedDatagram [66] .data 2 2)))
      [twoGaps[0]]) twoGaps[1]).hasSREJ = false := by
    decide +kernel
  have hset := (hlast.rejected hbuffered).1
  rw [hfresh] at hset
  contradiction

end SlidingWindow.Requests

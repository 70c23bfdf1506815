import SlidingWindow.Upload
import SlidingWindow.Acknowledgements

/-! Flow control between the client and the child. The client opens its window on
every `RR`: it goes on to send without looking whether the number reopens it. As
long as none leaves it closed with chunks still to send, no packet is sent that the
server's window cannot take. -/
namespace SlidingWindow.FlowControl

open Library Phases Transfer Acknowledgements

variable {u : Upload} {c c' : Client} {s : Server} {w : World} {input : Input}

/-- `cur_RRnum`, which is 1 from the moment the server sets up its data phase. -/
def expected (s : Server) : ℕ := max 1 s.curRRnum

/-- An `RR` that this turn reads reopens the window, unless the file is all sent. -/
def Reopens (c : Client) (input : Input) : Prop :=
  ∀ number ∈ acknowledgement? c input,
    c.localFile = [] ∨ c.winCur + 1 < number + c.winSize

def KeepsWindow (w : World) : World.Label → Prop
  | .client choice => Reopens w.client (World.resolve (w.inbox .rcopy) choice)
  | .child _ _ => True
  | .main _ => False

instance : Decidable (Reopens c input) :=
  inferInstanceAs (Decidable (∀ number ∈ acknowledgement? c input, _ ∨ _))

instance : (label : World.Label) → Decidable (KeepsWindow w label)
  | .client _ => inferInstanceAs (Decidable (Reopens _ _))
  | .child _ _ => .isTrue trivial
  | .main _ => .isFalse id

structure Within (u : Upload) (next : ℕ) (c : Client) : Prop where
  width : c.winMax = c.winMin + u.width
  low : c.winMin + 1 ≤ next
  sent : c.winCur < next + u.width
  sending : c.state = .sendData → c.localFile ≠ [] → c.winCur + 1 < next + u.width
  openWindow : c.state = .receiveDataWindowOpen → c.winCur < c.winMax

theorem Within.mono {next next' : ℕ} (h : Within u next c) (hle : next ≤ next') :
    Within u next' c where
  width := h.width
  low := by have := h.low; omega
  sent := by have := h.sent; omega
  sending hstate hfile := by have := h.sending hstate hfile; omega
  openWindow := h.openWindow

theorem winCur_lt_of_afterSend (h : c.afterSend = .receiveDataWindowOpen) :
    c.winCur < c.winMax := by
  unfold Client.afterSend Client.isWindowClosed at h
  grind

theorem winCur_lt_of_heard {src : Peer} (h : (c.heard src).state = .sendData) :
    c.winCur < c.winMax := by
  unfold Client.heard Client.isWindowClosed at h
  grind

theorem Within.congr {next : ℕ} (h : Within u next c) (hmin : c'.winMin = c.winMin)
    (hmax : c'.winMax = c.winMax) (hcur : c'.winCur = c.winCur)
    (hsending : c'.state = .sendData → c.winCur < c.winMax)
    (hopen : c'.state = .receiveDataWindowOpen → c.winCur < c.winMax) : Within u next c' where
  width := by rw [hmin, hmax, h.width]
  low := hmin ▸ h.low
  sent := hcur ▸ h.sent
  sending hstate _ := by
    have := hsending hstate
    have := h.width
    have := h.low
    omega
  openWindow hstate := by rw [hcur, hmax]; exact hopen hstate

theorem Within.turn (hcountable : u.Countable) (hupload : Sender.Uploading u c)
    (h : Within u (expected s) c) (hreads : ClientReads c s (Complete u s) input)
    (hle : s.curRRnum ≤ c.winCur + 1) (hreopens : Reopens c input)
    (hturn : Client.Turn c input c') : Within u (expected s) c' := by
  cases hturn with
  | halted state => rcases state with hstate | hstate <;> exact h
  | sent state chunk rest file =>
      obtain ⟨hlt, -, -⟩ := hupload.next_chunk file
      have hcount := count_lt hcountable
      have hcur : (c.sentChunk chunk rest).winCur = c.winCur + 1 := u32_of_lt (by omega)
      have hsent := h.sending state (by simp [file])
      refine ⟨h.width, h.low, by rw [hcur]; exact hsent, fun hstate => ?_, fun hstate => ?_⟩
      · rcases Client.sentChunk_state c chunk rest with hopen | hclosed <;> simp_all
      · exact winCur_lt_of_afterSend hstate
  | resent source =>
      rename_i before index slot held filled
      obtain ⟨timeout, rfl⟩ := Client.resending?_frame source
      refine h.congr rfl rfl rfl (fun hstate => ?_) winCur_lt_of_afterSend
      rcases Client.resent_state { c with timeout := timeout } slot with hopen | hclosed <;>
        simp_all
  | polled =>
      refine h.congr rfl rfl rfl (fun hstate => ?_) fun hstate => ?_
      · dsimp only at hstate
        grind
      · dsimp only at hstate
        grind
  | eofUnanswered =>
      refine h.congr rfl rfl rfl (fun hstate => ?_) fun hstate => ?_
      · dsimp only at hstate
        grind
      · dsimp only at hstate
        grind
  | corrupted listens =>
      obtain ⟨seqNum, trace, rfl⟩ := Client.listening?_frame listens
      refine h.congr rfl rfl rfl winCur_lt_of_heard fun hstate => ?_
      simp only [Client.heard] at hstate
      grind
  | acknowledged listens accepted flag =>
      rename_i src datagram before received
      obtain ⟨number, hfield, hpositive, hnumber, hmin, hmax⟩ :=
        hreads.acknowledged hcountable hupload.winCur_le hle accepted flag
      have hread : acknowledgement? c (.datagram src datagram) = some number := by
        simp [acknowledgement?, numberRead?, listens, accepted, flag, hfield]
      have hnext : number ≤ expected s := by
        simp only [expected]
        omega
      have hwidth := hupload.winSize
      obtain ⟨seqNum, trace, rfl⟩ := Client.listening?_frame listens
      have hsent := h.sent
      refine ⟨?_, ?_, ?_, fun _ hfile => ?_, fun hstate => ?_⟩
      · simp only [Client.acknowledged, Client.heard, hfield, hwidth, hmin, hmax]
        omega
      · simp only [Client.acknowledged, Client.heard, hfield, hmin]
        omega
      · exact hsent
      · change c.winCur + 1 < _
        rcases hreopens number hread with hempty | hreopened
        · exact absurd hempty hfile
        · rw [hwidth] at hreopened
          omega
      · simp only [Client.acknowledged] at hstate
        grind
  | crashed listens | rejected listens | ended listens =>
      obtain ⟨seqNum, trace, rfl⟩ := Client.listening?_frame listens
      exact h.congr rfl rfl rfl (by simp) (by simp)
  | _ => exact h.congr rfl rfl rfl (by simp) (by simp)

def Controlled (u : Upload) (w : World) : Prop :=
  Sender.Uploading u w.client ∧
    ∃ s, Carries u w s ∧ Within u (expected s) w.client

theorem Controlled.step (hcountable : u.Countable) (h : Controlled u w)
    {label : World.Label} (hkeeps : KeepsWindow w label) :
    Controlled u (w.step label) := by
  obtain ⟨hupload, s, hcarries, hwithin⟩ := h
  cases label with
  | main choice => exact hkeeps.elim
  | client choice =>
      have hreads := hcarries.clientReads choice
      have hturn := Client.turn hupload.transfer hupload.ring
        (World.resolve (w.inbox .rcopy) choice)
      refine ⟨hupload.turn (count_lt hcountable) hturn, s,
        ⟨hcarries.children, hcarries.pair.client_step hcountable hreads⟩, ?_⟩
      exact hwithin.turn hcountable hupload hreads hcarries.pair.curRRnum_le hkeeps hturn
  | child index choice =>
      rcases hcarries.child_cases index choice with ⟨input, hstep, hreads⟩ | hstep
      · have hpair := hcarries.pair
        have hle := (hpair.serving.turn hcountable hpair.phase.winCur_le hreads
          (Server.turn s input)).2.1
        rw [hstep]
        refine ⟨hupload, s.step input, ⟨rfl, hpair.server_step hcountable hreads⟩, ?_⟩
        exact hwithin.mono (by unfold expected; omega)
      · rw [hstep]
        exact ⟨hupload, s, hcarries, hwithin⟩

theorem within_start (hcountable : u.Countable) (hclient : ClientSetUp u c)
    (s : Server) : Within u (expected s) c where
  width := by rw [hclient.winMax, hclient.winMin, Nat.zero_add]
  low := by rw [hclient.winMin]; unfold expected; omega
  sent := by rw [hclient.winCur]; unfold expected; omega
  sending _ _ := by
    have := hcountable.positive
    rw [hclient.winCur]
    unfold expected
    omega
  openWindow hstate := by
    rw [hclient.state] at hstate
    contradiction

/-- What flow control is for: no packet beyond the window of the server has been
sent, so every packet that arrives early fits in, and those the server may still ask
for have not been overwritten. -/
structure FlowControlled (u : Upload) (c : Client) (s : Server) : Prop where
  sent : ∀ dst datagram, .sent dst datagram ∈ c.trace → flagOf datagram = some .data →
    fieldOf datagram ≤ expected s + u.width - 1
  inWindow : s.state = .receivedData → s.curRRnum < fieldOf s.recvPacket.buf →
    s.isInWindow (fieldOf s.recvPacket.buf) = true
  held : ∀ number, expected s ≤ number → number ≤ c.winCur →
    ∃ slot, c.window[(number - 1) % u.width]? = some slot ∧ Sender.Stored u slot number

theorem flowControlled_of_within (hcountable : u.Countable)
    (hupload : Sender.Uploading u c) (hpair : Pair u c s) (h : Within u (expected s) c) :
    FlowControlled u c s := by
  have hcount := hcountable.count
  have hcur := hupload.winCur_le
  have hsent := h.sent
  refine ⟨fun dst datagram hdatagram hflag => ?_, fun hstate hlater => ?_,
    fun number hlow hhigh => ?_⟩
  · obtain ⟨number, chunk, hgenuine, -, hfield, -⟩ :=
      (hpair.sends dst datagram hdatagram).2.data_of_flag hflag
    have hle := hgenuine.le
    rw [hfield, u32_of_lt (by omega)]
    omega
  · obtain ⟨receiver, hreceives, number, data, hpacket, hgenuine⟩ :=
      hpair.serving.phase.processing_of hstate
    have hle := hgenuine.le
    have hpositive : 1 ≤ s.curRRnum := by
      have := receiver.count
      rw [hreceives.stable.next]
      omega
    have hnext := hreceives.stable.next
    rw [hpacket.number] at hlater ⊢
    rw [hreceives.stable.isInWindow_iff hlater]
    simp only [expected] at hsent
    omega
  · have hpositive : 1 ≤ number := by unfold expected at hlow; omega
    obtain ⟨slot, hslot, hstored⟩ :=
      hupload.slots (number - 1) (by omega) (by omega)
    rw [Ring.slot?, hupload.length] at hslot
    rw [Nat.sub_add_cancel hpositive] at hstored
    exact ⟨slot, hslot, hstored⟩

/-- In every run of the client and the child in which no `RR` leaves the window
closed with chunks still to send, the flow is controlled in every state. -/
theorem flow_controlled (hcountable : u.Countable) (hsetup : SetUp u w)
    (labels : List World.Label) (hkeeps : Runs.Along World.step KeepsWindow w labels) :
    ∃ s, (Runs.run World.step w labels).children = [s] ∧
      FlowControlled u (Runs.run World.step w labels).client s := by
  obtain ⟨s, -, hcarries⟩ := hsetup.carries hcountable
  have hstart : Controlled u w := ⟨hsetup.client.uploading hcountable, s, hcarries,
    within_start hcountable hsetup.client s⟩
  obtain ⟨hupload, s', hcarries', hwithin⟩ := Runs.run_invariant (Controlled u)
    (fun _ _ hcontrolled hkeeps => hcontrolled.step hcountable hkeeps) hstart hkeeps
  exact ⟨s', hcarries'.children,
    flowControlled_of_within hcountable hupload hcarries'.pair hwithin⟩

/-- Packet 1 is sent, written and acknowledged, and the client goes on. -/
def acknowledgedOnce : List World.Label :=
  [.client .quiet, .child 0 (.deliver 0), .child 0 .quiet, .child 0 .quiet,
    .client (.deliver 0), .client .quiet]

theorem flow_controlled_acknowledgedOnce :
    ∃ s, (Runs.run World.step (setUpWorld (letters 1 (by decide))) acknowledgedOnce).children =
        [s] ∧
      FlowControlled (letters 1 (by decide))
        (Runs.run World.step (setUpWorld (letters 1 (by decide))) acknowledgedOnce).client s :=
  flow_controlled ⟨by decide, by decide⟩ (setUp_setUpWorld _) acknowledgedOnce
    (by decide +kernel)

/-- The acknowledgement arrives a second time, and the client sends packet 3 into a
window of one, over the only copy of packet 2. -/
theorem repeated_acknowledgement_overruns :
    ¬ ∃ s, (Runs.run World.step (setUpWorld (letters 1 (by decide)))
          (acknowledgedOnce ++ [.client (.deliver 0), .client .quiet])).children = [s] ∧
      FlowControlled (letters 1 (by decide))
        (Runs.run World.step (setUpWorld (letters 1 (by decide)))
          (acknowledgedOnce ++ [.client (.deliver 0), .client .quiet])).client s := by
  rintro ⟨s, hchildren, hcontrolled⟩
  have hsent : .sent (.child 0) (numberedDatagram [67] .data 1 3) ∈
      (Runs.run World.step (setUpWorld (letters 1 (by decide)))
        (acknowledgedOnce ++ [.client (.deliver 0), .client .quiet])).client.trace := by
    decide +kernel
  have hexpected : expected <$>
      (Runs.run World.step (setUpWorld (letters 1 (by decide)))
        (acknowledgedOnce ++ [.client (.deliver 0), .client .quiet])).children = [2] := by
    decide +kernel
  rw [hchildren] at hexpected
  have hnext : expected s = 2 := List.head_eq_of_cons_eq hexpected
  have hle := hcontrolled.sent _ _ hsent (by decide)
  rw [hnext] at hle
  revert hle
  decide

end SlidingWindow.FlowControl

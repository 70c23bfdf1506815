import SlidingWindow.Upload
import SlidingWindow.Acknowledgements

/-! What the client sends again. A timeout resends the packet after the last one
acknowledged, whether or not there is one: the client that finds the end of the file
when everything is acknowledged has none. And once it ends the file, an `SREJ` or a
corrupted datagram takes it back to the window. -/
namespace SlidingWindow.Retransmission

open Library Phases Transfer Acknowledgements

variable {u : Upload} {c c' : Client} {s : Server} {w : World} {input : Input}

/-- No `SREJ` and no corrupted datagram. -/
def Understood : Input → Prop
  | .datagram _ datagram =>
      match recvBuf datagram with
      | .ok (some received) => received.flag ≠ some .srej
      | .ok none => False
      | .error _ => True
  | _ => True

/-- The condition on one turn of the client: it finds the end of the file while a
packet is still unacknowledged, and ends the file undisturbed. -/
structure Undisturbed (c : Client) (input : Input) : Prop where
  pending : c.state = .sendData → c.localFile = [] → input ≠ .failure → c.winMin < c.winCur
  understood : c.state = .sendEofAndQuit → Understood input

def Timely (w : World) : World.Label → Prop
  | .client choice => Undisturbed w.client (World.resolve (w.inbox .rcopy) choice)
  | .child _ _ => True
  | .main _ => False

instance : (input : Input) → Decidable (Understood input)
  | .silent => .isTrue trivial
  | .failure => .isTrue trivial
  | .datagram _ datagram =>
      match hrecv : recvBuf datagram with
      | .ok (some received) =>
          decidable_of_iff (received.flag ≠ some .srej) (by simp [Understood, hrecv])
      | .ok none => .isFalse (by simp [Understood, hrecv])
      | .error _ => .isTrue (by simp [Understood, hrecv])

instance : Decidable (Undisturbed c input) :=
  decidable_of_iff
    ((c.state = .sendData → c.localFile = [] → input ≠ .failure → c.winMin < c.winCur) ∧
      (c.state = .sendEofAndQuit → Understood input))
    ⟨fun h => ⟨h.1, h.2⟩, fun h => ⟨h.pending, h.understood⟩⟩

instance : (label : World.Label) → Decidable (Timely w label)
  | .client _ => inferInstanceAs (Decidable (Undisturbed _ _))
  | .child _ _ => .isTrue trivial
  | .main _ => .isFalse id

theorem Undisturbed.windowed {before : Client} {src : Peer} {datagram : Datagram}
    (h : Undisturbed c (.datagram src datagram)) (hlistens : c.listening? = some before)
    (hmissed : ¬ Understood (.datagram src datagram)) :
    c.state = .receiveDataWindowOpen ∨ c.state = .receiveDataWindowClosed := by
  rcases Client.listening?_eq_some hlistens with ⟨-, hstate⟩ | ⟨-, hstate⟩
  · exact hstate
  · exact absurd (h.understood hstate) hmissed

theorem noteSREJ_windowed {number : ℕ} (h : c.state = .receiveDataWindowOpen ∨
    c.state = .receiveDataWindowClosed) : c.noteSREJ number = number :=
  if_neg (by rcases h with h | h <;> simp [h])

structure Owing (c : Client) : Prop where
  rejected : c.state = .sendDataSREJ → 1 ≤ c.numSREJ ∧ c.numSREJ ≤ c.winCur
  closed : c.state = .receiveDataWindowClosed → c.winMin < c.winCur
  ended : c.doneTransmitting = true → c.winMin < c.winCur ∨ c.state = .sendEofAndQuit ∨
    c.state = .timeoutOnServer ∨ c.state = .done ∨ c.state = .exited
  width : c.winMin < c.winMax

theorem Owing.congr (h : Owing c) (hmin : c'.winMin = c.winMin) (hmax : c'.winMax = c.winMax)
    (hcur : c'.winCur = c.winCur) (hrejected : c'.state ≠ .sendDataSREJ)
    (hclosed : c'.state = .receiveDataWindowClosed → c.winMin < c.winCur)
    (hended : c'.doneTransmitting = true → c.winMin < c.winCur ∨ c'.state = .sendEofAndQuit ∨
      c'.state = .timeoutOnServer ∨ c'.state = .done ∨ c'.state = .exited) : Owing c' where
  rejected hstate := absurd hstate hrejected
  closed := by rw [hmin, hcur]; exact hclosed
  ended := by rw [hmin, hcur]; exact hended
  width := by rw [hmin, hmax]; exact h.width

theorem closed_of_afterSend (h : c.afterSend = .receiveDataWindowClosed) :
    c.doneTransmitting = true ∨ c.winMax ≤ c.winCur := by
  unfold Client.afterSend Client.isWindowClosed at h
  grind

theorem closed_of_heard {src : Peer} (h : (c.heard src).state = .receiveDataWindowClosed) :
    c.doneTransmitting = true ∨ c.winMax ≤ c.winCur := by
  unfold Client.heard Client.isWindowClosed at h
  grind

theorem Owing.pending (h : Owing c) (hactive : c.state = .sendDataSREJ ∨
      c.state = .receiveDataWindowOpen ∨ c.state = .receiveDataWindowClosed)
    (hclosed : c.doneTransmitting = true ∨ c.winMax ≤ c.winCur) : c.winMin < c.winCur := by
  rcases hclosed with hdone | hfull
  · rcases h.ended hdone with hpending | hend
    · exact hpending
    · grind
  · exact Nat.lt_of_lt_of_le h.width hfull

theorem Owing.turn (hcountable : u.Countable) (hupload : Sender.Uploading u c) (h : Owing c)
    (hreads : ClientReads c s (Complete u s) input) (hle : s.curRRnum ≤ c.winCur + 1)
    (hok : Undisturbed c input) (hturn : Client.Turn c input c') : Owing c' := by
  have hcount := hcountable.count
  have hpositive := hcountable.positive
  have hcur := hupload.winCur_le
  cases hturn with
  | halted => exact h
  | fileEnded state file reads =>
      have hpending := hok.pending state file reads
      exact h.congr rfl rfl rfl (by simp) (fun _ => hpending) fun _ => .inl hpending
  | sent state chunk rest file =>
      obtain ⟨hlt, -, -⟩ := hupload.next_chunk file
      have hwinCur : (c.sentChunk chunk rest).winCur = c.winCur + 1 := u32_of_lt (by omega)
      have hreading : (c.sentChunk chunk rest).doneTransmitting ≠ true := by
        intro hdone
        have := hupload.ended hdone
        rw [file] at this
        contradiction
      refine ⟨fun hstate => ?_, fun hstate => ?_, fun hdone => absurd hdone hreading, h.width⟩
      · rcases Client.sentChunk_state c chunk rest with hopen | hclosed <;> simp_all
      · rcases closed_of_afterSend hstate with hdone | hfull
        · exact absurd hdone hreading
        · exact Nat.lt_of_lt_of_le h.width hfull
  | resent source =>
      rename_i before index slot held filled
      have hactive : c.state = .sendDataSREJ ∨ c.state = .receiveDataWindowOpen ∨
          c.state = .receiveDataWindowClosed := by
        rcases Client.resending?_eq_some source with ⟨-, -, hstate⟩ | ⟨-, -, hstate, -⟩
        · exact .inl hstate
        · exact .inr (.inr hstate)
      obtain ⟨timeout, rfl⟩ := Client.resending?_frame source
      refine h.congr rfl rfl rfl ?_ (fun hstate => ?_) fun hended => ?_
      · rcases Client.resent_state { c with timeout := timeout } slot with hopen | hclosed <;>
          simp_all
      · exact h.pending hactive (closed_of_afterSend hstate)
      · exact .inl (h.pending hactive (.inl hended))
  | polled state =>
      have hactive : c.state = .sendDataSREJ ∨ c.state = .receiveDataWindowOpen ∨
          c.state = .receiveDataWindowClosed := .inr (.inl state)
      refine h.congr rfl rfl rfl ?_ (fun hstate => ?_) fun hended => ?_
      · dsimp only
        grind
      · dsimp only at hstate
        exact h.pending hactive (.inr (by grind))
      · exact .inl (h.pending hactive (.inl hended))
  | eofUnanswered =>
      refine h.congr rfl rfl rfl ?_ (fun hstate => ?_) fun hended => ?_
      · dsimp only
        grind
      · dsimp only at hstate
        grind
      · dsimp only
        grind
  | corrupted listens crcError =>
      have hactive : c.state = .sendDataSREJ ∨ c.state = .receiveDataWindowOpen ∨
          c.state = .receiveDataWindowClosed :=
        .inr (hok.windowed listens (by simp [Understood, crcError]))
      obtain ⟨seqNum, trace, rfl⟩ := Client.listening?_frame listens
      refine h.congr rfl rfl rfl ?_ (fun hstate => ?_) fun hended => ?_
      · simp only [Client.heard]
        grind
      · exact h.pending hactive
          (@closed_of_heard { c with seqNum := seqNum, trace := trace } _ hstate)
      · exact .inl (h.pending hactive (.inl hended))
  | acknowledged listens accepted flag =>
      obtain ⟨number, hfield, hlower, hnumber, hmin, hmax⟩ :=
        hreads.acknowledged hcountable hcur hle accepted flag
      have hwidth := hupload.winSize
      have hnext := hupload.count
      obtain ⟨seqNum, trace, rfl⟩ := Client.listening?_frame listens
      refine ⟨fun hstate => ?_, fun hstate => ?_, fun hended => ?_, ?_⟩
      · simp only [Client.acknowledged] at hstate
        grind
      · simp only [Client.acknowledged] at hstate
        grind
      · simp only [Client.acknowledged, Client.heard, hfield, hmin, hnext] at hended ⊢
        by_cases hlast : number = c.winCur + 1
        · simp [hended, hlast]
        · exact .inl (by omega)
      · simp only [Client.acknowledged, Client.heard, hfield, hwidth, hmin, hmax]
        omega
  | rejected listens accepted flag =>
      have hactive := hok.windowed listens (by simp [Understood, accepted, flag])
      obtain ⟨hlower, hsent⟩ := hreads.rejected hcountable hcur accepted flag
      obtain ⟨seqNum, trace, rfl⟩ := Client.listening?_frame listens
      refine ⟨fun _ => ?_, by simp, fun hended => ?_, h.width⟩
      · simp only [Client.heard, noteSREJ_windowed hactive]
        omega
      · exact .inl (h.pending (.inr hactive) (.inl hended))
  | crashed listens | ended listens =>
      obtain ⟨seqNum, trace, rfl⟩ := Client.listening?_frame listens
      exact h.congr rfl rfl rfl (by simp) (by simp) (by simp)
  | _ => exact h.congr rfl rfl rfl (by simp) (by simp) (by simp)

def rejection? (c : Client) (input : Input) : Option ℕ := numberRead? .srej c input

/-- A turn that resends, resends a packet that was sent and is wanted: after a
timeout the lowest that is not acknowledged, after an `SREJ` the one it names. -/
structure Justified (u : Upload) (c : Client) (input : Input) : Prop where
  resent : ∀ before index, c.resending? input = some (before, index) → index < c.winCur ∧
    ∃ slot number, c.window[index % c.winSize]? = some slot ∧ Sender.Stored u slot number
  timeout : ∀ before index, c.resending? input = some (before, index) →
    c.state = .receiveDataWindowClosed → index = c.winMin ∧ c.winMin < c.winCur
  rejected : ∀ number ∈ rejection? c input, ∀ next, ∃ before,
    (c.step input).resending? next = some (before, number - 1)
  filled : c.enterStateMachine input ≠ .error .emptySend

theorem Owing.resending (h : Owing c) {before : Client} {index : ℕ}
    (hsource : c.resending? input = some (before, index)) : index < c.winCur := by
  rcases Client.resending?_eq_some hsource with ⟨-, rfl, hstate⟩ | ⟨-, rfl, hstate, -⟩
  · obtain ⟨hlower, hupper⟩ := h.rejected hstate
    rw [sub32_of_le hlower]
    omega
  · exact h.closed hstate

theorem numberRead?_eq_some {flag : Flag} {number : ℕ}
    (h : numberRead? flag c input = some number) :
    ∃ src datagram before received, input = .datagram src datagram ∧
      c.listening? = some before ∧ recvBuf datagram = .ok (some received) ∧
      received.flag = some flag ∧ fieldOf received.packet = number := by
  unfold numberRead? at h
  cases input with
  | datagram src datagram =>
      dsimp only at h
      split at h
      · rename_i before received hlistens haccepted
        split at h
        · exact ⟨src, datagram, before, received, rfl, hlistens, haccepted, by assumption,
            Option.some.inj h⟩
        · contradiction
      · contradiction
  | silent => contradiction
  | failure => contradiction

theorem rejection_turn {number : ℕ} (hread : rejection? c input = some number)
    (hturn : Client.Turn c input c') :
    c'.state = .sendDataSREJ ∧ c'.numSREJ = c.noteSREJ number := by
  obtain ⟨src, datagram, before, received, rfl, hlistens, haccepted, hflag, hnumber⟩ :=
    numberRead?_eq_some hread
  cases hturn.of_accepted hlistens haccepted with
  | acknowledged hrr =>
      rw [hflag] at hrr
      contradiction
  | rejected _ hstate hnoted => exact ⟨hstate, hnumber ▸ hnoted⟩
  | ended hother => exact absurd hflag hother.2

theorem Owing.resent (hupload : Sender.Uploading u c) (h : Owing c) {before : Client}
    {index : ℕ} (hsource : c.resending? input = some (before, index)) :
    ∃ slot number, c.window[index % c.winSize]? = some slot ∧
      Sender.Stored u slot number := by
  obtain ⟨slot, number, hslot, hstored, -⟩ := hupload.stored (h.resending hsource)
  rw [hupload.slot?_eq] at hslot
  exact ⟨slot, number, hslot, hstored⟩

theorem Owing.alive (hupload : Sender.Uploading u c) (h : Owing c)
    (hreads : ClientReads c s (Complete u s) input) (halive : c.state ≠ .exited)
    (hturn : Client.Turn c input c') : c'.state ≠ .exited := by
  cases hturn with
  | halted => exact halive
  | sent _ chunk rest =>
      rcases Client.sentChunk_state c chunk rest with h | h <;> rw [h] <;> decide
  | resent =>
      rename_i before index slot _ _ _
      rcases Client.resent_state before slot with h | h <;> rw [h] <;> decide
  | emptySlot source held empty =>
      obtain ⟨slot, number, hslot, hstored⟩ := h.resent hupload source
      rw [held] at hslot
      cases hslot
      exact absurd empty hstored.filled
  | crashed listens runt =>
      obtain ⟨-, hcorrupt | hserver⟩ := hreads
      · simp [hcorrupt] at runt
      · rcases recvBuf_of_header hserver.length.1 with hnone | ⟨received, hsome⟩
        · simp [hnone] at runt
        · simp [hsome] at runt
  | polled | eofUnanswered | corrupted | acknowledged =>
      simp only [Client.heard, Client.acknowledged]
      grind
  | _ => simp

theorem justified (hcountable : u.Countable) (hupload : Sender.Uploading u c) (h : Owing c)
    (hreads : ClientReads c s (Complete u s) input) (halive : c.state ≠ .exited)
    (hok : Undisturbed c input) : Justified u c input := by
  have hturn := Client.turn hupload.transfer hupload.ring input
  refine ⟨fun before index hsource => ⟨h.resending hsource, h.resent hupload hsource⟩,
    fun before index hsource hstate => ?_, fun number hread next => ?_, fun hfault => ?_⟩
  · rcases Client.resending?_eq_some hsource with ⟨-, -, hsrej⟩ | ⟨-, hindex, -⟩
    · rw [hsrej] at hstate
      contradiction
    · exact ⟨hindex, h.closed hstate⟩
  · obtain ⟨hstate, hnumber⟩ := rejection_turn hread hturn
    obtain ⟨src, datagram, asked, received, rfl, hlistens, haccepted, hflag, hfield⟩ :=
      numberRead?_eq_some hread
    have hwindow := hok.windowed hlistens (by simp [Understood, haccepted, hflag])
    have hlower := (hreads.rejected hcountable hupload.winCur_le haccepted hflag).1
    rw [noteSREJ_windowed hwindow] at hnumber
    refine ⟨c.step (.datagram src datagram), ?_⟩
    have hindex : sub32 (c.step (.datagram src datagram)).numSREJ 1 = number - 1 := by
      rw [hnumber, ← hfield, sub32_of_le hlower]
    unfold Client.resending?
    cases next <;> simp only [hstate, if_true, hindex]
  · have hexited : (c.step input).state = .exited := by
      rw [Client.step_of_error hfault]
    exact h.alive hupload hreads halive hturn hexited

def Justifies (u : Upload) (w : World) : World.Label → Prop
  | .client choice => Justified u w.client (World.resolve (w.inbox .rcopy) choice)
  | _ => True

structure Settled (u : Upload) (w : World) : Prop where
  running : Running u w
  owing : Owing w.client
  alive : w.client.state ≠ .exited

theorem Timely.ofPair {label : World.Label} (h : Timely w label) : ofPair label := by
  cases label with
  | main choice => exact h
  | client choice => trivial
  | child index choice => trivial

theorem Settled.step (hcountable : u.Countable) (h : Settled u w) {label : World.Label}
    (htimely : Timely w label) : Settled u (w.step label) := by
  have hrunning := h.running.step hcountable (Timely.ofPair htimely)
  obtain ⟨hupload, s, hcarries⟩ := h.running
  cases label with
  | main choice => exact htimely.elim
  | client choice =>
      have hreads := hcarries.clientReads choice
      have hturn := Client.turn hupload.transfer hupload.ring
        (World.resolve (w.inbox .rcopy) choice)
      have hle := hcarries.pair.curRRnum_le
      exact ⟨hrunning, h.owing.turn hcountable hupload hreads hle htimely hturn,
        h.owing.alive hupload hreads h.alive hturn⟩
  | child index choice => exact ⟨hrunning, h.owing, h.alive⟩

theorem Settled.justifies (hcountable : u.Countable) (h : Settled u w) {label : World.Label}
    (htimely : Timely w label) : Justifies u w label := by
  obtain ⟨hupload, s, hcarries⟩ := h.running
  cases label with
  | main choice => trivial
  | client choice =>
      exact justified hcountable hupload h.owing (hcarries.clientReads choice) h.alive htimely
  | child index choice => trivial

theorem owing_start (hcountable : u.Countable) (hclient : ClientSetUp u c) : Owing c where
  rejected hstate := by simp [hclient.state] at hstate
  closed hstate := by simp [hclient.state] at hstate
  ended hdone := by simp [hclient.reading] at hdone
  width := by
    rw [hclient.winMin, hclient.winMax]
    exact hcountable.positive

/-- In every run of the client and the child in which the client finds the end of the
file while a packet is unacknowledged, and is not disturbed when it ends the file,
every packet that is sent again was sent before and is one that is wanted. -/
theorem retransmissions_justified (hcountable : u.Countable) (hsetup : SetUp u w)
    (labels : List World.Label) (htimely : Runs.Along World.step Timely w labels) :
    Runs.Along World.step (Justifies u) w labels := by
  obtain ⟨s, -, hcarries⟩ := hsetup.carries hcountable
  refine Runs.along_of_invariant (Settled u)
    (fun _ _ hsettled htimely => hsettled.step hcountable htimely)
    (fun _ _ hsettled htimely => hsettled.justifies hcountable htimely) ?_ htimely
  refine ⟨⟨hsetup.client.uploading hcountable, s, hcarries⟩,
    owing_start hcountable hsetup.client, ?_⟩
  rw [hsetup.client.state]
  decide

/-- Packet 1 is lost, and sent again when the child rejects it. -/
def lostOnce : List World.Label :=
  [.client .quiet, .client .quiet, .client .quiet, .child 0 (.deliver 1), .child 0 .quiet,
    .child 0 .quiet, .client (.deliver 0), .client .quiet]

theorem retransmissions_justified_lostOnce :
    Runs.Along World.step (Justifies (letters 2 (by decide)))
      (setUpWorld (letters 2 (by decide))) lostOnce :=
  retransmissions_justified ⟨by decide, by decide⟩ (setUp_setUpWorld _) lostOnce
    (by decide +kernel)

def emptyFile : Upload where
  chunks := []
  width := 1
  bufSize := 400
  name := [102]
  chunk_length := by decide
  bufSize_range := smallest_bufSize
  width_lt := single_width
  name_length := short_name

/-- The client of an empty file has nothing to resend when it first times out. -/
theorem emptyFile_resends_unsent :
    ¬ Runs.Along World.step (Justifies emptyFile) (setUpWorld emptyFile)
      [.client .quiet, .client .quiet] := by
  rintro ⟨-, hjustified, -⟩
  have hsource : ((setUpWorld emptyFile).step (.client .quiet)).client.resending? .silent =
      some ({ ((setUpWorld emptyFile).step (.client .quiet)).client with timeout := 1 }, 0) := by
    decide +kernel
  have hlt := (Justified.resent hjustified _ _ hsource).1
  revert hlt
  decide +kernel

end SlidingWindow.Retransmission

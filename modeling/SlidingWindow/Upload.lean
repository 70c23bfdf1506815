import SlidingWindow.Transfer

/-! End-to-end safety of one upload: in every state that the client, the child and the
network can reach, the file on the server is a prefix of the local file, and it is
the whole file once the server has been told so. -/
namespace SlidingWindow.Transfer

open Library Phases ServerWindow

variable {u : Upload} {c : Client} {s : Server} {w : World} {input : Input}

theorem only_child (hchildren : w.children = [s]) {index : ℕ} {child : Server}
    (hchild : w.children[index]? = some child) : child = s := by
  rw [hchildren] at hchild
  cases index with
  | zero => exact (Option.some.inj hchild).symm
  | succ index => simp at hchild

theorem clientReads_of_offered (hpair : Pair u w.client s) (hchildren : w.children = [s])
    (hoffered : World.Offered (w.inbox .rcopy) input) :
    ClientReads w.client s (Complete u s) input := by
  cases input with
  | silent => trivial
  | failure => trivial
  | datagram src datagram =>
      refine World.of_offered (P := (· ≠ .rcopy)) (fun src datagram h => ?_) hoffered
      rcases World.mem_inbox.mp h with ⟨-, hsent⟩ | ⟨index, child, hchild, rfl, hsent⟩
      · exact absurd rfl (hpair.sends _ _ hsent).1
      · obtain rfl := only_child hchildren hchild
        exact ⟨by simp, (hpair.serving.sends _ _ hsent).2⟩

theorem reads_of_offered (hpair : Pair u w.client s) (hchildren : w.children = [s])
    {index : ℕ} (hoffered : World.Offered (w.inbox (.child index)) input) :
    Reads u w.client.winCur (Complete u s) input := by
  cases input with
  | silent => trivial
  | failure => trivial
  | datagram src datagram =>
      refine World.of_offered (P := (· = .rcopy)) (fun src datagram h => ?_) hoffered
      rcases World.mem_inbox.mp h with ⟨rfl, hsent⟩ | ⟨other, child, hchild, rfl, hsent⟩
      · exact ⟨rfl, (hpair.sends _ _ hsent).2⟩
      · obtain rfl := only_child hchildren hchild
        exact absurd (hpair.serving.sends _ _ hsent).1 (by simp)

def ofPair : World.Label → Prop
  | .main _ => False
  | _ => True

instance : DecidablePred ofPair
  | .main _ => .isFalse id
  | .client _ => .isTrue trivial
  | .child _ _ => .isTrue trivial

structure Carries (u : Upload) (w : World) (s : Server) : Prop where
  children : w.children = [s]
  pair : Pair u w.client s

theorem Carries.clientReads (h : Carries u w s) (choice : World.Choice) :
    ClientReads w.client s (Complete u s) (World.resolve (w.inbox .rcopy) choice) :=
  clientReads_of_offered h.pair h.children (World.offered_resolve _ choice)

theorem Carries.child_cases (h : Carries u w s) (index : ℕ) (choice : World.Choice) :
    (∃ input, w.step (.child index choice) = { w with children := [s.step input] } ∧
        Reads u w.client.winCur (Complete u s) input) ∨
      w.step (.child index choice) = w := by
  have hoffered := World.offered_resolve (w.inbox (.child index)) choice
  cases index with
  | zero =>
      refine .inl ⟨_, ?_, reads_of_offered h.pair h.children hoffered⟩
      simp only [World.step, h.children]
      rfl
  | succ index =>
      refine .inr ?_
      simp only [World.step, h.children, List.modify_succ_cons, List.modify_nil]
      rw [← h.children]

theorem Carries.cases (h : Carries u w s) {label : World.Label} (hlabel : ofPair label) :
    (∃ input, w.step label = { w with client := w.client.step input } ∧
        ClientReads w.client s (Complete u s) input) ∨
      (∃ input, w.step label = { w with children := [s.step input] } ∧
        Reads u w.client.winCur (Complete u s) input) ∨
      w.step label = w := by
  cases label with
  | main choice => exact hlabel.elim
  | client choice => exact .inl ⟨_, rfl, h.clientReads choice⟩
  | child index choice => exact .inr (h.child_cases index choice)

theorem Carries.step (hcountable : u.Countable) (h : Carries u w s) {label : World.Label}
    (hlabel : ofPair label) : ∃ s', Carries u (w.step label) s' := by
  rcases h.cases hlabel with ⟨input, hstep, hreads⟩ | ⟨input, hstep, hreads⟩ | hstep
  · exact ⟨s, hstep ▸ ⟨h.children, h.pair.client_step hcountable hreads⟩⟩
  · exact ⟨s.step input, hstep ▸ ⟨rfl, h.pair.server_step hcountable hreads⟩⟩
  · exact ⟨s, by rwa [hstep]⟩

/-- `rcopy` has just run `ready_to_send_data_setup`. -/
structure ClientSetUp (u : Upload) (c : Client) : Prop where
  state : c.state = .sendData
  curPacketNum : c.curPacketNum = 1
  winMin : c.winMin = 0
  winCur : c.winCur = 0
  winMax : c.winMax = u.width
  winSize : c.winSize = u.width
  window : c.window = List.replicate u.width ⟨[], 0⟩
  reading : c.doneTransmitting = false
  file : c.localFile = u.chunks
  server : c.server ≠ .rcopy
  sends : ∀ dst datagram, .sent dst datagram ∈ c.trace →
    dst ≠ .rcopy ∧ u.FromClient 0 False datagram

/-- The child has answered the window size and waits for the first data packet, or
its window is already initialised. -/
inductive DataSetUp (u : Upload) (s : Server) : Prop
  | answered (state : s.state = .readyForNextSetupPacket) (fileGood : s.fileGood = true)
      (bufGood : s.bufGood = true) (winGood : s.winGood = true)
      (winSize : s.winSize = u.width) (fresh : s.curRRnum = 0)
  | initialised (state : s.state = .readyForNextDataPacket) (winSize : s.winSize = u.width)
      (curRRnum : s.curRRnum = 1) (winMin : s.winMin = 0) (winMax : s.winMax = u.width)
      (hasSREJ : s.hasSREJ = false)
      (window : s.window = List.replicate u.width ⟨[], unusedLen⟩)

structure ServerSetUp (u : Upload) (s : Server) : Prop where
  data : DataSetUp u s
  writes : s.trace.writes = []
  client : s.client = .rcopy
  sends : ∀ dst datagram, .sent dst datagram ∈ s.trace →
    dst = .rcopy ∧ Upload.FromServer 0 0 False datagram

structure SetUp (u : Upload) (w : World) : Prop where
  client : ClientSetUp u w.client
  server : ∃ s, w.children = [s] ∧ ServerSetUp u s

theorem ClientSetUp.uploading (hcountable : u.Countable) (h : ClientSetUp u c) :
    Sender.Uploading u c := by
  have hpositive := hcountable.positive
  have hlength : c.window.length = u.width := by rw [h.window, List.length_replicate]
  refine
    { transfer := .inl h.state
      ring := ⟨by rw [h.winSize]; omega, by rw [hlength, h.winSize]⟩
      winSize := h.winSize
      count := by rw [h.curPacketNum, h.winCur]
      file := by rw [h.file, h.winCur, List.drop_zero]
      winCur_le := by rw [h.winCur]; exact Nat.zero_le _
      ended := fun hdone => absurd hdone (by simp [h.reading])
      slots := fun i hi => absurd hi (by simp [h.winCur])
      fresh := fun i _ hi => ?_ }
  rw [Ring.slot?, hlength, h.window, Nat.mod_eq_of_lt hi]
  simp [hi]

theorem ServerSetUp.phase (hcountable : u.Countable) (h : ServerSetUp u s) (top : ℕ) :
    Phase u top s := by
  have hpositive := hcountable.positive
  have hcount := hcountable.count
  cases h.data with
  | answered state fileGood bufGood winGood winSize fresh =>
      exact .preparing ⟨by simp [state], fresh, h.writes, fun _ => winSize, by simp [state]⟩
  | initialised state winSize curRRnum winMin winMax hasSREJ window =>
      have hstart : Stable s.winSize (limit u) (DataPhase.allocated s)
          SelectiveReject.Receiver.start :=
        DataPhase.stable_allocated (by omega) (by simp only [limit]; omega)
          (by simp [limit]) h.writes
      rw [winSize] at hstart
      refine .waiting SelectiveReject.Receiver.start state
        ⟨⟨?_, fun hset => absurd hset (by simp [hasSREJ])⟩, SelectiveReject.Receiver.Every.start⟩
      refine hstart.congr rfl ?_ curRRnum winMin ?_ rfl
      · simp only [DataPhase.allocated, window, winSize]
      · simp only [DataPhase.allocated, winMax, winSize]

theorem SetUp.carries (hcountable : u.Countable) (h : SetUp u w) :
    ∃ s, ServerSetUp u s ∧ Carries u w s := by
  obtain ⟨s, hchildren, hserver⟩ := h.server
  refine ⟨s, hserver, hchildren, .uploading (h.client.uploading hcountable),
    ⟨hserver.phase hcountable _, hserver.client, fun dst datagram hsent => ?_⟩,
    h.client.server, fun dst datagram hsent => ?_, fun heof => ?_⟩
  · obtain ⟨hdst, hfrom⟩ := hserver.sends dst datagram hsent
    exact ⟨hdst, hfrom.mono (Nat.zero_le _) (Nat.zero_le _) False.elim⟩
  · obtain ⟨hdst, hfrom⟩ := h.client.sends dst datagram hsent
    exact ⟨hdst, hfrom.mono (Nat.zero_le _) False.elim⟩
  · rw [h.client.state] at heof
    contradiction

theorem uploading_step (hcountable : u.Countable) (h : Sender.Uploading u c) (input : Input) :
    Sender.Uploading u (c.step input) :=
  h.turn (count_lt hcountable) (Client.turn h.transfer h.ring input)

def Running (u : Upload) (w : World) : Prop :=
  Sender.Uploading u w.client ∧ ∃ s, Carries u w s

theorem Running.step (hcountable : u.Countable) (h : Running u w) {label : World.Label}
    (hlabel : ofPair label) : Running u (w.step label) := by
  obtain ⟨hupload, s, hcarries⟩ := h
  refine ⟨?_, hcarries.step hcountable hlabel⟩
  rcases hcarries.cases hlabel with ⟨input, hstep, -⟩ | ⟨input, hstep, -⟩ | hstep
  · rw [hstep]
    exact uploading_step hcountable hupload input
  · rw [hstep]
    exact hupload
  · rw [hstep]
    exact hupload

theorem along_ofPair {labels : List World.Label} (h : ∀ label ∈ labels, ofPair label)
    (w : World) : Runs.Along World.step (fun _ label => ofPair label) w labels := by
  induction labels generalizing w with
  | nil => trivial
  | cons label labels ih =>
      exact ⟨h label List.mem_cons_self,
        ih (fun other hother => h other (List.mem_cons_of_mem _ hother)) _⟩

theorem run_running (hcountable : u.Countable) (hsetup : SetUp u w)
    {labels : List World.Label} (hlabels : ∀ label ∈ labels, ofPair label) :
    Running u (Runs.run World.step w labels) := by
  obtain ⟨s, -, hcarries⟩ := hsetup.carries hcountable
  exact Runs.run_invariant (Running u)
    (fun _ _ hrunning hlabel => hrunning.step hcountable hlabel)
    ⟨hsetup.client.uploading hcountable, s, hcarries⟩ (along_ofPair hlabels w)

/-- The server has written the chunks of the packets it does not expect any more, in
order and once each, no more than the client has sent, and the whole file when it
reaches `RECEIVED_EOF`. -/
structure Safe (u : Upload) (c : Client) (s : Server) : Prop where
  written : s.trace.writes = u.chunks.take (s.curRRnum - 1)
  notAhead : s.curRRnum ≤ c.curPacketNum
  whole : s.state = .receivedEof → s.trace.writes.flatten = u.chunks.flatten

theorem Complete.writes (hcomplete : Complete u s) {top : ℕ} (h : Prefix u top s) :
    s.trace.writes = u.chunks := by
  rw [h.writes, hcomplete]
  exact List.take_of_length_le (by omega)

theorem upload_safe (hcountable : u.Countable) (hsetup : SetUp u w)
    (labels : List World.Label) (hlabels : ∀ label ∈ labels, ofPair label) :
    ∃ s, (Runs.run World.step w labels).children = [s] ∧
      Safe u (Runs.run World.step w labels).client s := by
  obtain ⟨hupload, s, hcarries⟩ := run_running hcountable hsetup hlabels
  have hstored := hcarries.pair.serving.phase.stored
  refine ⟨s, hcarries.children, hstored.writes, ?_, fun heof => ?_⟩
  · rw [hupload.count]
    exact hstored.le
  · have hcomplete := hcarries.pair.serving.phase.complete_of heof
    rw [Complete.writes hcomplete hstored]

def setUpWorld (u : Upload) : World where
  client := { Client.started u.chunks u.name u.bufSize u.width with
    server := .child 0 }.readyToSendDataSetup
  children :=
    [{ Server.forked .rcopy [] with
        state := .readyForNextSetupPacket
        fileOpen := true
        fileGood := true
        bufGood := true
        winGood := true
        bufSize := u.bufSize
        winSize := u.width }]

theorem setUp_setUpWorld (u : Upload) : SetUp u (setUpWorld u) where
  client :=
    { state := rfl
      curPacketNum := rfl
      winMin := rfl
      winCur := rfl
      winMax := rfl
      winSize := rfl
      window := rfl
      reading := rfl
      file := rfl
      server := by simp [setUpWorld, Client.readyToSendDataSetup]
      sends := by simp [setUpWorld, Client.readyToSendDataSetup, Client.started] }
  server := ⟨_, rfl, .answered rfl rfl rfl rfl rfl rfl, rfl, rfl, by simp [Server.forked]⟩

theorem smallest_bufSize : 400 ≤ 400 ∧ 400 ≤ 1400 := by decide

theorem single_width : 1 < 4294967296 := by decide

theorem short_name : ([102] : Bytes).length ≤ 1000 := by decide

def letters (width : ℕ) (hwidth : width < 4294967296) : Upload where
  chunks := [[65], [66], [67]]
  width := width
  bufSize := 400
  name := [102]
  chunk_length := by decide
  bufSize_range := smallest_bufSize
  width_lt := hwidth
  name_length := short_name

/-- Packet 2 overtakes packet 1, which arrives twice. -/
def reordered : List World.Label :=
  [.client .quiet, .client .quiet, .client .quiet, .child 0 (.deliver 1), .child 0 .quiet,
    .child 0 .quiet, .child 0 (.deliver 0), .child 0 .quiet, .child 0 (.deliver 0)]

theorem upload_safe_reordered :
    ∃ s, (Runs.run World.step (setUpWorld (letters 2 (by decide))) reordered).children = [s] ∧
      Safe (letters 2 (by decide))
        (Runs.run World.step (setUpWorld (letters 2 (by decide))) reordered).client s :=
  upload_safe ⟨by decide, by decide⟩ (setUp_setUpWorld _) reordered (by decide)

end SlidingWindow.Transfer

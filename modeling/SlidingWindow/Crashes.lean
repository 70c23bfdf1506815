import SlidingWindow.Fidelity
import SlidingWindow.Recovery
import SlidingWindow.Retransmission

/-! Which sessions can end with a fault. No packet of a session stops a process that reads
it, and a child has nothing else to fail on but the packet that it frees before its last
answer. The client can be brought to resend a slot of its window that it has never filled,
which the library answers with `exit(1)`. That takes a file that leaves slots unfilled. -/
namespace SlidingWindow.Crashes

open Library Phases Transfer Underway Progress Completion Recovery Retransmission
open Fidelity (Transfers)

variable {u : Upload} {c c' : Client} {s s' : Server} {w : World} {input : Input} {fault : Fault}

def Readable (input : Input) : Prop :=
  ∀ src datagram fault, input = .datagram src datagram → recvBuf datagram ≠ .error fault

theorem recvBuf_ne_error {datagram : Datagram} (hlen : headerLen ≤ datagram.length) :
    recvBuf datagram ≠ .error fault := by
  intro hfault
  rcases recvBuf_of_header hlen with hnone | ⟨received, hsome⟩
  · simp [hnone] at hfault
  · simp [hsome] at hfault

def Framed (w : World) : Prop :=
  ∀ peer src datagram, (src, datagram) ∈ w.inbox peer → headerLen ≤ datagram.length

theorem Framed.readable (h : Framed w) (peer : Peer) (choice : World.Choice) :
    Readable (World.resolve (w.inbox peer) choice) := by
  intro src datagram fault hinput hfault
  have hoffered := World.offered_resolve (w.inbox peer) choice
  rw [hinput] at hoffered
  rcases hoffered with hmem | ⟨hcorrupt, -⟩
  · exact recvBuf_ne_error (h peer src datagram hmem) hfault
  · simp [hcorrupt] at hfault

theorem processIncomingData_faultless {src : Peer} {datagram : Datagram}
    (hread : Readable (.datagram src datagram)) (c : Client) (numSREJ : ℕ) :
    ∀ fault, c.processIncomingData src datagram numSREJ = .error fault → False := by
  intro fault h
  unfold Client.processIncomingData at h
  dsimp only at h
  split at h
  · rename_i cause hrecv
    exact hread src datagram cause rfl hrecv
  · contradiction
  · split at h
    · split at h <;> contradiction
    all_goals contradiction

theorem waitForSetupAcks_faultless (hread : Readable input) :
    ∀ fault, c.waitForSetupAcks input = .error fault → False := by
  intro fault h
  unfold Client.waitForSetupAcks at h
  dsimp only at h
  split at h
  · rename_i src datagram
    split at h
    · rename_i cause hrecv
      exact hread src datagram cause rfl hrecv
    · contradiction
    · split at h <;> contradiction
  · split at h
    · contradiction
    · split at h
      · contradiction
      · split at h <;> contradiction

theorem receiveData_faultless {src : Peer} {datagram : Datagram}
    (hread : Readable (.datagram src datagram)) :
    ∀ fault, c.receiveData src datagram = .error fault → False := by
  apply fault_of_bind
  · exact processIncomingData_faultless hread _ _
  · intro after _ fault h
    contradiction

theorem resend_fault (hring : c.Ring) {index : ℕ}
    (h : c.sendDataFromWindow index = .error fault) : fault = .emptySend := by
  obtain ⟨slot, hslot⟩ := hring.exists_slot index
  rw [hring.sendDataFromWindow hslot] at h
  split at h
  · cases h
    rfl
  · contradiction

theorem client_fault (hring : Transfers c → c.Ring) (hread : Readable input)
    (h : c.enterStateMachine input = .error fault) : fault = .emptySend := by
  cases hstate : c.state with
  | waitForSetupAcks =>
      simp only [Client.enterStateMachine, hstate] at h
      exact (waitForSetupAcks_faultless hread fault h).elim
  | sendData =>
      simp only [Client.enterStateMachine, hstate] at h
      unfold Client.sendData at h
      split at h
      · contradiction
      · contradiction
      · rw [(hring (.inl hstate)).sendChunk] at h
        contradiction
  | sendDataSREJ =>
      simp only [Client.enterStateMachine, hstate] at h
      exact resend_fault (hring (.inr (.inl hstate))) h
  | receiveDataWindowOpen =>
      simp only [Client.enterStateMachine, hstate, Client.receiveDataWindowOpen] at h
      split at h
      · exact (receiveData_faultless hread fault h).elim
      · split at h <;> contradiction
  | receiveDataWindowClosed =>
      simp only [Client.enterStateMachine, hstate, Client.receiveDataWindowClosed] at h
      split at h
      · exact (receiveData_faultless hread fault h).elim
      · split at h
        · contradiction
        · have hsame := hring (.inr (.inr (.inr (.inl hstate))))
          refine resend_fault ?_ h
          exact ⟨hsame.positive, hsame.length⟩
  | sendEofAndQuit =>
      simp only [Client.enterStateMachine, hstate, Client.sendEofAndQuit] at h
      split at h
      · exact (fault_of_bind (processIncomingData_faultless hread _ _)
          (fun _ _ _ h => by contradiction) fault h).elim
      · split at h <;> contradiction
  | _ => simp [Client.enterStateMachine, hstate] at h

theorem child_fault {top : ℕ} (hslots : u.width ≤ 255)
    (hphase : Phase u top s) (hnamed : Named u s) (hread : Readable input)
    (hfault : s.processClient input = .error fault) :
    s.state = .receivedEof ∧ fault = .useAfterFree := by
  rcases Server.fault_cases hfault with ⟨src, datagram, -, hinput, hrecv⟩ | ⟨hstate, hname⟩ |
    ⟨hstate, hloop⟩ | ⟨hstate, hdata⟩ | ⟨hstate, -, hfreed⟩
  · exact absurd hrecv (hread src datagram fault hinput)
  · simp [hnamed (.inr (.inr hstate))] at hname
  · have hsize := (hphase.allocating_of hstate).1
    simp [DataPhase.readyForDataPacketSetup_eq (hsize ▸ hslots)] at hloop
  · obtain ⟨receiver, hreceives, number, data, hpacket, hgenuine⟩ := hphase.processing_of hstate
    obtain ⟨after, hafter, -⟩ := ServerWindow.receivedData_spec hreceives.stable hpacket
      (Nat.lt_succ_of_le hgenuine.le_length)
    simp [hafter] at hdata
  · exact ⟨hstate, hfreed⟩

/-- A client that has not read its whole file resends what it has sent. -/
structure Solvent (c : Client) : Prop where
  rejected : c.state = .sendDataSREJ →
    c.doneTransmitting = true ∨ 1 ≤ c.numSREJ ∧ c.numSREJ ≤ c.winCur
  closed : c.state = .receiveDataWindowClosed →
    c.doneTransmitting = true ∨ c.winMin < c.winCur
  ends : c.state = .sendEofAndQuit → c.doneTransmitting = true
  width : c.winMin < c.winMax

theorem Solvent.congr (h : Solvent c) (hmin : c'.winMin = c.winMin) (hmax : c'.winMax = c.winMax)
    (hrejected : c'.state ≠ .sendDataSREJ)
    (hclosed : c'.state = .receiveDataWindowClosed →
      c'.doneTransmitting = true ∨ c'.winMax ≤ c'.winCur)
    (hends : c'.state = .sendEofAndQuit → c'.doneTransmitting = true) : Solvent c' where
  rejected hstate := absurd hstate hrejected
  closed hstate := by
    have hwidth := h.width
    rcases hclosed hstate with hdone | hfull
    · exact .inl hdone
    · exact .inr (by omega)
  ends := hends
  width := by rw [hmin, hmax]; exact h.width

theorem Solvent.turn (hcountable : u.Countable) (hupload : Sender.Uploading u c) (h : Solvent c)
    (hreads : ClientReads c s (Complete u s) input) (hle : s.curRRnum ≤ c.winCur + 1)
    (hturn : Client.Turn c input c') : Solvent c' := by
  have hpositive := hcountable.positive
  have hcur := hupload.winCur_le
  cases hturn with
  | halted => exact h
  | fileEnded => exact h.congr rfl rfl (by simp) (fun _ => .inl rfl) (by simp)
  | sent state chunk rest file =>
      have hafter := Client.sentChunk_state c chunk rest
      refine h.congr rfl rfl (by grind) (fun hstate => ?_) (by grind)
      exact closed_of_afterSend hstate
  | resent source =>
      rename_i before index slot held filled
      obtain ⟨timeout, rfl⟩ := Client.resending?_frame source
      have hafter := Client.resent_state { c with timeout := timeout } slot
      refine h.congr rfl rfl (by grind) (fun hstate => ?_) (by grind)
      exact closed_of_afterSend hstate
  | polled state =>
      refine h.congr rfl rfl (by grind) (fun hstate => .inr ?_) (by grind)
      dsimp only at hstate
      grind
  | eofUnanswered state =>
      refine h.congr rfl rfl (by grind) (fun hstate => ?_) (fun _ => h.ends state)
      dsimp only at hstate
      grind
  | corrupted listens =>
      obtain ⟨seqNum, trace, rfl⟩ := Client.listening?_frame listens
      refine h.congr rfl rfl (by simp only [Client.heard]; grind) (fun hstate => ?_)
        (by simp only [Client.heard]; grind)
      exact @closed_of_heard { c with seqNum := seqNum, trace := trace } _ hstate
  | acknowledged listens accepted flag =>
      obtain ⟨number, hfield, hlower, -, hmin, hmax⟩ :=
        hreads.acknowledged hcountable hcur hle accepted flag
      have hsize := hupload.winSize
      obtain ⟨seqNum, trace, rfl⟩ := Client.listening?_frame listens
      refine ⟨fun hstate => ?_, fun hstate => ?_, fun hstate => ?_, ?_⟩
      · simp only [Client.acknowledged] at hstate
        grind
      · simp only [Client.acknowledged] at hstate
        grind
      · simp only [Client.acknowledged] at hstate ⊢
        grind
      · simp only [Client.acknowledged, Client.heard, hfield, hsize, hmin, hmax]
        omega
  | rejected listens accepted flag =>
      obtain ⟨hlower, hsent⟩ := hreads.rejected hcountable hcur accepted flag
      have hends := h.ends
      obtain ⟨seqNum, trace, rfl⟩ := Client.listening?_frame listens
      refine ⟨fun _ => ?_, by simp, by simp, h.width⟩
      simp only [Client.heard, Client.noteSREJ]
      split
      · exact .inl (hends (by assumption))
      · exact .inr ⟨hlower, Nat.le_of_lt hsent⟩
  | crashed listens | ended listens =>
      obtain ⟨seqNum, trace, rfl⟩ := Client.listening?_frame listens
      exact h.congr rfl rfl (by simp) (by simp) (by simp)
  | _ => exact h.congr rfl rfl (by simp) (by simp) (by simp)

theorem Solvent.filled (hlong : u.width ≤ u.chunks.length) (hupload : Sender.Uploading u c)
    (h : Solvent c) {before : Client} {index : ℕ} {slot : BufferChunk}
    (hsource : c.resending? input = some (before, index))
    (hslot : c.window[index % c.winSize]? = some slot) : slot.len ≠ 0 := by
  have hpending : c.doneTransmitting = true ∨ index < c.winCur := by
    rcases Client.resending?_eq_some hsource with ⟨-, rfl, hstate⟩ | ⟨-, rfl, hstate, -⟩
    · rcases h.rejected hstate with hdone | ⟨hlower, hupper⟩
      · exact .inl hdone
      · rw [sub32_of_le hlower]
        exact .inr (by omega)
    · exact h.closed hstate
  have hsent : index % u.width < c.winCur := by
    rcases hpending with hdone | hlt
    · have hended := hupload.ended hdone
      rw [hupload.file, List.drop_eq_nil_iff] at hended
      have := Nat.mod_lt index hupload.positive
      omega
    · exact Nat.lt_of_le_of_lt (Nat.mod_le index u.width) hlt
  obtain ⟨found, number, hfound, hstored, -⟩ := hupload.stored hsent
  rw [hupload.slot?_eq, hupload.winSize, Nat.mod_mod] at hfound
  rw [hupload.winSize, hfound] at hslot
  cases hslot
  exact hstored.filled

theorem transfers_of_step (htransfer : c.inTransfer) (h : Transfers (c.step input)) : Transfers c := by
  by_contra hlive
  have hstopped : c.state = .timeoutOnServer ∨ c.state = .done ∨ c.state = .exited := by
    unfold Client.inTransfer at htransfer
    unfold Transfers at hlive
    tauto
  rcases hstopped with hstate | hhalted
  · have hstep : c.step input = c.timeoutOnServer := by
      apply Client.step_of_ok
      simp only [Client.enterStateMachine, hstate]
    rw [hstep] at h
    simp [Transfers, Client.timeoutOnServer] at h
  · rw [Client.step_halted hhalted] at h
    exact hlive h

theorem ring_of_transfers (hphase : ClientPhase u c) (hlive : Transfers c) : c.Ring := by
  cases hphase with
  | preparing prepare =>
      have hstate := prepare.state
      unfold Transfers at hlive
      unfold Client.inSetup at hstate
      grind
  | uploading upload => exact upload.ring

theorem solvent_step (hcountable : u.Countable) (hphase : ClientPhase u c)
    (h : Transfers c → Solvent c) (hreads : ClientReads c s (Complete u s) input)
    (hle : s.curRRnum ≤ c.winCur + 1) (hlive : Transfers (c.step input)) :
    Solvent (c.step input) := by
  rcases hphase.turns input with ⟨hprepare, -, hturn⟩ | ⟨hsame, -⟩ | ⟨hupload, hturn⟩
  · rcases hprepare.turn_cases hturn with hafter | ⟨-, hready⟩
    · have hstate := hafter.state
      unfold Transfers at hlive
      unfold Client.inSetup at hstate
      grind
    · have hpositive := hcountable.positive
      have hsize := hprepare.winSize
      rw [hready]
      refine ⟨by simp [Client.readyToSendDataSetup], by simp [Client.readyToSendDataSetup],
        by simp [Client.readyToSendDataSetup], ?_⟩
      change 0 < c.winSize
      omega
  · rw [hsame] at hlive ⊢
    exact h hlive
  · exact (h (transfers_of_step hupload.transfer hlive)).turn hcountable hupload hreads hle hturn

theorem alive_step (hlong : u.width ≤ u.chunks.length) (hphase : ClientPhase u c)
    (h : Transfers c → Solvent c) (hread : Readable input) (halive : c.state ≠ .exited) :
    (c.step input).state ≠ .exited := by
  rcases hphase.turns input with ⟨-, -, hturn⟩ | ⟨hsame, -⟩ | ⟨hupload, hturn⟩
  · generalize c.step input = c' at hturn ⊢
    cases hturn with
    | crashed state runt => exact absurd runt (hread _ _ _ rfl)
    | unanswered state =>
        simp only [Client.unansweredState]
        grind
    | answered state =>
        unfold Client.answered
        grind
    | corrupted state => simp [state]
    | _ => simp [Client.sendRemoteFileName, Client.sendBufferSize, Client.sendWindowSize,
        Client.sendSetup, Client.readyToSendDataSetup]
  · rwa [hsame]
  · generalize c.step input = c' at hturn ⊢
    cases hturn with
    | halted => exact halive
    | sent state chunk rest =>
        rcases Client.sentChunk_state c chunk rest with hopen | hclosed <;> simp [*]
    | resent =>
        rename_i before index slot _ _ _
        rcases Client.resent_state before slot with hopen | hclosed <;> simp [*]
    | emptySlot source held empty =>
        have hlive : Transfers c := by
          rcases Client.resending?_eq_some source with ⟨-, -, hstate⟩ | ⟨-, -, hstate, -⟩
          · exact .inr (.inl hstate)
          · exact .inr (.inr (.inr (.inl hstate)))
        exact absurd empty ((h hlive).filled hlong hupload source held)
    | crashed listens runt => exact absurd runt (hread _ _ _ rfl)
    | polled | eofUnanswered | corrupted | acknowledged =>
        simp only [Client.heard, Client.acknowledged]
        grind
    | _ => simp

/-- The turn meets no fault, but for the client that resends an empty slot and the child
that writes its last answer into a packet it has freed. -/
def Sound (w : World) : World.Label → Prop
  | .client choice => ∀ fault,
      w.client.enterStateMachine (World.resolve (w.inbox .rcopy) choice) = .error fault →
        fault = .emptySend
  | .child index choice => ∀ s, w.children[index]? = some s → ∀ fault,
      s.processClient (World.resolve (w.inbox (.child index)) choice) = .error fault →
        s.state = .receivedEof ∧ fault = .useAfterFree
  | .main choice => Readable (World.resolve (w.inbox .main) choice)

theorem alone_or_carries (h : Reached u w) : Calling u w ∨ ∃ s, Carries u w s ∧ Named u s := by
  rcases h with hcalling | ⟨s, hgreeting⟩ | ⟨s, hconnected⟩
  · exact .inl hcalling
  · exact .inr ⟨s, hgreeting.toCarries, hgreeting.named⟩
  · exact .inr ⟨s, hconnected.toCarries, hconnected.named⟩

theorem phase_of_reached (h : Reached u w) : ClientPhase u w.client := by
  rcases alone_or_carries h with hcalling | ⟨s, hcarries, -⟩
  · exact hcalling.phase
  · exact hcarries.pair.phase

theorem framed_of_reached (h : Reached u w) : Framed w := by
  intro peer src datagram hmem
  rcases alone_or_carries h with hcalling | ⟨s, hcarries, -⟩
  · rcases World.mem_inbox.mp hmem with ⟨-, hsent⟩ | ⟨index, child, hchild, -, -⟩
    · exact (hcalling.sends _ _ hsent).2.length.1
    · simp [hcalling.children] at hchild
  · rcases World.mem_inbox.mp hmem with ⟨-, hsent⟩ | ⟨index, child, hchild, -, hsent⟩
    · exact (hcarries.pair.sends _ _ hsent).2.length.1
    · obtain rfl := only_child hcarries.children hchild
      exact (hcarries.pair.serving.sends _ _ hsent).2.length.1

theorem sound_of_reached (hslots : u.width ≤ 255) (h : Reached u w) (label : World.Label) :
    Sound w label := by
  have hframed := framed_of_reached h
  cases label with
  | client choice =>
      intro fault hfault
      exact client_fault (ring_of_transfers (phase_of_reached h)) (hframed.readable _ _) hfault
  | child index choice =>
      intro child hchild fault hfault
      rcases alone_or_carries h with hcalling | ⟨s, hcarries, hnamed⟩
      · simp [hcalling.children] at hchild
      · obtain rfl := only_child hcarries.children hchild
        exact child_fault hslots hcarries.pair.serving.phase hnamed (hframed.readable _ _)
          hfault
  | main choice => exact hframed.readable _ _

structure Backed (u : Upload) (w : World) : Prop where
  reached : Reached u w
  solvent : Transfers w.client → Solvent w.client

theorem backed_session (u : Upload) : Backed u (session u) where
  reached := .inl (calling_session u)
  solvent hlive := by simp [Transfers, session, World.start, Client.started] at hlive

theorem Backed.client_step (hcountable : u.Countable) (h : Backed u w) (choice : World.Choice)
    (hlive : Transfers (w.step (.client choice)).client) :
    Solvent (w.step (.client choice)).client := by
  have hphase := phase_of_reached h.reached
  rcases alone_or_carries h.reached with hcalling | ⟨s, hcarries, -⟩
  · have hquiet := hcalling.quiet choice
    refine @solvent_step u w.client (Server.forked .rcopy []) _ hcountable hphase h.solvent ?_ ?_
      hlive
    · generalize World.resolve (w.inbox .rcopy) choice = input at hquiet ⊢
      cases input with
      | datagram src datagram => exact absurd rfl (hquiet src datagram)
      | silent => trivial
      | failure => trivial
    · exact Nat.zero_le _
  · exact solvent_step hcountable hphase h.solvent (hcarries.clientReads choice)
      hcarries.pair.curRRnum_le hlive

theorem Backed.step (hcountable : u.Countable) (h : Backed u w) {label : World.Label}
    (hone : OneChild w label) : Backed u (w.step label) := by
  refine ⟨h.reached.step hcountable hone, ?_⟩
  cases label with
  | client choice => exact h.client_step hcountable choice
  | child index choice => exact h.solvent
  | main choice =>
      rcases w.step_main choice with hsame | ⟨src, datagram, received, -, -, hfork⟩
      · rw [hsame]
        exact h.solvent
      · rw [hfork]
        exact h.solvent

theorem Backed.alive (hlong : u.width ≤ u.chunks.length) (h : Backed u w)
    (halive : w.client.state ≠ .exited) (label : World.Label) :
    (w.step label).client.state ≠ .exited := by
  cases label with
  | client choice =>
      exact alive_step hlong (phase_of_reached h.reached) h.solvent
        ((framed_of_reached h.reached).readable _ _) halive
  | child index choice => exact halive
  | main choice =>
      rcases w.step_main choice with hsame | ⟨src, datagram, received, -, -, hfork⟩
      · rwa [hsame]
      · rwa [hfork]

theorem step_corrupted {before : Client} {src : Peer} {datagram : Datagram}
    (hlistens : c.listening? = some before) (hcorrupt : recvBuf datagram = .ok none) :
    c.step (.datagram src datagram) = before.heard src := by
  have hturn := @Client.turn_listening c src datagram _ hlistens
  have hstate := Client.listening?_state hlistens
  generalize c.step (.datagram src datagram) = c' at hturn ⊢
  cases hturn with
  | corrupted listens =>
      cases hlistens.symm.trans listens
      rfl
  | crashed _ runt => simp [hcorrupt] at runt
  | acknowledged _ accepted | rejected _ accepted | ended _ accepted =>
      simp [hcorrupt] at accepted
  | resent source | emptySlot source =>
      rcases Client.resending?_eq_some source with ⟨-, -, hsrej⟩ | ⟨-, -, -, quiet⟩
      · simp [hsrej] at hstate
      · exact absurd rfl (quiet _ _)
  | expired _ quiet | polled _ quiet | eofUnanswered _ quiet => exact absurd rfl (quiet _ _)
  | halted state => grind
  | gaveUp state | fileEnded state | sent state => grind

theorem crashes_closed (h : Connected u w s)
    (hstate : w.client.state = .receiveDataWindowClosed) (htimeout : w.client.timeout = 0)
    (hempty : w.client.winCur ≤ w.client.winMin % u.width) :
    (w.step (.client .quiet)).client.state = .exited := by
  have hring := h.upload.ring
  have hslot := h.upload.fresh _ hempty (Nat.mod_lt _ h.upload.positive)
  rw [h.upload.slot?_eq, h.upload.winSize, Nat.mod_mod, ← h.upload.winSize] at hslot
  have hresend : { w.client with timeout := 1 }.sendDataFromWindow w.client.winMin =
      .error .emptySend :=
    @Client.Ring.sendDataFromWindow { w.client with timeout := 1 } ⟨hring.positive, hring.length⟩
      _ _ hslot
  have hfault : w.client.enterStateMachine .silent = .error .emptySend := by
    simp only [Client.enterStateMachine, hstate, Client.receiveDataWindowClosed, htimeout]
    exact hresend
  exact congrArg Client.state (Client.step_of_error hfault)

theorem crashes_empty (hcountable : u.Countable) (hfile : u.chunks = []) (h : Connected u w s)
    (hstate : w.client.state = .sendData) (htimeout : w.client.timeout = 0) :
    Can (fun w' => w'.client.state = .exited) w := by
  have hnone := h.upload.winCur_le
  rw [hfile, List.length_nil] at hnone
  have hread : w.client.localFile = [] := by simp [h.upload.file, hfile]
  have hclient : (w.step (.client .quiet)).client =
      { w.client with doneTransmitting := true, state := .receiveDataWindowClosed } :=
    step_fileEnd hstate hread
  have hafter := h.client_step hcountable .quiet
  refine .after (.client .quiet) trivial (.after (.client .quiet) trivial
    (.here (crashes_closed hafter ?_ ?_ ?_)))
  · rw [hclient]
  · rw [hclient]
    exact htimeout
  · rw [hclient]
    exact Nat.le_trans hnone (Nat.zero_le _)

/-- A corrupted datagram takes a client that ends the file back to its window, where
everything is acknowledged. -/
theorem crashes_concluding (hcountable : u.Countable) (hshort : u.chunks.length < u.width)
    (h : Concluding u w s) : Can (fun w' => w'.client.state = .exited) w := by
  obtain ⟨datagram, hsent⟩ := h.answered
  have hcorrupt : inCksum (List.take maxPacketLen [1]) ≠ 0 := by decide
  obtain ⟨index, hinput⟩ := World.exists_corruption
    (World.mem_inbox.mpr (.inr ⟨0, s, by rw [h.children]; rfl, rfl, hsent⟩)) hcorrupt
  have hlistens : w.client.listening? = some w.client.sentEof := by
    simp [Client.listening?, h.state]
  have hdone := h.engaged.ends h.state
  have hclient : (w.step (.client (.corrupt index [1]))).client =
      w.client.sentEof.heard (.child 0) := by
    simp only [World.step, hinput]
    exact step_corrupted hlistens (World.recvBuf_corrupted hcorrupt)
  have hafter := h.toConnected.client_step hcountable (.corrupt index [1])
  have htop := h.upload.winCur_le
  refine .after (.client (.corrupt index [1])) trivial (.after (.client .quiet) trivial
    (.here (crashes_closed hafter ?_ ?_ ?_)))
  · rw [hclient]
    simp [Client.heard, Client.sentEof, Client.send, Client.isWindowClosed, hdone]
  · rw [hclient]
    rfl
  · rw [hclient]
    change w.client.winCur ≤ w.client.winMin % u.width
    rw [h.edge, Nat.mod_eq_of_lt (by omega)]

theorem crashes_begun (hcountable : u.Countable) (hslots : u.width ≤ 255)
    (hshort : u.chunks.length < u.width) (h : Begun u w) :
    Can (fun w' => w'.client.state = .exited) w := by
  obtain ⟨s, hconnected, hstate, htimeout, hserves⟩ := h
  by_cases hfile : u.chunks = []
  · exact crashes_empty hcountable hfile hconnected hstate htimeout
  · refine (settles hcountable hslots hconnected hserves).trans ?_
    rintro settled ⟨s', hsettled, hclient, hwaits, -⟩
    have hsteady : Steady u settled := ⟨s', hsettled, .inl (hclient ▸ hstate), hwaits⟩
    refine (ends_file hcountable hslots hfile hsteady).trans ?_
    rintro ended ⟨⟨t, hended, -, hwaits⟩, heof⟩
    refine (concludes hcountable hfile hended hwaits heof).trans ?_
    rintro last ⟨t', hconcluding⟩
    exact crashes_concluding hcountable hshort hconcluding

/-- In every session with one child, nothing meets a fault but the client that resends an
empty slot and the child that answers the end of the file; and a session can come to the
former if and only if the file has fewer buffers than the window has slots. -/
theorem crashes_iff_short (hcountable : u.Countable) (hslots : u.width ≤ 255) :
    (∀ labels, Runs.Along World.step OneChild (session u) labels →
      Runs.Along World.step Sound (session u) labels) ∧
    ((∃ labels, Runs.Along World.step OneChild (session u) labels ∧
        (Runs.run World.step (session u) labels).client.state = .exited) ↔
      u.chunks.length < u.width) := by
  refine ⟨fun labels hone => ?_, ?_, fun hshort => ?_⟩
  · exact Runs.along_of_invariant (Backed u) (fun _ _ h hone => h.step hcountable hone)
      (fun _ label h _ => sound_of_reached hslots h.reached label) (backed_session u) hone
  · rintro ⟨labels, hone, hexited⟩
    by_contra hlong
    refine (Runs.run_invariant (fun w => Backed u w ∧ w.client.state ≠ .exited)
      (fun _ label h hone => ⟨h.1.step hcountable hone, h.1.alive (Nat.le_of_not_lt hlong) h.2
        label⟩) ⟨backed_session u, ?_⟩ hone).2 hexited
    simp [session, World.start, Client.started]
  · exact (calling_session u).reaches hcountable hslots (.inl rfl) fun w' hbegun =>
      crashes_begun hcountable hslots hshort hbegun

/-- The only buffer of a file fills the only slot. -/
theorem crashes_iff_short_letter :
    ¬ ∃ labels, Runs.Along World.step OneChild (session letter) labels ∧
      (Runs.run World.step (session letter) labels).client.state = .exited :=
  fun h => absurd ((crashes_iff_short ⟨by decide, by decide⟩ (by decide)).2.mp h) (by decide)

end SlidingWindow.Crashes

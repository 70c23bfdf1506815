import SlidingWindow.Setup
import SlidingWindow.Library.Reaching

/-! An upload that is under way: the client has left its setup, and it and the child can
reach each other. The network never forgets, so each packet that the client has sent can
still arrive. -/
namespace SlidingWindow.Underway

open Library Phases Transfer

variable {u : Upload} {c c' : Client} {s s' : Server} {w : World} {input : Input}

/-- The client sends to the child, and every packet of the file up to `win_cur` has been
on the network. -/
structure Engaged (u : Upload) (c : Client) : Prop where
  server : c.server = .child 0
  ends : c.state = .sendEofAndQuit → c.doneTransmitting = true
  edge : 1 ≤ c.winMax
  gauged : c.Gauged
  sent : ∀ number, 1 ≤ number → number ≤ c.winCur → ∃ seqNum chunk,
    u.Genuine c.winCur number chunk ∧
      .sent (.child 0) (numberedDatagram chunk .data seqNum number) ∈ c.trace

theorem Engaged.congr (h : Engaged u c) (hserver : c'.server = .child 0)
    (hends : c'.state = .sendEofAndQuit → c'.doneTransmitting = true) (hedge : 1 ≤ c'.winMax)
    (hgauged : c'.Gauged) (hcur : c'.winCur = c.winCur)
    (htrace : ∃ added, c'.trace = c.trace ++ added) : Engaged u c' where
  server := hserver
  ends := hends
  edge := hedge
  gauged := hgauged
  sent number hlower hupper := by
    obtain ⟨added, htrace⟩ := htrace
    rw [hcur] at hupper ⊢
    obtain ⟨seqNum, chunk, hgenuine, hsent⟩ := h.sent number hlower hupper
    exact ⟨seqNum, chunk, hgenuine, htrace ▸ List.mem_append_left added hsent⟩

theorem Engaged.sentChunk (hupload : Sender.Uploading u c) (hcount : u.chunks.length < 4294967294)
    (h : Engaged u c) {chunk : Bytes} {rest : List Bytes} (hfile : c.localFile = chunk :: rest)
    (hgauged : (c.sentChunk chunk rest).Gauged) : Engaged u (c.sentChunk chunk rest) := by
  obtain ⟨hlt, hchunk, -⟩ := hupload.next_chunk hfile
  have hcur : (c.sentChunk chunk rest).winCur = c.winCur + 1 := u32_of_lt (by omega)
  refine ⟨h.server, fun hstate => ?_, h.edge, hgauged, fun number hlower hupper => ?_⟩
  · rcases Client.sentChunk_state c chunk rest with hopen | hclosed <;> simp_all
  · rw [hcur] at hupper ⊢
    rcases Nat.lt_or_eq_of_le hupper with hold | rfl
    · obtain ⟨seqNum, data, hgenuine, hsent⟩ := h.sent number hlower (by omega)
      exact ⟨seqNum, data, hgenuine.mono (by omega), List.mem_append_left _ hsent⟩
    · refine ⟨c.seqNum, chunk, ⟨hlower, Nat.le_refl _, hchunk⟩, ?_⟩
      rw [← h.server, ← hupload.count]
      exact List.mem_append_right _ (List.mem_singleton_self _)

theorem Engaged.turn (hcountable : u.Countable) (hupload : Sender.Uploading u c)
    (h : Engaged u c) (hreads : ClientReads c s (Complete u s) input)
    (hle : s.curRRnum ≤ c.winCur + 1)
    (hsrc : ∀ src datagram, input = .datagram src datagram → src = .child 0)
    (hgauged : c'.Gauged) (hturn : Client.Turn c input c') : Engaged u c' := by
  have hcount := count_lt hcountable
  obtain ⟨added, htrace, -⟩ := @Sender.sends_turn u c c' input True hupload hcount
    (fun _ => trivial) hturn
  have hpositive := hcountable.positive
  have hedge := h.edge
  have hends := h.ends
  cases hturn with
  | halted => exact h
  | sent state chunk rest file => exact h.sentChunk hupload hcount file hgauged
  | resent source =>
      rename_i before index slot held filled
      obtain ⟨timeout, rfl⟩ := Client.resending?_frame source
      refine h.congr h.server (fun hstate => ?_) hedge hgauged rfl ⟨_, htrace⟩
      rcases Client.resent_state { c with timeout := timeout } slot with hopen | hclosed <;>
        simp_all
  | polled =>
      refine h.congr h.server (fun hstate => ?_) hedge hgauged rfl ⟨_, htrace⟩
      dsimp only at hstate
      split at hstate <;> contradiction
  | eofUnanswered state =>
      exact h.congr h.server (fun _ => hends state) hedge hgauged rfl ⟨_, htrace⟩
  | corrupted listens =>
      obtain ⟨seqNum, trace, rfl⟩ := Client.listening?_frame listens
      refine h.congr (hsrc _ _ rfl) (fun hstate => ?_) hedge hgauged rfl ⟨_, htrace⟩
      simp only [Client.heard] at hstate
      split at hstate <;> contradiction
  | acknowledged listens accepted flag =>
      obtain ⟨number, hfield, hlower, -, -, hmax⟩ :=
        hreads.acknowledged hcountable hupload.winCur_le hle accepted flag
      obtain ⟨seqNum, trace, rfl⟩ := Client.listening?_frame listens
      refine h.congr (hsrc _ _ rfl) (fun hstate => ?_) ?_ hgauged rfl ⟨_, htrace⟩
      · simp only [Client.acknowledged] at hstate
        split at hstate
        · rename_i hlast
          exact hlast.1
        · contradiction
      · simp only [Client.acknowledged, Client.heard, hfield, hupload.winSize, hmax]
        omega
  | crashed listens =>
      obtain ⟨seqNum, trace, rfl⟩ := Client.listening?_frame listens
      exact h.congr h.server (by simp) hedge hgauged rfl ⟨_, htrace⟩
  | rejected listens | ended listens =>
      obtain ⟨seqNum, trace, rfl⟩ := Client.listening?_frame listens
      exact h.congr (hsrc _ _ rfl) (by simp) hedge hgauged rfl ⟨_, htrace⟩
  | _ => exact h.congr h.server (by simp) hedge hgauged rfl ⟨_, htrace⟩

/-- The name that the child has still to copy is in the packet. -/
def Named (u : Upload) (s : Server) : Prop :=
  s.state = .start ∨ s.state = .setupClientSocket ∨ s.state = .receivedRemoteFileName →
    Server.nameOf s.recvPacket.buf = .ok u.name

structure Accepting (s : Server) : Prop where
  fileGood : s.fileGood = true
  bufGood : s.bufGood = true
  winGood : s.winGood = true

theorem nameOf_of_flag {top : ℕ} {complete : Prop} {datagram : Datagram}
    (h : u.FromClient top complete datagram) (hflag : flagOf datagram = some .fileName) :
    Server.nameOf datagram = .ok u.name := by
  cases h with
  | fileName seqNum => exact Setup.nameOf_fileName u.name_length
  | _ => simp at hflag

theorem Named.of_state (hstate : s.state ≠ .start ∧ s.state ≠ .setupClientSocket ∧
    s.state ≠ .receivedRemoteFileName) : Named u s :=
  fun h => absurd h (by simp [hstate])

theorem Named.turn {top : ℕ} {complete : Prop} (h : Named u s)
    (hreads : Reads u top complete input) (hturn : Server.Turn s input s') : Named u s' := by
  cases hturn with
  | halted => exact h
  | started state => exact fun _ => h (.inl state)
  | socketMade state => exact fun _ => h (.inr (.inl state))
  | setupRead state accepted =>
      rename_i src datagram received
      obtain ⟨-, hclient, hflag⟩ := hreads.received accepted
      intro hname
      have hfileName : received.flag = some .fileName := by
        simp only [Server.read] at hname
        unfold Server.setupState at hname
        grind
      exact nameOf_of_flag hclient (hflag ▸ hfileName)
  | dataRead =>
      refine .of_state ?_
      simp only [Server.read]
      unfold Server.dataState
      grind
  | setupUnanswered =>
      refine .of_state ?_
      dsimp only
      split <;> simp
  | corrupted state => exact .of_state (by rcases state with state | state <;> simp [state])
  | allocated state allocates =>
      obtain rfl := DataPhase.readyForDataPacketSetup_ok allocates
      exact .of_state (by simp [DataPhase.allocated])
  | delivered state delivers =>
      have hsettled := (ServerWindow.handles_of_dataTurn (Server.dataTurn delivers)).settled
      have hready : s'.state = .readyForNextDataPacket :=
        (ServerWindow.eq_of_frame Server.state (fun _ => rfl) hsettled :)
      exact .of_state (by simp [hready])
  | _ => exact .of_state (by simp [Server.acceptFileName, Server.rejectFileName,
      Server.receivedBufferSize, Server.receivedWindowSize, Server.answerEof])

theorem flags_kept (hturn : Server.Turn s input s') :
    (s.fileGood = true → s'.fileGood = true) ∧ (s.bufGood = true → s'.bufGood = true) ∧
      (s.winGood = true → s'.winGood = true) := by
  cases hturn with
  | keptOpen | opened => exact ⟨fun _ => rfl, id, id⟩
  | bufferSize => exact ⟨id, fun _ => rfl, id⟩
  | windowSize => exact ⟨id, id, fun _ => rfl⟩
  | allocated state allocates =>
      obtain rfl := DataPhase.readyForDataPacketSetup_ok allocates
      exact ⟨id, id, id⟩
  | delivered state delivers =>
      have hsettled := (ServerWindow.handles_of_dataTurn (Server.dataTurn delivers)).settled
      have hfileGood : s'.fileGood = s.fileGood :=
        (ServerWindow.eq_of_frame Server.fileGood (fun _ => rfl) hsettled :)
      have hbufGood : s'.bufGood = s.bufGood :=
        (ServerWindow.eq_of_frame Server.bufGood (fun _ => rfl) hsettled :)
      have hwinGood : s'.winGood = s.winGood :=
        (ServerWindow.eq_of_frame Server.winGood (fun _ => rfl) hsettled :)
      exact ⟨hfileGood.trans, hbufGood.trans, hwinGood.trans⟩
  | _ => exact ⟨id, id, id⟩

theorem Accepting.turn (h : Accepting s) (hturn : Server.Turn s input s') : Accepting s' := by
  obtain ⟨hfile, hbuf, hwin⟩ := flags_kept hturn
  exact ⟨hfile h.fileGood, hbuf h.bufGood, hwin h.winGood⟩

structure Connected (u : Upload) (w : World) (s : Server) : Prop extends Carries u w s where
  upload : Sender.Uploading u w.client
  engaged : Engaged u w.client
  named : Named u s
  accepting : Accepting s

theorem source_of_offered (hpair : Pair u w.client s) (hchildren : w.children = [s])
    (hoffered : World.Offered (w.inbox .rcopy) input) :
    ∀ src datagram, input = .datagram src datagram → src = .child 0 := by
  rintro src datagram rfl
  refine (World.of_offered (P := (· = .child 0)) (Q := fun _ => True)
    (fun src datagram h => ⟨?_, trivial⟩) hoffered).1
  rcases World.mem_inbox.mp h with ⟨-, hsent⟩ | ⟨index, child, hchild, rfl, -⟩
  · exact absurd rfl (hpair.sends _ _ hsent).1
  · rw [hchildren] at hchild
    obtain rfl : index = 0 := by
      by_contra hne
      rw [List.getElem?_eq_none (by simp; omega)] at hchild
      contradiction
    rfl

theorem Connected.client_step (hcountable : u.Countable) (h : Connected u w s)
    (choice : World.Choice) : Connected u (w.step (.client choice)) s := by
  have hreads := h.clientReads choice
  have hsrc := source_of_offered h.pair h.children (World.offered_resolve _ choice)
  have hturn := Client.turn h.upload.transfer h.upload.ring
    (World.resolve (w.inbox .rcopy) choice)
  refine ⟨⟨h.children, h.pair.client_step hcountable hreads⟩,
    uploading_step hcountable h.upload _, ?_, h.named, h.accepting⟩
  exact h.engaged.turn hcountable h.upload hreads h.pair.curRRnum_le hsrc
    (Client.step_gauged _ _) hturn

theorem Connected.child_step (hcountable : u.Countable) (h : Connected u w s)
    (choice : World.Choice) :
    Connected u (w.step (.child 0 choice))
      (s.step (World.resolve (w.inbox (.child 0)) choice)) := by
  have hreads := reads_of_offered h.pair h.children
    (World.offered_resolve (w.inbox (.child 0)) choice)
  have hstep : w.step (.child 0 choice) =
      { w with children := [s.step (World.resolve (w.inbox (.child 0)) choice)] } := by
    simp only [World.step, h.children]
    rfl
  rw [hstep]
  exact ⟨⟨rfl, h.pair.server_step hcountable hreads⟩, h.upload, h.engaged,
    h.named.turn hreads (s.turn _), h.accepting.turn (s.turn _)⟩

end SlidingWindow.Underway

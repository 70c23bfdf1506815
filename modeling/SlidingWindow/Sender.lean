import SlidingWindow.Messages
import SlidingWindow.ClientTurns
import SlidingWindow.Library.Ring

/-! The client as the sender of an upload: how far it has read the file, what its
ring holds, and what its turns put on the network. -/
namespace SlidingWindow.Sender

open Library

variable {u : Upload} {c c' : Client} {input : Input}

def Stored (u : Upload) (slot : BufferChunk) (number : Nat) : Prop :=
  ∃ seqNum chunk, u.chunks[number - 1]? = some chunk ∧
    slot = ⟨sendBufWithPacketNum chunk .data seqNum [] number, chunk.length + 8 + 4⟩

/-- The client between two turns of the transfer. The slots of the last `width`
packets hold them; until the ring is full the others are empty. -/
structure Uploading (u : Upload) (c : Client) : Prop where
  transfer : c.inTransfer
  ring : c.Ring
  winSize : c.winSize = u.width
  count : c.curPacketNum = c.winCur + 1
  file : c.localFile = u.chunks.drop c.winCur
  winCur_le : c.winCur ≤ u.chunks.length
  ended : c.doneTransmitting = true → c.localFile = []
  slots : ∀ i, i < c.winCur → c.winCur ≤ i + u.width →
    ∃ slot, Ring.slot? c.window i = some slot ∧ Stored u slot (i + 1)
  fresh : ∀ i, c.winCur ≤ i → i < u.width → Ring.slot? c.window i = some ⟨[], 0⟩

theorem Stored.filled {slot : BufferChunk} {number : Nat} (h : Stored u slot number) :
    slot.len ≠ 0 := by
  obtain ⟨seqNum, chunk, -, rfl⟩ := h
  simp

theorem Stored.fromClient {slot : BufferChunk} {top number : Nat} {complete : Prop}
    (h : Stored u slot number) (hpositive : 1 ≤ number) (hle : number ≤ top) :
    u.FromClient top complete (sendtoErr slot.buf slot.len) := by
  obtain ⟨seqNum, chunk, hchunk, rfl⟩ := h
  exact .data seqNum number chunk ⟨hpositive, hle, hchunk⟩

section Slots

theorem Uploading.length (h : Uploading u c) : c.window.length = u.width := by
  rw [h.ring.length, h.winSize]

theorem Uploading.positive (h : Uploading u c) : 0 < u.width :=
  h.winSize ▸ h.ring.positive

theorem Uploading.slot?_eq (h : Uploading u c) (index : Nat) :
    Ring.slot? c.window index = c.window[index % c.winSize]? := by
  rw [Ring.slot?, h.length, h.winSize]

theorem Uploading.stored (h : Uploading u c) {i : Nat} (hlt : i < c.winCur) :
    ∃ slot number, Ring.slot? c.window i = some slot ∧ Stored u slot number ∧
      i < number ∧ number ≤ c.winCur := by
  have hpositive := h.positive
  -- the last lap before `win_cur`
  have hdiv := Nat.div_add_mod (c.winCur - 1 - i) u.width
  have hmod := Nat.mod_lt (c.winCur - 1 - i) hpositive
  obtain ⟨slot, hslot, hstored⟩ :=
    h.slots (i + u.width * ((c.winCur - 1 - i) / u.width)) (by omega) (by omega)
  refine ⟨slot, _, ?_, hstored, by omega, by omega⟩
  rw [← hslot, Ring.slot?, Ring.slot?, h.length, Nat.add_mul_mod_self_left]

theorem Uploading.slot_cases (h : Uploading u c) (index : Nat) :
    ∃ slot, Ring.slot? c.window index = some slot ∧
      (slot = ⟨[], 0⟩ ∨ ∃ number, Stored u slot number ∧ 1 ≤ number ∧ number ≤ c.winCur) := by
  have hlt := Nat.mod_lt index h.positive
  have hsame : Ring.slot? c.window index = Ring.slot? c.window (index % u.width) := by
    rw [Ring.slot?, Ring.slot?, h.length, Nat.mod_mod]
  rw [hsame]
  by_cases hsent : index % u.width < c.winCur
  · obtain ⟨slot, number, hslot, hstored, hlower, hupper⟩ := h.stored hsent
    exact ⟨slot, hslot, .inr ⟨number, hstored, by omega, hupper⟩⟩
  · exact ⟨_, h.fresh _ (Nat.le_of_not_lt hsent) hlt, .inl rfl⟩

end Slots

theorem Uploading.congr (h : Uploading u c) (htransfer : c'.inTransfer) (hring : c'.Ring)
    (hsize : c'.winSize = c.winSize) (hcount : c'.curPacketNum = c.curPacketNum)
    (hcur : c'.winCur = c.winCur) (hfile : c'.localFile = c.localFile)
    (hwindow : c'.window = c.window)
    (hended : c'.doneTransmitting = true → c'.localFile = []) : Uploading u c' where
  transfer := htransfer
  ring := hring
  winSize := hsize.trans h.winSize
  count := by rw [hcount, hcur, h.count]
  file := by rw [hfile, hcur, h.file]
  winCur_le := hcur ▸ h.winCur_le
  ended := hended
  slots := by rw [hcur, hwindow]; exact h.slots
  fresh := by rw [hcur, hwindow]; exact h.fresh

theorem Uploading.next_chunk (h : Uploading u c) {chunk : Bytes} {rest : List Bytes}
    (hfile : c.localFile = chunk :: rest) :
    c.winCur < u.chunks.length ∧ u.chunks[c.winCur]? = some chunk ∧
      u.chunks.drop (c.winCur + 1) = rest := by
  have hdrop : u.chunks.drop c.winCur = chunk :: rest := h.file ▸ hfile
  have hchunk : u.chunks[c.winCur]? = some chunk := by
    rw [← Nat.add_zero c.winCur, ← List.getElem?_drop, hdrop]
    rfl
  refine ⟨(List.getElem?_eq_some_iff.mp hchunk).1, hchunk, ?_⟩
  rw [← List.drop_drop, hdrop]
  rfl

theorem Uploading.sentChunk (h : Uploading u c) (hcount : u.chunks.length < 4294967294)
    {chunk : Bytes} {rest : List Bytes} (hfile : c.localFile = chunk :: rest)
    (htransfer : (c.sentChunk chunk rest).inTransfer) :
    Uploading u (c.sentChunk chunk rest) := by
  obtain ⟨hlt, hchunk, hrest⟩ := h.next_chunk hfile
  have hcur : u32 (c.winCur + 1) = c.winCur + 1 := u32_of_lt (by omega)
  have hnext : u32 (c.curPacketNum + 1) = c.curPacketNum + 1 := by
    rw [h.count]
    exact u32_of_lt (by omega)
  have hwindow : (c.sentChunk chunk rest).window = Ring.store c.window c.winCur
      (c.nextPacket chunk) := by
    rw [Ring.store, h.ring.length]
    rfl
  have hlength := h.length
  have hpositive := h.positive
  have hwinCur : (c.sentChunk chunk rest).winCur = c.winCur + 1 := hcur
  refine
    { transfer := htransfer
      ring := ⟨h.ring.positive, (List.length_set ..).trans h.ring.length⟩
      winSize := h.winSize
      count := by rw [hwinCur, ← h.count]; exact hnext
      file := by rw [hwinCur, hrest]; rfl
      winCur_le := by omega
      ended := fun hdone => ?_
      slots := ?_
      fresh := ?_ }
  · have := h.ended hdone
    rw [hfile] at this
    contradiction
  · intro i hlow hlap
    rw [hwinCur] at hlow hlap
    rw [hwindow]
    by_cases hnew : i = c.winCur
    · rw [hnew, Ring.slot?_store_self (by omega)]
      refine ⟨_, rfl, c.seqNum, chunk, hchunk, ?_⟩
      rw [← h.count]
      rfl
    · obtain ⟨slot, hslot, hstored⟩ := h.slots i (by omega) (by omega)
      refine ⟨slot, ?_, hstored⟩
      rw [Ring.slot?_store_of_gt (by omega) (by omega), hslot]
  · intro i hlow hwidth
    rw [hwinCur] at hlow
    rw [hwindow, Ring.slot?_store_of_lt (by omega) (by omega)]
    exact h.fresh i (by omega) hwidth

theorem Uploading.turn (h : Uploading u c) (hcount : u.chunks.length < 4294967294)
    (hturn : Client.Turn c input c') : Uploading u c' := by
  have htransfer := hturn.inTransfer h.transfer
  have hring := hturn.ring h.ring
  have hended := h.ended
  cases hturn with
  | fileEnded state file => exact h.congr htransfer hring rfl rfl rfl rfl rfl fun _ => file
  | sent state chunk rest file => exact h.sentChunk hcount file htransfer
  | resent source =>
      obtain ⟨timeout, rfl⟩ := Client.resending?_frame source
      exact h.congr htransfer hring rfl rfl rfl rfl rfl hended
  | crashed listens | corrupted listens | acknowledged listens | rejected listens
  | ended listens =>
      obtain ⟨seqNum, trace, rfl⟩ := Client.listening?_frame listens
      exact h.congr htransfer hring rfl rfl rfl rfl rfl hended
  | _ => exact h.congr htransfer hring rfl rfl rfl rfl rfl hended

theorem winCur_le_turn (h : Uploading u c) (hcount : u.chunks.length < 4294967294)
    (hturn : Client.Turn c input c') : c.winCur ≤ c'.winCur := by
  cases hturn with
  | sent =>
      have := h.winCur_le
      have hcur : u32 (c.winCur + 1) = c.winCur + 1 := u32_of_lt (by omega)
      change c.winCur ≤ u32 (c.winCur + 1)
      omega
  | resent source =>
      obtain ⟨timeout, rfl⟩ := Client.resending?_frame source
      exact Nat.le_refl _
  | crashed listens | corrupted listens | acknowledged listens | rejected listens
  | ended listens =>
      obtain ⟨seqNum, trace, rfl⟩ := Client.listening?_frame listens
      exact Nat.le_refl _
  | _ => exact Nat.le_refl _

theorem sends_turn {complete : Prop} (h : Uploading u c)
    (hcount : u.chunks.length < 4294967294)
    (heof : c.state = .sendEofAndQuit → complete) (hturn : Client.Turn c input c') :
    ∃ added, c'.trace = c.trace ++ added ∧
      ∀ event ∈ added, ∃ datagram, event = .sent c.server datagram ∧
        u.FromClient c'.winCur complete datagram := by
  have hquiet {trace : Trace} (htrace : trace = c.trace) :
      ∃ added, trace = c.trace ++ added ∧ ∀ event ∈ added, ∃ datagram,
        event = .sent c.server datagram ∧ u.FromClient c'.winCur complete datagram :=
    ⟨[], by rw [htrace, List.append_nil], by simp⟩
  have hended (hstate : c.state = .sendEofAndQuit) : ∀ event ∈ [Event.sent c.server
      (plainDatagram [] .endOfFile c.seqNum)], ∃ datagram, event = .sent c.server datagram ∧
        u.FromClient c'.winCur complete datagram := by
    simp only [List.mem_singleton, forall_eq]
    exact ⟨_, rfl, .endOfFile c.seqNum (heof hstate)⟩
  have hlistening {before : Client} {trace : Trace} (hlistens : c.listening? = some before)
      (htrace : trace = before.trace) :
      ∃ added, trace = c.trace ++ added ∧ ∀ event ∈ added, ∃ datagram,
        event = .sent c.server datagram ∧ u.FromClient c'.winCur complete datagram := by
    rcases Client.listening?_eq_some hlistens with ⟨rfl, -⟩ | ⟨rfl, hstate⟩
    · exact hquiet htrace
    · exact ⟨_, htrace, hended hstate⟩
  cases hturn with
  | sent state chunk rest file =>
      obtain ⟨hlt, hchunk, -⟩ := h.next_chunk file
      have hcur : (c.sentChunk chunk rest).winCur = c.winCur + 1 := u32_of_lt (by omega)
      refine ⟨_, rfl, ?_⟩
      simp only [List.mem_singleton, forall_eq]
      rw [hcur, h.count]
      exact ⟨_, rfl, .data c.seqNum _ chunk ⟨by omega, Nat.le_refl _, hchunk⟩⟩
  | resent source held filled =>
      rename_i before index slot
      have hsent : u.FromClient c.winCur complete (sendtoErr slot.buf slot.len) := by
        obtain ⟨found, hfound, hcases⟩ := h.slot_cases index
        rw [h.slot?_eq, held] at hfound
        cases hfound
        rcases hcases with rfl | ⟨number, hstored, hlower, hupper⟩
        · exact absurd rfl filled
        · exact hstored.fromClient hlower hupper
      obtain ⟨timeout, rfl⟩ := Client.resending?_frame source
      refine ⟨_, rfl, ?_⟩
      simp only [List.mem_singleton, forall_eq]
      exact ⟨_, rfl, hsent⟩
  | eofUnanswered state => exact ⟨_, rfl, hended state⟩
  | crashed listens | corrupted listens | acknowledged listens | rejected listens
  | ended listens =>
      exact hlistening listens rfl
  | _ => exact hquiet rfl

end SlidingWindow.Sender

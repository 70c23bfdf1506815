import SlidingWindow.Storage
import SlidingWindow.Framing

/-! The copies that the server makes out of the packets it accepts. Only the checksum is
tested before, so a packet may be shorter than the fields that are read from it. -/
namespace SlidingWindow.Bounds

open Library

variable {s s' : Server} {input : Input} {chunk : BufferChunk}

/-- A copy out of the `received` bytes of a packet, into a buffer of `room` bytes. -/
structure Copy where
  received : ℕ
  offset : ℕ
  count : ℕ
  room : ℕ
  deriving DecidableEq

def Copy.Within (copy : Copy) : Prop :=
  copy.offset + copy.count ≤ copy.received ∧ copy.count ≤ copy.room

instance (copy : Copy) : Decidable copy.Within := inferInstanceAs (Decidable (_ ∧ _))

def headerCopy (packet : Bytes) : Copy := ⟨packet.length, 0, headerLen, headerLen⟩

def packetCopy (packet : Bytes) : Copy := ⟨packet.length, 0, packet.length, maxPacketLen⟩

def fieldCopy (packet : Bytes) : Copy := ⟨packet.length, headerLen, 4, 4⟩

def nameCopy (packet : Bytes) : Copy :=
  ⟨packet.length, headerLen + 4, fieldOf packet, u32 (fieldOf packet + 1)⟩

def payloadCopy (chunk : BufferChunk) : Copy :=
  ⟨chunk.buf.length, headerLen + 4, sub32 chunk.len (headerLen + 4 + 1), maxPacketLen⟩

/-- The chunks whose payload may be extracted in this turn: the packet, when it is due, and
all that it may release from the ring. -/
def parsed (s : Server) : List BufferChunk :=
  if s.state = .receivedData ∧ (s.hasSREJ = true ∧ fieldOf s.recvPacket.buf = s.numSREJ ∨
      fieldOf s.recvPacket.buf = s.curRRnum) then
    s.recvPacket :: s.window.filter fun chunk => chunk.len ≠ unusedLen
  else []

def copies (s : Server) (input : Input) : List Copy :=
  match s.state, input with
  | .readyForNextSetupPacket, .datagram _ datagram
  | .readyForNextDataPacket, .datagram _ datagram =>
      let packet := datagram.take maxPacketLen
      if inCksum packet = 0 then [headerCopy packet, packetCopy packet] else []
  | .receivedRemoteFileName, _ => [fieldCopy s.recvPacket.buf, nameCopy s.recvPacket.buf]
  | .receivedBufferSize, _ | .receivedWindowSize, _ => [fieldCopy s.recvPacket.buf]
  | .receivedData, _ => fieldCopy s.recvPacket.buf :: (parsed s).map payloadCopy
  | _, _ => []

structure ParsedWithin (s : Server) (input : Input) : Prop where
  copies : ∀ copy ∈ copies s input, copy.Within
  name : s.state = .receivedRemoteFileName → fieldOf s.recvPacket.buf + 1 < 4294967296
  payload : ∀ chunk ∈ parsed s, headerLen + 4 + 1 ≤ chunk.len ∧ chunk.len ≤ maxPacketLen
  written : ∀ data ∈ (s.step input).trace.writes.drop s.trace.writes.length,
    ∃ chunk ∈ parsed s, data = payloadOf chunk.buf
  faultless : ∀ fault, s.processClient input = .error fault → fault = .divideByZero ∨
    fault = .diverges ∨ s.state = .receivedEof ∧ fault = .useAfterFree

/-- A data packet that is only answered: it is old, or outside the window. -/
def Skipped (s : Server) (number : ℕ) : Prop :=
  ¬ (s.hasSREJ = true ∧ number = s.numSREJ) ∧ number ≠ s.curRRnum ∧
    (number < s.curRRnum ∨ s.isInWindow number = false)

instance (s : Server) (number : ℕ) : Decidable (Skipped s number) :=
  inferInstanceAs (Decidable (_ ∧ _ ∧ _))

def dataNeeded (s : Server) (packet : Bytes) : ℕ :=
  if Skipped s (fieldOf packet) then headerLen + 4 else headerLen + 4 + 1

def needed (s : Server) (packet : Bytes) : ℕ :=
  match s.state, flagOf packet with
  | .readyForNextSetupPacket, some .fileName => headerLen + 4 + fieldOf packet
  | .readyForNextSetupPacket, some .bufferSize
  | .readyForNextSetupPacket, some .windowSize => headerLen + 4
  | .readyForNextSetupPacket, some .data =>
      if s.fileGood ∧ s.bufGood ∧ s.winGood then dataNeeded (DataPhase.allocated s) packet
      else headerLen
  | .readyForNextDataPacket, some .data => dataNeeded s packet
  | _, _ => headerLen

def LongEnough (s : Server) : Input → Prop
  | .datagram _ datagram =>
      s.waits → inCksum (datagram.take maxPacketLen) = 0 →
        needed s (datagram.take maxPacketLen) ≤ (datagram.take maxPacketLen).length
  | _ => True

instance (s : Server) : (input : Input) → Decidable (LongEnough s input)
  | .datagram _ _ => inferInstanceAs (Decidable (_ ∨ _ → _ = _ → _ ≤ _))
  | .silent => inferInstanceAs (Decidable True)
  | .failure => inferInstanceAs (Decidable True)

structure Parseable (chunk : BufferChunk) : Prop where
  lower : headerLen + 4 + 1 ≤ chunk.len
  upper : chunk.len ≤ maxPacketLen
  received : chunk.len = chunk.buf.length

theorem Parseable.fileData (h : Parseable chunk) :
    Server.fileData chunk = .ok (payloadOf chunk.buf) := by
  apply ServerWindow.IsPacket.fileData
  exact ⟨h.lower, h.upper, rfl, by rw [payloadOf, h.received]⟩

theorem Parseable.within (h : Parseable chunk) : (payloadCopy chunk).Within := by
  have hlower := h.lower
  have hupper := h.upper
  have hreceived := h.received
  simp only [payloadCopy, Copy.Within, sub32_of_le hlower]
  omega

structure Ring (window : List BufferChunk) (winSize : ℕ) : Prop where
  length : window.length = winSize
  chunks : ∀ chunk ∈ window, chunk.len ≠ unusedLen → Parseable chunk

theorem mem_of_mem_free {window : List BufferChunk} {index : ℕ} {freed : BufferChunk}
    (h : chunk ∈ window.set index { freed with len := unusedLen })
    (hused : chunk.len ≠ unusedLen) : chunk ∈ window := by
  rcases List.mem_or_eq_of_mem_set h with hmem | rfl
  · exact hmem
  · exact absurd rfl hused

theorem ring_faults :
    Server.RingFaults Ring fun fault => fault = .divideByZero ∨ fault = .diverges where
  slot s pos fault h hfault := by
    unfold Server.slotIndex at hfault
    split at hfault
    · cases hfault
      exact .inl rfl
    · rename_i hpositive
      have hlength := h.length
      have hlt := Nat.mod_lt pos (Nat.pos_of_ne_zero hpositive)
      rw [if_neg (by omega)] at hfault
      contradiction
  chunk window winSize chunk fault h hmem hused hfault := by
    rw [(h.chunks chunk hmem hused).fileData] at hfault
    contradiction
  free window winSize index freed h := by
    refine ⟨by simpa using h.length, fun chunk hmem hused => ?_⟩
    exact h.chunks chunk (mem_of_mem_free hmem hused) hused
  fuel := .inr rfl

theorem mem_parsed_recvPacket (hnonempty : parsed s ≠ []) : s.recvPacket ∈ parsed s := by
  unfold parsed at hnonempty ⊢
  split at hnonempty
  · rename_i hdue
    rw [if_pos hdue]
    exact List.mem_cons_self
  · contradiction

theorem mem_parsed_window (hnonempty : parsed s ≠ []) (hmem : chunk ∈ s.window)
    (hused : chunk.len ≠ unusedLen) : chunk ∈ parsed s := by
  unfold parsed at hnonempty ⊢
  split at hnonempty
  · rename_i hdue
    rw [if_pos hdue]
    apply List.mem_cons_of_mem
    simpa using ⟨hmem, hused⟩
  · contradiction

/-- While the packet of `s` is handled, up to `s'`: the slots hold packets that can be
parsed, and nothing but payloads of parsed packets has been written. -/
structure Handling (s s' : Server) : Prop where
  length : s'.window.length = s.window.length
  chunks : ∀ chunk ∈ s'.window, chunk.len ≠ unusedLen →
    Parseable chunk ∧ (parsed s ≠ [] → chunk ∈ parsed s)
  writes : ∃ written : List Bytes, s'.trace.writes = s.trace.writes ++ written ∧
    ∀ data ∈ written, ∃ chunk ∈ parsed s, data = payloadOf chunk.buf

theorem Ring.handling (h : Ring s.window s.winSize) : Handling s s where
  length := rfl
  chunks chunk hmem hused :=
    ⟨h.chunks chunk hmem hused, fun hnonempty => mem_parsed_window hnonempty hmem hused⟩
  writes := ⟨[], (List.append_nil _).symm, by simp⟩

theorem Handling.wrote {t : Server} (h : Handling s s') (hmem : chunk ∈ parsed s)
    (htrace : t.trace = s'.trace ++ [.wrote (payloadOf chunk.buf)])
    (hlength : t.window.length = s'.window.length)
    (hkept : ∀ chunk ∈ t.window, chunk.len ≠ unusedLen → chunk ∈ s'.window) :
    Handling s t where
  length := hlength.trans h.length
  chunks other hother hused := h.chunks other (hkept other hother hused) hused
  writes := by
    obtain ⟨written, hwrites, hpayload⟩ := h.writes
    refine ⟨written ++ [payloadOf chunk.buf], by simp [htrace, hwrites], ?_⟩
    intro data hdata
    rcases List.mem_append.mp hdata with hbefore | hlast
    · exact hpayload data hbefore
    · exact ⟨chunk, hmem, List.mem_singleton.mp hlast⟩

theorem Handling.flushed {t : Server} {fuel pos next : ℕ} (h : Handling s s')
    (hdue : parsed s ≠ []) (hflush : s'.flushFrom fuel pos = .ok (t, next)) :
    Handling s t := by
  have hkept := Server.flushFrom_keeps (fun _ t => Handling s t) 0 ?_ h hflush
  · obtain ⟨-, -, hlast⟩ := hkept
    exact hlast
  · intro _ t index chunk data hkept hslot hused hdata
    obtain ⟨hparse, hparsed⟩ := hkept.chunks chunk (Server.mem_of_used hslot hused) hused
    cases hparse.fileData.symm.trans hdata
    refine hkept.wrote (hparsed hdue) rfl ?_ ?_
    · simp [Server.advance, Server.free, Server.log]
    · exact fun _ hmem hused => mem_of_mem_free hmem hused

theorem Handling.parked (h : Handling s s') (hparse : Parseable s.recvPacket) (index : ℕ) :
    Handling s { s' with window := s'.window.set index s.recvPacket } where
  length := by simpa using h.length
  chunks chunk hmem hused := by
    rcases List.mem_or_eq_of_mem_set hmem with hbefore | rfl
    · exact h.chunks chunk hbefore hused
    · exact ⟨hparse, mem_parsed_recvPacket⟩
  writes := h.writes

theorem Handling.quiet {t : Server} (h : Handling s s') (hwindow : t.window = s'.window)
    (htrace : t.trace.writes = s'.trace.writes) : Handling s t where
  length := hwindow ▸ h.length
  chunks := hwindow ▸ h.chunks
  writes := htrace ▸ h.writes

theorem Handling.sent (h : Handling s s') (flag : Flag) :
    Handling s (s'.sendResponse flag) :=
  h.quiet rfl (by simp [Server.sendResponse, Server.log])

theorem Handling.answered (h : Handling s s') (number : ℕ) :
    Handling s (s'.sendRRorSREJ number) := by
  unfold Server.sendRRorSREJ
  split
  · exact h.sent .rr
  · split
    · exact (h.sent .srej).quiet rfl rfl
    · exact h

theorem Handling.rejected (h : Handling s s') : Handling s s'.sendSREJonce := by
  unfold Server.sendSREJonce
  split
  · exact (h.sent .srej).quiet rfl rfl
  · exact h

def Fits (s : Server) : Prop :=
  dataNeeded s s.recvPacket.buf ≤ s.recvPacket.buf.length ∧
    s.recvPacket.buf.length ≤ maxPacketLen ∧ s.recvPacket.len = s.recvPacket.buf.length

theorem Fits.parseable (h : Fits s) (hneeded : ¬ Skipped s (fieldOf s.recvPacket.buf)) :
    Parseable s.recvPacket := by
  obtain ⟨hlower, hupper, hlen⟩ := h
  rw [dataNeeded, if_neg hneeded, ← hlen] at hlower
  exact ⟨hlower, hlen ▸ hupper, hlen⟩

theorem Fits.parseable_due (h : Fits s)
    (hdue : s.hasSREJ = true ∧ fieldOf s.recvPacket.buf = s.numSREJ ∨
      fieldOf s.recvPacket.buf = s.curRRnum) : Parseable s.recvPacket := by
  apply h.parseable
  rintro ⟨hsrej, hexpected, -⟩
  exact hdue.elim hsrej hexpected

theorem handling_receivedData (hring : Ring s.window s.winSize) (hfits : Fits s)
    (hstate : s.state = .receivedData) (h : s.receivedData = .ok s') : Handling s s' := by
  cases Server.dataTurn h with
  | @delivered flushed data hasSREJ next due copied flushes =>
      have hdue : parsed s ≠ [] := by
        rw [parsed, if_pos ⟨hstate, due⟩]
        exact List.cons_ne_nil _ _
      cases (hfits.parseable_due due).fileData.symm.trans copied
      have hdelivering : Handling s (s.delivering (payloadOf s.recvPacket.buf) hasSREJ) :=
        hring.handling.wrote (mem_parsed_recvPacket hdue) rfl rfl fun _ hmem _ => hmem
      exact (hdelivering.flushed hdue flushes).answered next
  | @repeated flag => exact (hring.handling.sent flag).quiet rfl rfl
  | @parked index early inWindow =>
      have hneeded : ¬ Skipped s (fieldOf s.recvPacket.buf) := by
        rintro ⟨-, -, hold | houtside⟩
        · omega
        · rw [inWindow] at houtside
          contradiction
      have hparked := hring.handling.parked (hfits.parseable hneeded) index
      apply Handling.rejected
      exact hparked.quiet rfl rfl
  | outside =>
      apply Handling.rejected
      exact hring.handling.quiet rfl rfl

theorem receivedData_fault {fault : Fault} (hring : Ring s.window s.winSize) (hfits : Fits s)
    (hfault : s.receivedData = .error fault) :
    fault = .divideByZero ∨ fault = .diverges := by
  apply ring_faults.receivedData hring _ fault hfault
  intro hdue cause hcause
  rw [(hfits.parseable_due hdue).fileData] at hcause
  contradiction

/-- The packet in the buffer has the bytes that the state of the server reads from it, and
the ring holds packets that can be parsed. -/
structure Sized (s : Server) : Prop where
  upper : s.recvPacket.buf.length ≤ maxPacketLen
  name : s.state = .start ∨ s.state = .setupClientSocket ∨
      s.state = .receivedRemoteFileName →
    headerLen + 4 + fieldOf s.recvPacket.buf ≤ s.recvPacket.buf.length
  size : s.state = .receivedBufferSize ∨ s.state = .receivedWindowSize →
    headerLen + 4 ≤ s.recvPacket.buf.length
  first : s.state = .readyForDataPacketsSetup → Fits (DataPhase.allocated s)
  data : s.state = .receivedData → Fits s
  ring : s.state = .readyForNextDataPacket ∨ s.state = .receivedData →
    Ring s.window s.winSize

theorem ring_allocated (s : Server) : Ring (DataPhase.allocated s).window s.winSize := by
  refine ⟨by simp [DataPhase.allocated], fun chunk hmem hused => absurd ?_ hused⟩
  rw [List.eq_of_mem_replicate hmem]

theorem LongEnough.needed {src : Peer} {datagram : Datagram} {received : Received}
    (h : LongEnough s (.datagram src datagram)) (hwaits : s.waits)
    (haccepted : recvBuf datagram = .ok (some received)) :
    received.packet.length ≤ maxPacketLen ∧ received.flag = flagOf received.packet ∧
      needed s received.packet ≤ received.packet.length := by
  obtain ⟨hpacket, hflag⟩ := recvBuf_eq_some haccepted
  have hcksum : inCksum (datagram.take maxPacketLen) = 0 := by
    by_contra hcorrupt
    simp [recvBuf, hcorrupt] at haccepted
  refine ⟨DataPhase.length_packet_le haccepted, hpacket ▸ hflag, ?_⟩
  rw [hpacket]
  exact h hwaits hcksum

def Idle (s : Server) : Prop :=
  s.state = .readyForNextSetupPacket ∨ s.state = .receivedEof ∨ s.state = .timeoutOnClient ∨
    s.state = .done ∨ s.state = .exited ∨ s.state = .hung

theorem Idle.sized (h : Idle s) (hupper : s.recvPacket.buf.length ≤ maxPacketLen) :
    Sized s := by
  unfold Idle at h
  constructor
  · exact hupper
  all_goals
    intro hstate
    grind

theorem sized_setupRead {src : Peer} {datagram : Datagram} {received : Received}
    (hstate : s.state = .readyForNextSetupPacket)
    (haccepted : recvBuf datagram = .ok (some received))
    (hlong : LongEnough s (.datagram src datagram)) :
    Sized (s.read src received (s.setupState received.flag)) := by
  obtain ⟨hupper, hflag, hneeded⟩ := hlong.needed (.inl hstate) haccepted
  unfold needed at hneeded
  rw [hstate, ← hflag] at hneeded
  unfold Server.setupState
  split
  · rename_i hname
    rw [hname] at hneeded
    exact ⟨hupper, fun _ => hneeded, by simp [Server.read], by simp [Server.read],
      by simp [Server.read], by simp [Server.read]⟩
  · rename_i hsize
    rw [hsize] at hneeded
    exact ⟨hupper, by simp [Server.read], fun _ => hneeded, by simp [Server.read],
      by simp [Server.read], by simp [Server.read]⟩
  · rename_i hsize
    rw [hsize] at hneeded
    exact ⟨hupper, by simp [Server.read], fun _ => hneeded, by simp [Server.read],
      by simp [Server.read], by simp [Server.read]⟩
  · rename_i hdata
    rw [hdata] at hneeded
    dsimp only at hneeded
    split
    · rename_i hgood
      rw [if_pos hgood] at hneeded
      exact ⟨hupper, by simp [Server.read], by simp [Server.read],
        fun _ => ⟨hneeded, hupper, rfl⟩, by simp [Server.read], by simp [Server.read]⟩
    · exact Idle.sized (.inl rfl) hupper
  · exact Idle.sized (.inl rfl) hupper

theorem sized_dataRead {src : Peer} {datagram : Datagram} {received : Received}
    (h : Sized s) (hstate : s.state = .readyForNextDataPacket)
    (haccepted : recvBuf datagram = .ok (some received))
    (hlong : LongEnough s (.datagram src datagram)) :
    Sized (s.read src received (Server.dataState received.flag)) := by
  obtain ⟨hupper, hflag, hneeded⟩ := hlong.needed (.inr hstate) haccepted
  have hring := h.ring (.inl hstate)
  unfold needed at hneeded
  rw [hstate, ← hflag] at hneeded
  unfold Server.dataState
  split
  · rename_i hdata
    rw [hdata] at hneeded
    exact ⟨hupper, by simp [Server.read], by simp [Server.read], by simp [Server.read],
      fun _ => ⟨hneeded, hupper, rfl⟩, fun _ => ⟨hring.length, hring.chunks⟩⟩
  · exact Idle.sized (.inr (.inl rfl)) hupper
  · exact ⟨hupper, by simp [Server.read], by simp [Server.read], by simp [Server.read],
      by simp [Server.read], fun _ => ⟨hring.length, hring.chunks⟩⟩

theorem sized_turn (h : Sized s) (hlong : LongEnough s input)
    (hturn : Server.Turn s input s') : Sized s' := by
  have hupper := h.upper
  cases hturn with
  | halted => exact h
  | started state => exact ⟨hupper, fun _ => h.name (.inl state), by simp, by simp, by simp, by simp⟩
  | socketMade state =>
      exact ⟨hupper, fun _ => h.name (.inr (.inl state)), by simp, by simp, by simp, by simp⟩
  | keptOpen | opened | bufferSize | windowSize => exact Idle.sized (.inl rfl) hupper
  | gaveUp | refused | ended => exact Idle.sized (.inr (.inr (.inr (.inl rfl)))) hupper
  | badName | undelivered | aborted | crashed =>
      exact Idle.sized (.inr (.inr (.inr (.inr (.inl rfl))))) hupper
  | diverged | stuck => exact Idle.sized (.inr (.inr (.inr (.inr (.inr rfl))))) hupper
  | dataUnanswered => exact Idle.sized (.inr (.inr (.inl rfl))) (Nat.zero_le _)
  | setupUnanswered =>
      refine Idle.sized ?_ hupper
      unfold Idle
      grind
  | corrupted state =>
      rcases state with hsetup | hdata
      · exact Idle.sized (.inl hsetup) (Nat.zero_le _)
      · have hring := h.ring (.inl hdata)
        exact ⟨Nat.zero_le _, by simp [hdata], by simp [hdata], by simp [hdata],
          by simp [hdata], fun _ => ⟨hring.length, hring.chunks⟩⟩
  | allocated state allocates =>
      rw [DataPhase.readyForDataPacketSetup_ok allocates]
      exact ⟨hupper, by simp [DataPhase.allocated], by simp [DataPhase.allocated],
        by simp [DataPhase.allocated], fun _ => h.first state, fun _ => ring_allocated s⟩
  | delivered state delivers =>
      have hframe := (ServerWindow.handles_of_dataTurn (Server.dataTurn delivers)).settled
      have hstate := ServerWindow.eq_of_frame Server.state (fun _ => rfl) hframe
      have hsize := ServerWindow.eq_of_frame Server.winSize (fun _ => rfl) hframe
      have hpacket := ServerWindow.eq_of_frame Server.recvPacket (fun _ => rfl) hframe
      have hring := h.ring (.inr state)
      have hhandling := handling_receivedData hring (h.data state) state delivers
      have hring' : Ring s'.window s'.winSize := by
        refine ⟨?_, fun chunk hmem hused => (hhandling.chunks chunk hmem hused).1⟩
        rw [hhandling.length, hring.length, hsize]
      refine ⟨hpacket ▸ hupper, ?_, ?_, ?_, ?_, fun _ => hring'⟩
      all_goals simp [hstate]
  | setupRead state accepted => exact sized_setupRead state accepted hlong
  | dataRead state accepted => exact sized_dataRead h state accepted hlong

theorem headerLen_le_needed (s : Server) (packet : Bytes) : headerLen ≤ needed s packet := by
  have hdata (t : Server) : headerLen ≤ dataNeeded t packet := by
    unfold dataNeeded
    split <;> simp [headerLen]
  unfold needed
  split
  · omega
  · omega
  · omega
  · split
    · exact hdata _
    · exact Nat.le_refl _
  · exact hdata s
  · exact Nat.le_refl _

theorem LongEnough.header {src : Peer} {datagram : Datagram}
    (h : LongEnough s (.datagram src datagram)) (hwaits : s.waits)
    (hcksum : inCksum (datagram.take maxPacketLen) = 0) :
    headerLen ≤ (datagram.take maxPacketLen).length :=
  (headerLen_le_needed s _).trans (h hwaits hcksum)

theorem LongEnough.readable {src : Peer} {datagram : Datagram} {fault : Fault}
    (h : LongEnough s (.datagram src datagram)) (hwaits : s.waits) :
    recvBuf datagram ≠ .error fault := by
  unfold recvBuf
  dsimp only
  split
  · simp
  · rename_i hcksum
    have := h.header hwaits (not_not.mp hcksum)
    rw [if_neg (by omega)]
    simp

theorem Sized.parseable (h : Sized s) (hmem : chunk ∈ parsed s) : Parseable chunk := by
  unfold parsed at hmem
  split at hmem
  · rename_i hdue
    rcases List.mem_cons.mp hmem with rfl | hslot
    · exact (h.data hdue.1).parseable_due hdue.2
    · obtain ⟨hwindow, hused⟩ := List.mem_filter.mp hslot
      exact (h.ring (.inr hdue.1)).chunks chunk hwindow (by simpa using hused)
  · contradiction

theorem Sized.field (h : Sized s)
    (hstate : s.state = .receivedRemoteFileName ∨ s.state = .receivedBufferSize ∨
      s.state = .receivedWindowSize ∨ s.state = .receivedData) :
    (fieldCopy s.recvPacket.buf).Within := by
  have hlower : headerLen + 4 ≤ s.recvPacket.buf.length := by
    rcases hstate with hname | hsize | hsize | hdata
    · have := h.name (.inr (.inr hname))
      omega
    · exact h.size (.inl hsize)
    · exact h.size (.inr hsize)
    · have hneeded := (h.data hdata).1
      unfold dataNeeded at hneeded
      split at hneeded <;> omega
  exact ⟨hlower, Nat.le_refl _⟩

theorem Sized.name_lt (h : Sized s) (hstate : s.state = .receivedRemoteFileName) :
    fieldOf s.recvPacket.buf + 1 < 4294967296 := by
  have hname := h.name (.inr (.inr hstate))
  have hupper := h.upper
  simp only [maxPacketLen] at hupper
  omega

theorem LongEnough.within {src : Peer} {datagram : Datagram}
    (h : LongEnough s (.datagram src datagram)) (hwaits : s.waits) :
    ∀ copy ∈ (if inCksum (datagram.take maxPacketLen) = 0 then
      [headerCopy (datagram.take maxPacketLen), packetCopy (datagram.take maxPacketLen)]
        else []), copy.Within := by
  split
  · rename_i hcksum
    have hheader := h.header hwaits hcksum
    rintro copy hcopy
    rcases List.mem_pair.mp hcopy with rfl | rfl
    · exact ⟨(Nat.zero_add _).trans_le hheader, Nat.le_refl _⟩
    · exact ⟨Nat.le_of_eq (Nat.zero_add _), List.length_take_le _ _⟩
  · simp

theorem Sized.within (h : Sized s) (hlong : LongEnough s input) :
    ∀ copy ∈ copies s input, copy.Within := by
  intro copy hcopy
  unfold copies at hcopy
  split at hcopy
  · rename_i hstate
    exact hlong.within (.inl hstate) copy hcopy
  · rename_i hstate
    exact hlong.within (.inr hstate) copy hcopy
  · rename_i hstate
    rcases List.mem_pair.mp hcopy with rfl | rfl
    · exact h.field (.inl hstate)
    · refine ⟨h.name (.inr (.inr hstate)), ?_⟩
      rw [nameCopy, u32_of_lt (h.name_lt hstate)]
      exact Nat.le_succ _
  · rename_i hstate
    rw [List.mem_singleton.mp hcopy]
    exact h.field (.inr (.inl hstate))
  · rename_i hstate
    rw [List.mem_singleton.mp hcopy]
    exact h.field (.inr (.inr (.inl hstate)))
  · rename_i hstate
    rcases List.mem_cons.mp hcopy with rfl | hpayload
    · exact h.field (.inr (.inr (.inr hstate)))
    · obtain ⟨chunk, hmem, rfl⟩ := List.mem_map.mp hpayload
      exact (h.parseable hmem).within
  · contradiction

theorem Sized.written (h : Sized s) (input : Input) :
    ∀ data ∈ (s.step input).trace.writes.drop s.trace.writes.length,
      ∃ chunk ∈ parsed s, data = payloadOf chunk.buf := by
  obtain ⟨added, htrace, -, hdue⟩ := Truncation.turn_adds (s.turn input)
  rw [htrace, Trace.writes_append, List.drop_left]
  intro data hdata
  have hstate : s.state = .receivedData := (hdue (List.ne_nil_of_mem hdata)).1
  cases hdelivers : s.receivedData with
  | error fault =>
      have hfault : s.processClient input = .error fault := by
        simp only [Server.processClient, hstate, hdelivers]
      rw [Server.step_of_error hfault] at htrace
      rw [List.self_eq_append_right.mp htrace] at hdata
      contradiction
  | ok s' =>
      rw [DataPhase.step_receivedData hstate hdelivers] at htrace
      obtain ⟨written, hwrites, hpayload⟩ :=
        (handling_receivedData (h.ring (.inr hstate)) (h.data hstate) hstate hdelivers).writes
      rw [htrace, Trace.writes_append] at hwrites
      exact hpayload data (List.append_cancel_left hwrites ▸ hdata)

theorem nameOf_ok {packet : Bytes} (hlen : headerLen + 4 + fieldOf packet ≤ packet.length)
    (hupper : packet.length ≤ maxPacketLen) : ∃ name, Server.nameOf packet = .ok name := by
  unfold Server.nameOf
  dsimp only
  rw [if_neg (by omega)]
  exact ⟨_, rfl⟩

theorem Sized.faultless (h : Sized s) (hlong : LongEnough s input) {fault : Fault}
    (hfault : s.processClient input = .error fault) :
    fault = .divideByZero ∨ fault = .diverges ∨
      s.state = .receivedEof ∧ fault = .useAfterFree := by
  rcases Server.fault_cases hfault with ⟨src, datagram, hwaits, rfl, hrecv⟩ |
    ⟨hstate, hname⟩ | ⟨-, hloop⟩ | ⟨hstate, hdata⟩ | ⟨hstate, -, hfreed⟩
  · exact absurd hrecv (hlong.readable hwaits)
  · obtain ⟨name, hcopied⟩ := nameOf_ok (h.name (.inr (.inr hstate))) h.upper
    rw [hcopied] at hname
    contradiction
  · exact .inr (.inl (Server.readyForDataPacketSetup_fault hloop))
  · exact (receivedData_fault (h.ring (.inr hstate)) (h.data hstate) hdata).imp_right .inl
  · exact .inr (.inr ⟨hstate, hfreed⟩)

theorem Sized.parsedWithin (h : Sized s) (hlong : LongEnough s input) :
    ParsedWithin s input where
  copies := h.within hlong
  name := h.name_lt
  payload _ hmem := ⟨(h.parseable hmem).lower, (h.parseable hmem).upper⟩
  written := h.written input
  faultless _ hfault := h.faultless hlong hfault

/-- Along every run of a child, all turns stay within the packets that they parse, when
every packet that is accepted, the one that `main` forks for included, has the bytes of the
fields that are read from it. -/
theorem parsed_within (client : Peer) (first : Datagram) (inputs : List Input)
    (hfirst : headerLen + 4 + fieldOf (first.take maxPacketLen) ≤
      (first.take maxPacketLen).length)
    (hlong : Runs.Along Server.step LongEnough
      (Server.forked client (first.take maxPacketLen)) inputs) :
    Runs.Along Server.step ParsedWithin
      (Server.forked client (first.take maxPacketLen)) inputs := by
  apply Runs.along_of_invariant Sized _ _ _ hlong
  · intro s input h hlong
    exact sized_turn h hlong (s.turn input)
  · intro s input h hlong
    exact h.parsedWithin hlong
  · exact ⟨List.length_take_le _ _, fun _ => hfirst, by simp [Server.forked],
      by simp [Server.forked], by simp [Server.forked], by simp [Server.forked]⟩

def namePacket : Datagram := plainDatagram (htonl 1 ++ [102]) .fileName 1

def endingInputs : List Input :=
  [.silent, .datagram .rcopy (plainDatagram [] .endOfFile 5), .silent]

theorem parsed_within_letter :
    Runs.Along Server.step ParsedWithin (Server.forked .rcopy (namePacket.take maxPacketLen))
      (Storage.letterInputs ++ endingInputs) :=
  parsed_within .rcopy namePacket (Storage.letterInputs ++ endingInputs)
    (by decide +kernel) (by decide +kernel)

def namePastEnd : Datagram := plainDatagram (htonl 1000 ++ [102]) .fileName 1

/-- A data packet without the pad byte that every sender adds. -/
def dataWithoutPad : Datagram := [0, 0, 0, 4, 253, 251, 1, 0, 0, 0, 1]

/-- Two bytes that pass the checksum. -/
def runt : Datagram := [255, 255]

/-- The name is copied from behind the packet, the length of the data wraps below zero, and
the type of the runt is not in the packet; all three are accepted. -/
theorem short_packets_overrun :
    inCksum namePastEnd = 0 ∧ inCksum dataWithoutPad = 0 ∧ inCksum runt = 0 ∧
      ¬ Runs.Along Server.step ParsedWithin (Server.forked .rcopy namePastEnd)
        ([.silent, .silent] ++ [.silent]) ∧
      ¬ Runs.Along Server.step ParsedWithin (Server.forked .rcopy namePacket)
        (Storage.letterInputs.take 7 ++ [.datagram .rcopy dataWithoutPad, .silent] ++
          [.silent]) ∧
      ¬ Runs.Along Server.step ParsedWithin (Server.forked .rcopy namePacket)
        ([.silent, .silent, .silent] ++ [.datagram .rcopy runt]) := by
  refine ⟨by decide +kernel, by decide, by decide, ?_, ?_, ?_⟩
  · intro h
    have hwithin := (Runs.along_append.mp h).2.1.copies (nameCopy namePastEnd)
      (by decide +kernel)
    revert hwithin
    decide +kernel
  · intro h
    have hlower := ((Runs.along_append.mp h).2.1.payload ⟨dataWithoutPad, 11⟩
      (by decide +kernel)).1
    revert hlower
    decide +kernel
  · intro h
    have hwithin := (Runs.along_append.mp h).2.1.copies (headerCopy runt)
      (by decide +kernel)
    revert hwithin
    decide

end SlidingWindow.Bounds

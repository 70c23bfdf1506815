import SlidingWindow.Truncation

/-! The results of `write`. The server prints a message when one fails and goes on, so
what it acknowledges is what it has handed to `write`. -/
namespace SlidingWindow.Storage

open Library

variable {s s' : Server} {input : Input}

structure Passed (s s' : Server) (count : ℕ) : Prop where
  writes : s'.trace.writes.length = s.trace.writes.length + count
  next : s'.curRRnum = u32 (s.curRRnum + count)

theorem Passed.refl (hlt : s.curRRnum < 4294967296) : Passed s s 0 :=
  ⟨rfl, (u32_of_lt hlt).symm⟩

theorem Passed.delivered {t : Server} {count : ℕ} (h : Passed s s' count)
    (hwrites : t.trace.writes.length = s'.trace.writes.length + 1)
    (hnext : t.curRRnum = u32 (s'.curRRnum + 1)) : Passed s t (count + 1) where
  writes := by rw [hwrites, h.writes, Nat.add_assoc]
  next := by
    rw [hnext, h.next]
    simp only [u32]
    omega

theorem Passed.sendResponse {count : ℕ} (h : Passed s s' count) (flag : Flag) :
    Passed s (s'.sendResponse flag) count :=
  ⟨by simpa [Server.sendResponse, Server.log] using h.writes, h.next⟩

theorem Passed.sendRRorSREJ {count : ℕ} (h : Passed s s' count) (number : ℕ) :
    Passed s (s'.sendRRorSREJ number) count := by
  have hsent (flag : Flag) := h.sendResponse flag
  unfold Server.sendRRorSREJ
  split
  · exact hsent .rr
  · split
    · exact ⟨(hsent .srej).writes, h.next⟩
    · exact h

theorem Passed.sendSREJonce {count : ℕ} (h : Passed s s' count) :
    Passed s s'.sendSREJonce count := by
  unfold Server.sendSREJonce
  split
  · exact ⟨(h.sendResponse .srej).writes, h.next⟩
  · exact h

structure Counted (s : Server) : Prop where
  next : s.curRRnum < 4294967296
  slots : s.state = .readyForNextDataPacket ∨ s.state = .receivedData → s.winSize ≤ 255

/-- The result of each call of `write` that a child makes, in their order: `none` is an
error, and a short write stores a prefix of its buffer. -/
abbrev Results := ℕ → Option ℕ

def stored (results : Results) : ℕ → List Bytes → Bytes
  | _, [] => []
  | k, data :: rest => data.take ((results k).getD 0) ++ stored results (k + 1) rest

def written (s s' : Server) : List Bytes := s'.trace.writes.drop s.trace.writes.length

def ahead (s : Server) (number : ℕ) : ℕ := sub32 number s.curRRnum

/-- The last two steps of a handshake, and a data packet of one byte. -/
def letterInputs : List Input :=
  [.silent, .silent, .silent, .datagram .rcopy (plainDatagram (htonl 400) .bufferSize 2),
    .silent, .datagram .rcopy (plainDatagram (htonl 1) .windowSize 3), .silent,
    .datagram .rcopy (numberedDatagram [65] .data 4 1), .silent]

end SlidingWindow.Storage

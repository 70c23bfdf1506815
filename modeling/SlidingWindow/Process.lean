import SlidingWindow.Networks

/-! What the two programs share: the peers a `Connection` can name, what the
environment offers a process in one turn, and the log of its visible actions.
A process never looks at the result of `write`, and no send of a non-empty packet
fails, so the log and the inputs determine everything outside the process. -/
namespace SlidingWindow

/-- `rcopy`, the main port of the server, and the socket of each forked child. -/
inductive Peer where
  | rcopy
  | main
  | child (index : Nat)
  deriving DecidableEq

/-- One turn of the environment. `silent`: `select` reports no data and system
calls succeed. `failure`: the `read` or `open` of this turn fails, or the allocator
finds that freed memory has been written and aborts the process. -/
inductive Input where
  | silent
  | failure
  | datagram (src : Peer) (datagram : Datagram)
  deriving DecidableEq

theorem Input.datagram_or_quiet (input : Input) :
    (∃ src datagram, input = .datagram src datagram) ∨
      ∀ src datagram, input ≠ .datagram src datagram := by
  cases input with
  | datagram src datagram => exact .inl ⟨src, datagram, rfl⟩
  | silent => exact .inr (by simp)
  | failure => exact .inr (by simp)

/-- The calls with an effect outside the process, in the order they are made.
`opened` is `open` with `O_CREAT | O_TRUNC | O_WRONLY`. -/
inductive Event where
  | opened (name : Bytes)
  | wrote (data : Bytes)
  | sent (dst : Peer) (datagram : Datagram)
  deriving DecidableEq

abbrev Trace := List Event

def Event.written? : Event → Option Bytes
  | .wrote data => some data
  | _ => none

def Event.opened? : Event → Option Bytes
  | .opened name => some name
  | _ => none

def Event.sent? : Event → Option (Peer × Datagram)
  | .sent dst datagram => some (dst, datagram)
  | _ => none

def Trace.writes (trace : Trace) : List Bytes := trace.filterMap Event.written?

def Trace.opens (trace : Trace) : List Bytes := trace.filterMap Event.opened?

def Trace.sends (trace : Trace) : List (Peer × Datagram) := trace.filterMap Event.sent?

section Trace

variable (first second : Trace) (data name : Bytes) (dst : Peer) (datagram : Datagram)

@[simp] theorem Trace.writes_nil : Trace.writes [] = [] := rfl
@[simp] theorem Trace.sends_nil : Trace.sends [] = [] := rfl

@[simp] theorem Trace.writes_append :
    Trace.writes (first ++ second) = Trace.writes first ++ Trace.writes second := by
  simp [Trace.writes]

@[simp] theorem Trace.sends_append :
    Trace.sends (first ++ second) = Trace.sends first ++ Trace.sends second := by
  simp [Trace.sends]

@[simp] theorem Trace.opens_nil : Trace.opens [] = [] := rfl

@[simp] theorem Trace.opens_append :
    Trace.opens (first ++ second) = Trace.opens first ++ Trace.opens second := by
  simp [Trace.opens]

@[simp] theorem Trace.opens_wrote : Trace.opens [.wrote data] = [] := rfl
@[simp] theorem Trace.opens_sent : Trace.opens [.sent dst datagram] = [] := rfl
@[simp] theorem Trace.opens_opened : Trace.opens [.opened name] = [name] := rfl
@[simp] theorem Trace.writes_wrote : Trace.writes [.wrote data] = [data] := rfl
@[simp] theorem Trace.writes_sent : Trace.writes [.sent dst datagram] = [] := rfl
@[simp] theorem Trace.writes_opened : Trace.writes [.opened name] = [] := rfl
@[simp] theorem Trace.sends_wrote : Trace.sends [.wrote data] = [] := rfl
@[simp] theorem Trace.sends_opened : Trace.sends [.opened name] = [] := rfl

@[simp] theorem Trace.sends_sent :
    Trace.sends [.sent dst datagram] = [(dst, datagram)] := rfl

end Trace

structure BufferChunk where
  buf : Bytes
  len : Nat
  deriving DecidableEq

def unusedLen : Nat := 4294967295

end SlidingWindow

import SlidingWindow.ServerTurns
import SlidingWindow.Library.Ring
import SlidingWindow.Library.SelectiveReject

/-! The server's ring represents a selective-reject receiver. `Represents` ties the
counters and slots to the receiver at any point of a delivery; `Stable` adds what
holds between two datagrams. Each function of the data phase then has one lemma
saying which receiver its result represents. -/
namespace SlidingWindow.ServerWindow

open Library Library.SelectiveReject

variable {width limit : ℕ}

structure IsPacket (chunk : BufferChunk) (number : ℕ) (data : Bytes) : Prop where
  lower : 12 ≤ chunk.len
  upper : chunk.len ≤ maxPacketLen
  number : fieldOf chunk.buf = number
  data : load chunk.buf 11 (chunk.len - 12) = data

theorem IsPacket.used {chunk : BufferChunk} {number : ℕ} {data : Bytes}
    (packet : IsPacket chunk number data) : chunk.len ≠ unusedLen := by
  have := packet.upper
  simp only [maxPacketLen, unusedLen] at *
  omega

theorem IsPacket.fileData {chunk : BufferChunk} {number : ℕ} {data : Bytes}
    (packet : IsPacket chunk number data) : Server.fileData chunk = .ok data := by
  have hlower := packet.lower
  have hupper := packet.upper
  simp only [maxPacketLen] at hupper
  have hlen : sub32 chunk.len (headerLen + 4 + 1) = chunk.len - 12 := sub32_of_le hlower
  simp only [Server.fileData, hlen]
  rw [if_neg (by simp only [maxPacketLen, headerLen]; omega), ← packet.data]
  rfl

def Holds (chunk : BufferChunk) (number : ℕ) : Option Bytes → Prop
  | none => chunk.len = unusedLen
  | some data => IsPacket chunk number data

/-- The counters and slots of `s` store `pending`. Numbers stay below `limit`, far
enough from the end of `uint32_t` that no counter wraps. -/
structure Represents (width limit : ℕ) (s : Server) (pending : Pending Bytes) : Prop where
  room : limit + width < 4294967296
  positive : 0 < width
  winSize : s.winSize = width
  length : s.window.length = width
  next : s.curRRnum = pending.next
  winMin : s.winMin + 1 = s.curRRnum
  winMax : s.winMax = s.winMin + width
  sound : pending.Sound width
  next_le : pending.next ≤ limit
  held_lt : ∀ n ∈ pending.held, n < limit
  slots : ∀ i, s.winMin ≤ i → i < s.winMax →
    ∃ chunk, Ring.slot? s.window i = some chunk ∧
      Holds chunk (i + 1) (pending.held.lookup (i + 1))
  writes : s.trace.writes = pending.output

def frame (s : Server) : Server :=
  { s with curRRnum := 0, winMin := 0, winCur := 0, winMax := 0, window := [], trace := [] }

theorem eq_of_frame {β : Type} {s s' : Server} (field : Server → β)
    (hfield : ∀ s, field (frame s) = field s) (h : frame s' = frame s) :
    field s' = field s := by
  rw [← hfield s', h, hfield s]

structure Delivers (s s' : Server) : Prop where
  frame : frame s' = frame s
  trace : ∃ written : List Bytes, s'.trace = s.trace ++ written.map Event.wrote

theorem Delivers.refl (s : Server) : Delivers s s := ⟨rfl, [], by simp⟩

theorem Delivers.trans {s s' s'' : Server} (first : Delivers s s')
    (second : Delivers s' s'') : Delivers s s'' := by
  obtain ⟨written, htrace⟩ := first.trace
  obtain ⟨more, hmore⟩ := second.trace
  refine ⟨second.frame.trans first.frame, written ++ more, ?_⟩
  rw [hmore, htrace, List.map_append, List.append_assoc]

section Counters

variable {s : Server} {pending : Pending Bytes}

theorem slotIndex_eq (hsize : s.winSize = width) (hlength : s.window.length = width)
    (hpos : 0 < width) (pos : ℕ) : s.slotIndex pos = .ok (pos % width) := by
  have hlt := Nat.mod_lt pos hpos
  unfold Server.slotIndex
  rw [hsize, hlength, if_neg (by omega), if_neg (by omega)]

theorem Represents.slotIndex (h : Represents width limit s pending) (pos : ℕ) :
    s.slotIndex pos = .ok (pos % width) :=
  slotIndex_eq h.winSize h.length h.positive pos

theorem Represents.position (h : Represents width limit s pending) :
    sub32 s.curRRnum 1 = s.winMin := by
  have := h.winMin
  rw [sub32_of_le (by omega)]
  omega

theorem Represents.curRRnum_lt {pending : Pending Bytes}
    (h : Represents width limit s pending) : s.curRRnum < 4294967296 := by
  have := h.next
  have := h.next_le
  have := h.room
  omega

end Counters

section Iteration

variable {s : Server} {pos : ℕ} {chunk : BufferChunk}

theorem getD_slot {default : BufferChunk} (hlength : s.window.length = width)
    (hslot : Ring.slot? s.window pos = some chunk) :
    s.window.getD (pos % width) default = chunk := by
  rw [Ring.slot?, hlength] at hslot
  rw [List.getD_eq_getElem?_getD, hslot, Option.getD_some]

theorem flushFrom_free (fuel : ℕ) (hsize : s.winSize = width)
    (hlength : s.window.length = width) (hpos : 0 < width)
    (hslot : Ring.slot? s.window pos = some chunk) (hfree : chunk.len = unusedLen) :
    s.flushFrom (fuel + 1) pos = .ok (s, u32 (pos + 1)) := by
  rw [Server.flushFrom, slotIndex_eq hsize hlength hpos]
  simp only [bind, Except.bind, getD_slot hlength hslot, if_pos hfree]
  rfl

theorem flushFrom_used (fuel : ℕ) (hsize : s.winSize = width)
    (hlength : s.window.length = width) (hpos : 0 < width)
    (hslot : Ring.slot? s.window pos = some chunk) (hused : chunk.len ≠ unusedLen)
    {data : Bytes} (hdata : Server.fileData chunk = .ok data) :
    s.flushFrom (fuel + 1) pos =
      ((s.log (.wrote data)).free (pos % width) chunk).advance.flushFrom fuel
        (u32 (pos + 1)) := by
  rw [Server.flushFrom, slotIndex_eq hsize hlength hpos]
  simp only [bind, Except.bind, getD_slot hlength hslot, if_neg hused, Server.writeData,
    hdata]
  rfl

end Iteration

section Deliver

variable {s s' : Server} {pending : Pending Bytes} {chunk : BufferChunk} {data : Bytes}
  {window : List BufferChunk}

theorem Represents.congr (h : Represents width limit s pending)
    (hsize : s'.winSize = s.winSize) (hwindow : s'.window = s.window)
    (hcur : s'.curRRnum = s.curRRnum) (hmin : s'.winMin = s.winMin)
    (hmax : s'.winMax = s.winMax) (hwrites : s'.trace.writes = s.trace.writes) :
    Represents width limit s' pending where
  room := h.room
  positive := h.positive
  winSize := hsize.trans h.winSize
  length := hwindow ▸ h.length
  next := hcur.trans h.next
  winMin := by rw [hmin, hcur, h.winMin]
  winMax := by rw [hmin, hmax, h.winMax]
  sound := h.sound
  next_le := h.next_le
  held_lt := h.held_lt
  slots := by rw [hwindow, hmin, hmax]; exact h.slots
  writes := hwrites.trans h.writes

theorem Represents.advance_eq (h : Represents width limit s pending)
    (hlt : pending.next < limit) :
    ({ s.log (.wrote data) with window := window }).advance =
      { s with
        curRRnum := s.curRRnum + 1
        winMin := s.winMin + 1
        winMax := s.winMax + 1
        winCur := u32 (s.winCur + 1)
        window := window
        trace := s.trace ++ [.wrote data] } := by
  have := h.room
  have := h.winMin
  have := h.winMax
  have := h.next
  have hcur : u32 (s.curRRnum + 1) = s.curRRnum + 1 := by simp only [u32]; omega
  have hmin : u32 (s.winMin + 1) = s.winMin + 1 := by simp only [u32]; omega
  have hmax : u32 (s.winMax + 1) = s.winMax + 1 := by simp only [u32]; omega
  simp only [Server.advance, Server.log, hcur, hmin, hmax]

theorem Represents.slide (data : Bytes) (h : Represents width limit s pending)
    (hlt : pending.next < limit) (hlength : window.length = width)
    (hfree : ∃ chunk, Ring.slot? window s.winMin = some chunk ∧ chunk.len = unusedLen)
    (hsame : ∀ i, s.winMin < i → i < s.winMax →
      Ring.slot? window i = Ring.slot? s.window i) :
    Represents width limit ({ s.log (.wrote data) with window := window }).advance
      (pending.deliver data) := by
  have hmin := h.winMin
  have hmax := h.winMax
  have hnext := h.next
  rw [h.advance_eq hlt]
  refine
    { room := h.room
      positive := h.positive
      winSize := h.winSize
      length := hlength
      next := congrArg (· + 1) hnext
      winMin := congrArg (· + 1) hmin
      winMax := by dsimp only; omega
      sound := h.sound.deliver
      next_le := hlt
      held_lt := fun n hn => h.held_lt n (Finmap.mem_erase.mp hn).2
      slots := ?_
      writes := by simp [Pending.deliver, h.writes] }
  intro i hlow hhigh
  dsimp only at hlow hhigh ⊢
  by_cases hedge : i < s.winMax
  · obtain ⟨found, hslot, hholds⟩ := h.slots i (by omega) hedge
    refine ⟨found, (hsame i (by omega) hedge).trans hslot, ?_⟩
    rwa [Pending.deliver, Finmap.lookup_erase_ne (by omega)]
  · -- the new upper edge is one lap after the freed slot
    obtain ⟨found, hslot, hunused⟩ := hfree
    have hlap : i = s.winMin + window.length := by omega
    have hnone : (pending.deliver data).held.lookup (i + 1) = none := by
      refine Finmap.lookup_eq_none.mpr fun hmem => ?_
      have := h.sound.window (i + 1) (Finmap.mem_erase.mp hmem).2
      omega
    refine ⟨found, by rw [hlap, Ring.slot?_add_length, hslot], ?_⟩
    rw [hnone]
    exact hunused

/-- The slot of the delivered packet, now free, becomes that of the new upper edge. -/
theorem Represents.deliver_slot (chunk : BufferChunk) (data : Bytes)
    (h : Represents width limit s pending)
    (hlt : pending.next < limit) :
    Represents width limit
      ((s.log (.wrote data)).free (s.winMin % width) chunk).advance
      (pending.deliver data) := by
  have hstore : s.window.set (s.winMin % width) { chunk with len := unusedLen } =
      Ring.store s.window s.winMin { chunk with len := unusedLen } := by
    rw [Ring.store, h.length]
  have hpositive : 0 < s.window.length := h.length ▸ h.positive
  refine h.slide data hlt (by simp [Server.log, h.length]) ?_ ?_
  · refine ⟨{ chunk with len := unusedLen }, ?_, rfl⟩
    exact hstore ▸ Ring.slot?_store_self hpositive
  · intro i hlow hhigh
    have hmax := h.winMax
    refine hstore ▸ Ring.slot?_store_of_lt hlow ?_
    rw [h.length]
    omega

theorem delivers_slot {index : ℕ} :
    Delivers s ((s.log (.wrote data)).free index chunk).advance where
  frame := rfl
  trace := ⟨[data], by simp [Server.advance, Server.free, Server.log]⟩

theorem delivers_flushFrom {start : Server} {fuel pos next : ℕ}
    (h : s.flushFrom fuel pos = .ok (s', next)) (hstart : Delivers start s) :
    Delivers start s' := by
  have hkept := Server.flushFrom_keeps (fun _ t => Delivers start t) 0 ?_ hstart h
  · obtain ⟨-, -, hlast⟩ := hkept
    exact hlast
  · intro _ t index chunk data hdelivers _ _ _
    exact hdelivers.trans delivers_slot

/-- The flush loop drains the receiver. Every iteration delivers one held item, so
more fuel than items is enough. -/
theorem flushFrom_spec (fuel : ℕ) (h : Represents width limit s pending)
    (hfuel : pending.held.keys.card < fuel) :
    ∃ s', Server.flushFrom fuel s s.winMin = .ok (s', s'.curRRnum) ∧
      Represents width limit s' pending.drain ∧ Delivers s s' := by
  induction fuel generalizing s pending with
  | zero => exact absurd hfuel (Nat.not_lt_zero _)
  | succ fuel ih =>
      have hroom := h.room
      have hwinMin := h.winMin
      have hnext := h.next
      have hpositive := h.positive
      have hend : u32 (s.winMin + 1) = s.curRRnum := by
        have := h.next_le
        simp only [u32]
        omega
      obtain ⟨chunk, hslot, hholds⟩ :=
        h.slots s.winMin (Nat.le_refl _) (by rw [h.winMax]; omega)
      rw [hwinMin, hnext] at hholds
      cases hlookup : pending.held.lookup pending.next with
      | none =>
          have hfree : chunk.len = unusedLen := by rwa [hlookup] at hholds
          refine ⟨s, ?_, ?_, Delivers.refl s⟩
          · rw [flushFrom_free fuel h.winSize h.length hpositive hslot hfree, hend]
          · rwa [Pending.drain_of_none hlookup]
      | some data =>
          have hpacket : IsPacket chunk pending.next data := by rwa [hlookup] at hholds
          have hlt := h.held_lt _ (Finmap.mem_of_lookup_eq_some hlookup)
          have hcard := Pending.card_deliver_lt hlookup
          have hstep := h.deliver_slot chunk data hlt
          obtain ⟨s', hflush, hdrain, hdelivers⟩ := ih hstep (by omega)
          have hmin : ((s.log (.wrote data)).free (s.winMin % width) chunk).advance.winMin =
              u32 (s.winMin + 1) := rfl
          refine ⟨s', ?_, ?_, delivers_slot.trans hdelivers⟩
          · rw [flushFrom_used fuel h.winSize h.length hpositive hslot hpacket.used
              hpacket.fileData]
            exact hmin ▸ hflush
          · rwa [Pending.drain_of_some hlookup]

theorem checkForAndWrite_spec (h : Represents width limit s pending) :
    ∃ s', s.checkForAndWriteBufferedPackets s.curRRnum = .ok (s', s'.curRRnum) ∧
      Represents width limit s' pending.drain ∧ Delivers s s' := by
  have hcard := h.sound.card_le
  unfold Server.checkForAndWriteBufferedPackets
  rw [h.position, h.winSize]
  exact flushFrom_spec _ h (Nat.lt_succ_of_le hcard)

end Deliver

def Buffered (s : Server) (number : ℕ) : Prop :=
  ∃ chunk ∈ s.window, chunk.len ≠ unusedLen ∧ fieldOf chunk.buf = number

section Occupied

variable {s : Server} {pending : Pending Bytes}

theorem Represents.slot_of_mem (h : Represents width limit s pending) {chunk : BufferChunk}
    (hmem : chunk ∈ s.window) (hused : chunk.len ≠ unusedLen) :
    ∃ n ∈ pending.held, fieldOf chunk.buf = n := by
  obtain ⟨i, hlow, hhigh, hslot⟩ := Ring.exists_position hmem s.winMin
  rw [h.length, ← h.winMax] at hhigh
  obtain ⟨found, hfound, hholds⟩ := h.slots i hlow hhigh
  obtain rfl : found = chunk := Option.some.inj (hfound.symm.trans hslot)
  cases hlookup : pending.held.lookup (i + 1) with
  | none => exact absurd (by rwa [hlookup] at hholds) hused
  | some data =>
      have hpacket : IsPacket found (i + 1) data := by rwa [hlookup] at hholds
      exact ⟨i + 1, Finmap.mem_of_lookup_eq_some hlookup, hpacket.number⟩

theorem Represents.mem_of_held (h : Represents width limit s pending) {n : ℕ}
    (hn : n ∈ pending.held) :
    ∃ chunk ∈ s.window, chunk.len ≠ unusedLen ∧ fieldOf chunk.buf = n := by
  have hmin := h.winMin
  have hmax := h.winMax
  have hnext := h.next
  have hwindow := h.sound.window n hn
  obtain ⟨chunk, hslot, hholds⟩ := h.slots (n - 1) (by omega) (by omega)
  rw [show n - 1 + 1 = n by omega] at hholds
  obtain ⟨data, hlookup⟩ := Finmap.mem_iff.mp hn
  have hpacket : IsPacket chunk n data := by rwa [hlookup] at hholds
  exact ⟨chunk, Ring.mem_of_slot? hslot, hpacket.used, hpacket.number⟩

theorem Represents.buffered_iff (h : Represents width limit s pending) {n : ℕ} :
    Buffered s n ↔ n ∈ pending.held := by
  constructor
  · rintro ⟨chunk, hmem, hused, hnumber⟩
    obtain ⟨found, hfound, heq⟩ := h.slot_of_mem hmem hused
    rwa [← hnumber, heq]
  · exact h.mem_of_held

theorem Represents.arePacketsBuffered_iff (h : Represents width limit s pending) :
    s.arePacketsBuffered = true ↔ ∃ n, Buffered s n := by
  have htake : s.window.take s.winSize = s.window := by
    rw [List.take_of_length_le]
    rw [h.length, h.winSize]
  simp only [Server.arePacketsBuffered, htake, List.any_eq_true, decide_eq_true_eq, Buffered]
  constructor
  · rintro ⟨chunk, hmem, hused⟩
    exact ⟨_, chunk, hmem, hused, rfl⟩
  · rintro ⟨n, chunk, hmem, hused, _⟩
    exact ⟨chunk, hmem, hused⟩

end Occupied

structure Stable (width limit : ℕ) (s : Server) (receiver : Receiver width Bytes) : Prop
    extends Represents width limit s receiver.toPending where
  srej : s.hasSREJ = true → s.numSREJ = s.curRRnum

/-- From `s` to `s'` the server writes, and then sends at most one response, which
carries the number it expects next. -/
def Emits (s s' : Server) (response : Option Flag) : Prop :=
  ∃ (written : List Bytes) (seqNum : ℕ), s'.trace = s.trace ++ written.map Event.wrote ++
    response.toList.map fun flag =>
      .sent s'.client (numberedDatagram [] flag seqNum s'.curRRnum)

/-- Everything a data packet `number` can make the server answer. The last branch
of `send_RR_or_SREJ` that rejects does not occur here: the flush loop returns the
value `cur_RRnum` has by then, so a gap that is left is not rejected. -/
inductive Reaction (s s' : Server) (number : ℕ) : Prop
  | acknowledged (expected : number = s.curRRnum) (emits : Emits s s' (some .rr))
      (srej : s'.hasSREJ = false) (empty : s'.arePacketsBuffered = false)
  | gap (expected : number = s.curRRnum) (emits : Emits s s' none)
      (srej : s'.hasSREJ = false) (buffered : s'.arePacketsBuffered = true)
  | repeated (old : number < s.curRRnum) (same : s'.curRRnum = s.curRRnum)
      (srej : s'.hasSREJ = s.hasSREJ)
      (buffered : s'.arePacketsBuffered = s.arePacketsBuffered)
      (emits : Emits s s' (some (if s.arePacketsBuffered then .srej else .rr)))
  | rejected (early : s.curRRnum < number) (same : s'.curRRnum = s.curRRnum)
      (fresh : s.hasSREJ = false) (srej : s'.hasSREJ = true)
      (emits : Emits s s' (some .srej))
  | awaited (early : s.curRRnum < number) (same : s'.curRRnum = s.curRRnum)
      (earlier : s.hasSREJ = true) (srej : s'.hasSREJ = true) (emits : Emits s s' none)

/-- A data packet leaves the server waiting for the next one, and changes nothing
outside the data phase. -/
def Settled (s s' : Server) : Prop :=
  frame s' = frame { s with
    state := .readyForNextDataPacket
    hasSREJ := s'.hasSREJ
    numSREJ := s'.numSREJ
    seqNum := s'.seqNum }

/-- Whatever the packet, the server settles with at most one acknowledgement or rejection,
and it writes only when the packet is due. -/
structure Handles (s s' : Server) : Prop where
  settled : Settled s s'
  emits : ∃ response, Emits s s' response ∧ ∀ flag ∈ response, flag = .rr ∨ flag = .srej
  due : s'.trace.writes ≠ s.trace.writes →
    s.hasSREJ = true ∧ fieldOf s.recvPacket.buf = s.numSREJ ∨
      fieldOf s.recvPacket.buf = s.curRRnum

section Handle

variable {s s' t : Server}

structure Unanswered (s t : Server) : Prop where
  settled : Settled s t
  trace : ∃ written : List Bytes, t.trace = s.trace ++ written.map Event.wrote
  due : t.trace.writes ≠ s.trace.writes →
    s.hasSREJ = true ∧ fieldOf s.recvPacket.buf = s.numSREJ ∨
      fieldOf s.recvPacket.buf = s.curRRnum

theorem Unanswered.quiet (h : Unanswered s t) : Handles s t := by
  obtain ⟨written, htrace⟩ := h.trace
  exact ⟨h.settled, ⟨none, ⟨written, 0, by simp [htrace]⟩, by simp⟩, h.due⟩

theorem Unanswered.sent (h : Unanswered s t) {flag : Flag} (hflag : flag = .rr ∨ flag = .srej)
    (hasSREJ : Bool) (numSREJ : ℕ) :
    Handles s { t.sendResponse flag with hasSREJ := hasSREJ, numSREJ := numSREJ } := by
  obtain ⟨written, htrace⟩ := h.trace
  refine ⟨?_, ⟨some flag, ⟨written, t.seqNum, ?_⟩, by simpa using hflag⟩, ?_⟩
  · exact congrArg (fun f : Server =>
      { f with hasSREJ := hasSREJ, numSREJ := numSREJ, seqNum := u32 (t.seqNum + 1) }) h.settled
  · simp [Server.sendResponse, Server.log, htrace]
  · simpa [Server.sendResponse, Server.log] using h.due

theorem Unanswered.sendRRorSREJ (h : Unanswered s t) (number : ℕ) :
    Handles s (t.sendRRorSREJ number) := by
  unfold Server.sendRRorSREJ
  split
  · exact h.sent (.inl rfl) t.hasSREJ t.numSREJ
  · split
    · exact h.sent (.inr rfl) _ _
    · exact h.quiet

theorem Unanswered.sendSREJonce (h : Unanswered s t) : Handles s t.sendSREJonce := by
  unfold Server.sendSREJonce
  split
  · exact h.sent (.inr rfl) _ _
  · exact h.quiet

theorem unanswered_of_trace (hsettled : Settled s t) (htrace : t.trace = s.trace) :
    Unanswered s t :=
  ⟨hsettled, ⟨[], by simp [htrace]⟩, fun hwrites => absurd (congrArg Trace.writes htrace) hwrites⟩

theorem handles_of_dataTurn (h : Server.DataTurn s s') : Handles s s' := by
  cases h with
  | @delivered flushed data hasSREJ next due copied flushes =>
      obtain ⟨hframe, written, htrace⟩ := delivers_flushFrom flushes (.refl _)
      have hunanswered : Unanswered s flushed := by
        refine ⟨?_, ⟨data :: written, ?_⟩, fun _ => due⟩
        · rw [Settled, hframe, eq_of_frame Server.hasSREJ (fun _ => rfl) hframe,
            eq_of_frame Server.numSREJ (fun _ => rfl) hframe,
            eq_of_frame Server.seqNum (fun _ => rfl) hframe]
          rfl
        · simp [htrace, Server.delivering, Server.advance, Server.log]
      exact hunanswered.sendRRorSREJ next
  | @repeated flag old answer =>
      have hunanswered : Unanswered s { s with state := .readyForNextDataPacket } :=
        unanswered_of_trace rfl rfl
      exact hunanswered.sent answer s.hasSREJ s.numSREJ
  | parked | outside =>
      apply Unanswered.sendSREJonce
      exact unanswered_of_trace rfl rfl

end Handle

section Receive

variable {s : Server} {receiver : Receiver width Bytes} {number : ℕ} {data : Bytes}

theorem Represents.isInWindow_iff (h : Represents width limit s receiver.toPending)
    (hlt : s.curRRnum < number) :
    s.isInWindow number = true ↔ number < receiver.next + width := by
  have hmin := h.winMin
  have hmax := h.winMax
  have hnext := h.next
  simp only [Server.isInWindow, decide_eq_true_eq, sub32_of_le (show 1 ≤ number by omega)]
  omega

theorem deliverAndFlush_spec (data : Bytes) (h : Represents width limit s receiver.toPending)
    (hlt : receiver.next < limit) :
    ∃ s', (s.log (.wrote data)).deliverAndFlush = .ok (s'.sendRRorSREJ s'.curRRnum) ∧
      Represents width limit s' (receiver.accept receiver.next data).toPending ∧
      Delivers s s' := by
  have hlength : (s.log (.wrote data)).window.length = width := h.length
  obtain ⟨chunk, hslot, hholds⟩ :=
    h.slots s.winMin (Nat.le_refl _) (by rw [h.winMax]; have := h.positive; omega)
  rw [h.winMin, h.next, receiver.lookup_next] at hholds
  have hslide := h.slide data hlt h.length ⟨chunk, hslot, hholds⟩ fun _ _ _ => rfl
  rw [← Receiver.arrived_eq_deliver] at hslide
  obtain ⟨s', hcheck, hdrain, hdelivers⟩ := checkForAndWrite_spec hslide
  refine ⟨s', ?_, ?_, ?_⟩
  · rw [Server.deliverAndFlush]
    exact congrArg (· >>= fun p => pure (p.1.sendRRorSREJ p.2)) hcheck
  · rwa [Receiver.accept_next]
  · refine Delivers.trans ?_ hdelivers
    exact ⟨rfl, [data], rfl⟩

theorem sendRRorSREJ_self (s : Server) :
    s.sendRRorSREJ s.curRRnum = if s.arePacketsBuffered then s else s.sendResponse .rr := by
  cases hbuffered : s.arePacketsBuffered <;> simp [Server.sendRRorSREJ, hbuffered]

theorem expected_spec (data : Bytes) (h : Represents width limit s receiver.toPending)
    (hlt : receiver.next < limit) :
    ∃ s', ({ s with state := .readyForNextDataPacket, hasSREJ := false }.log
        (.wrote data)).deliverAndFlush = .ok s' ∧
      Stable width limit s' (receiver.accept receiver.next data) ∧
      Reaction s s' s.curRRnum ∧ Settled s s' := by
  have hclear : Represents width limit
      { s with state := .readyForNextDataPacket, hasSREJ := false } receiver.toPending :=
    h.congr rfl rfl rfl rfl rfl rfl
  obtain ⟨s', hdeliver, hrep, hdelivers⟩ := deliverAndFlush_spec data hclear hlt
  obtain ⟨written, htrace⟩ := hdelivers.trace
  have hsrej : s'.hasSREJ = false :=
    (eq_of_frame Server.hasSREJ (fun _ => rfl) hdelivers.frame :)
  rw [sendRRorSREJ_self] at hdeliver
  cases hbuffered : s'.arePacketsBuffered with
  | true =>
      rw [hbuffered, if_pos rfl] at hdeliver
      refine ⟨s', hdeliver, ⟨hrep, fun hset => absurd hset (by simp [hsrej])⟩,
        .gap rfl ⟨written, 0, by simp [htrace]⟩ hsrej hbuffered, ?_⟩
      have hnum : s'.numSREJ = s.numSREJ :=
        (eq_of_frame Server.numSREJ (fun _ => rfl) hdelivers.frame :)
      have hseq : s'.seqNum = s.seqNum :=
        (eq_of_frame Server.seqNum (fun _ => rfl) hdelivers.frame :)
      rw [Settled, hdelivers.frame, hsrej, hnum, hseq]
  | false =>
      rw [hbuffered, if_neg (by decide)] at hdeliver
      refine ⟨s'.sendResponse .rr, hdeliver,
        ⟨hrep.congr rfl rfl rfl rfl rfl (by simp [Server.sendResponse, Server.log]),
          fun hset => absurd hset (by simp [Server.sendResponse, Server.log, hsrej])⟩,
        .acknowledged rfl ⟨written, s'.seqNum, ?_⟩ hsrej hbuffered, ?_⟩
      · simp [Server.sendResponse, Server.log, htrace]
      · have hnum : s'.numSREJ = s.numSREJ :=
          (eq_of_frame Server.numSREJ (fun _ => rfl) hdelivers.frame :)
        change { frame s' with seqNum := u32 (s'.seqNum + 1) } = _
        rw [hdelivers.frame]
        simp only [Server.sendResponse, Server.log, hsrej, hnum]
        rfl

theorem Represents.store (h : Represents width limit s receiver.toPending)
    {chunk : BufferChunk} (hearly : receiver.next < number)
    (hwindow : number < receiver.next + width) (hlimit : number < limit)
    (hpacket : IsPacket chunk number data) :
    Represents width limit
      { s with window := s.window.set ((number - 1) % width) chunk }
      (receiver.accept number data).toPending := by
  have hmin := h.winMin
  have hmax := h.winMax
  have hnext := h.next
  have hstore : s.window.set ((number - 1) % width) chunk =
      Ring.store s.window (number - 1) chunk := by
    rw [Ring.store, h.length]
  have hsound := (receiver.accept number data).sound
  rw [Receiver.accept_early hearly hwindow] at hsound ⊢
  refine
    { h with
      length := by simp [h.length]
      sound := hsound
      held_lt := ?_
      slots := ?_ }
  · intro n hn
    rcases Finmap.mem_insert.mp hn with rfl | hmem
    · exact hlimit
    · exact h.held_lt n hmem
  · intro i hlow hhigh
    dsimp only at hlow hhigh ⊢
    rw [hstore]
    by_cases hsame : i = number - 1
    · refine ⟨chunk, ?_, ?_⟩
      · rw [hsame, Ring.slot?_store_self (by rw [h.length]; exact h.positive)]
      · rw [show i + 1 = number by omega, Finmap.lookup_insert]
        exact hpacket
    · obtain ⟨found, hslot, hholds⟩ := h.slots i hlow hhigh
      refine ⟨found, ?_, ?_⟩
      · rw [← hslot]
        rcases Nat.lt_or_gt_of_ne hsame with hlt | hgt
        · exact Ring.slot?_store_of_gt hlt (by rw [h.length]; omega)
        · exact Ring.slot?_store_of_lt hgt (by rw [h.length]; omega)
      · rwa [Finmap.lookup_insert_of_ne _ (by omega)]

theorem sendSREJonce_spec {t : Server} (h : Represents width limit t receiver.toPending)
    (hframe : frame t = frame { s with state := .readyForNextDataPacket })
    (htrace : t.trace = s.trace) (hcur : t.curRRnum = s.curRRnum)
    (hsrej : s.hasSREJ = true → s.numSREJ = s.curRRnum) (hearly : s.curRRnum < number) :
    Stable width limit t.sendSREJonce receiver ∧ Reaction s t.sendSREJonce number ∧
      Settled s t.sendSREJonce := by
  have hset : t.hasSREJ = s.hasSREJ :=
    (eq_of_frame Server.hasSREJ (fun _ => rfl) hframe :)
  have hnum : t.numSREJ = s.numSREJ :=
    (eq_of_frame Server.numSREJ (fun _ => rfl) hframe :)
  have hseq : t.seqNum = s.seqNum :=
    (eq_of_frame Server.seqNum (fun _ => rfl) hframe :)
  unfold Server.sendSREJonce
  cases hfresh : s.hasSREJ with
  | true =>
      rw [if_neg (by simp [hset, hfresh])]
      refine ⟨⟨h, fun _ => by rw [hnum, hcur, hsrej hfresh]⟩,
        .awaited hearly hcur hfresh (hset.trans hfresh) ⟨[], 0, by simp [htrace]⟩, ?_⟩
      rw [Settled, hframe, hset, hnum, hseq]
  | false =>
      rw [if_pos (by simp [hset, hfresh])]
      refine ⟨⟨h.congr rfl rfl rfl rfl rfl ?_, fun _ => rfl⟩,
        .rejected hearly hcur hfresh rfl ⟨[], t.seqNum, ?_⟩, ?_⟩
      · simp [Server.sendSREJ, Server.sendResponse, Server.log]
      · simp [Server.sendSREJ, Server.sendResponse, Server.log, htrace]
      · change { frame t with
          hasSREJ := true, numSREJ := t.curRRnum, seqNum := u32 (t.seqNum + 1) } = _
        rw [hframe]
        rfl

theorem bufferPacket_spec (h : Stable width limit s receiver)
    (hpacket : IsPacket s.recvPacket number data) (hearly : s.curRRnum < number)
    (hlimit : number < limit) :
    ∃ s', { s with state := .readyForNextDataPacket }.bufferPacket number = .ok s' ∧
      Stable width limit s' (receiver.accept number data) ∧
      Reaction s s' number ∧ Settled s s' := by
  have hrep : Represents width limit { s with state := .readyForNextDataPacket }
      receiver.toPending := h.congr rfl rfl rfl rfl rfl rfl
  have hnext := h.next
  unfold Server.bufferPacket
  by_cases hwindow : number < receiver.next + width
  · rw [if_pos ((hrep.isInWindow_iff hearly).mpr hwindow), Server.storePacket,
      sub32_of_le (by omega), hrep.slotIndex]
    have hstore := hrep.store (by omega) hwindow hlimit hpacket
    exact ⟨_, rfl, sendSREJonce_spec hstore rfl rfl rfl h.srej hearly⟩
  · rw [if_neg (fun hin => hwindow ((hrep.isInWindow_iff hearly).mp hin)),
      Receiver.accept_outside (by omega) (fun hin => hwindow hin.2)]
    exact ⟨_, rfl, sendSREJonce_spec hrep rfl rfl rfl h.srej hearly⟩

theorem handleClientRecovery_spec (h : Stable width limit s receiver)
    (hold : number < s.curRRnum) :
    let s' := { s with state := .readyForNextDataPacket }.handleClientRecovery
    Stable width limit s' (receiver.accept number data) ∧ Reaction s s' number ∧
      Settled s s' := by
  have hnext := h.next
  have hresponse : { s with state := .readyForNextDataPacket }.handleClientRecovery =
      { s with state := .readyForNextDataPacket }.sendResponse
        (if s.arePacketsBuffered then .srej else .rr) := by
    change (if ¬ s.arePacketsBuffered = true then _ else _) = _
    cases s.arePacketsBuffered <;> rfl
  rw [hresponse, Receiver.accept_outside (by omega) (by omega)]
  refine ⟨⟨h.congr rfl rfl rfl rfl rfl ?_, h.srej⟩,
    .repeated hold rfl rfl rfl ⟨[], s.seqNum, ?_⟩, rfl⟩
  · simp [Server.sendResponse, Server.log]
  · simp [Server.sendResponse, Server.log]

/-- What one data packet does: the server never faults, its ring represents the
receiver that accepted the packet, and it answers by one of the five reactions. -/
theorem receivedData_spec (h : Stable width limit s receiver)
    (hpacket : IsPacket s.recvPacket number data) (hlimit : number < limit) :
    ∃ s', s.receivedData = .ok s' ∧
      Stable width limit s' (receiver.accept number data) ∧
      Reaction s s' number ∧ Settled s s' := by
  have hnext := h.next
  simp only [Server.receivedData, hpacket.number]
  by_cases hexpected : number = s.curRRnum
  · have hnumber : number = receiver.next := hexpected.trans hnext
    obtain ⟨s', hdeliver, hrest⟩ := expected_spec data h.toRepresents (by omega)
    rw [← hnumber, ← hexpected] at hrest
    refine ⟨s', ?_, hrest⟩
    cases hsrej : s.hasSREJ with
    | true =>
        rw [if_pos ⟨rfl, hexpected.trans (h.srej hsrej).symm⟩,
          Server.handleExpectedSREJpacket, Server.writeData, hpacket.fileData]
        exact hdeliver
    | false =>
        rw [if_neg (by simp), if_pos hexpected,
          Server.handleExpectedPacketNumber, Server.writeData, hpacket.fileData]
        exact hdeliver
  · rw [if_neg (fun hboth => hexpected (hboth.2.trans (h.srej hboth.1))), if_neg hexpected]
    by_cases hold : number < s.curRRnum
    · rw [if_pos hold]
      exact ⟨_, rfl, handleClientRecovery_spec h hold⟩
    · rw [if_neg hold]
      exact bufferPacket_spec h hpacket (by omega) hlimit

end Receive

end SlidingWindow.ServerWindow

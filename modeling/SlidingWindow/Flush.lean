import SlidingWindow.ServerWindow
import Mathlib.Data.List.TakeWhile

/-! The flush loop on an arbitrary ring. Seen from the slot it starts at, the ring is a
queue: each iteration writes the packet at its head and moves the freed slot to its end. So
the loop stops at the first free slot, which on a full ring is the one it freed first. -/
namespace SlidingWindow.Flush

open Library

structure Counted (s : Server) : Prop where
  curRRnum : s.curRRnum < 4294967296
  winMin : s.winMin < 4294967296
  winMax : s.winMax < 4294967296
  winCur : s.winCur < 4294967296

/-- Any ring of `win_size` slots whose occupied slots hold whole packets, and any
`cur_RRnum` that stays in range for a lap. -/
structure Flushable (s : Server) : Prop where
  counted : Counted s
  positive : 1 ≤ s.winSize
  length : s.window.length = s.winSize
  stored : ∀ chunk ∈ s.window, chunk.len ≠ unusedLen →
    12 ≤ chunk.len ∧ chunk.len ≤ maxPacketLen
  started : 1 ≤ s.curRRnum
  room : s.curRRnum + s.winSize < 4294967296

def lap (s : Server) : List BufferChunk := s.window.rotate (s.curRRnum - 1)

/-- The occupied slots up to the first free one, or all of them. -/
def buffered (s : Server) : List BufferChunk :=
  (lap s).takeWhile fun chunk => chunk.len ≠ unusedLen

def payload (chunk : BufferChunk) : Bytes := load chunk.buf 11 (chunk.len - 12)

def released (chunk : BufferChunk) : BufferChunk := { chunk with len := unusedLen }

def emptied (s : Server) (run window : List BufferChunk) : Server :=
  { s with
    curRRnum := u32 (s.curRRnum + run.length)
    winMin := u32 (s.winMin + run.length)
    winMax := u32 (s.winMax + run.length)
    winCur := u32 (s.winCur + run.length)
    window := window
    trace := s.trace ++ run.map fun chunk => .wrote (payload chunk) }

structure Flushed (s s' : Server) : Prop where
  server : s' = emptied s (buffered s) s'.window
  window : s'.window.rotate (s.curRRnum - 1) =
    (buffered s).map released ++ (lap s).drop (buffered s).length
  curRRnum : s'.curRRnum = s.curRRnum + (buffered s).length

section Iteration

variable {s : Server} {chunk : BufferChunk} {pos : ℕ} {rest : List BufferChunk}

theorem flushFrom_head (fuel : ℕ) (hlength : s.window.length = s.winSize)
    (hlap : s.window.rotate pos = chunk :: rest) (hlower : 12 ≤ chunk.len)
    (hupper : chunk.len ≤ maxPacketLen) :
    s.flushFrom (fuel + 1) pos =
      (emptied s [chunk] (Ring.store s.window pos (released chunk))).flushFrom fuel
        (u32 (pos + 1)) := by
  have hpositive : 0 < s.winSize := hlength ▸ Ring.length_pos_of_rotate hlap
  have hpacket : ServerWindow.IsPacket chunk (fieldOf chunk.buf) (payload chunk) :=
    ⟨hlower, hupper, rfl, rfl⟩
  rw [ServerWindow.flushFrom_used fuel rfl hlength hpositive (Ring.slot?_of_rotate hlap)
    hpacket.used hpacket.fileData, Ring.store, hlength]
  rfl

end Iteration

section Loop

variable {s : Server} {window window' run more : List BufferChunk}

theorem counted_emptied : Counted (emptied s run window) := by
  constructor <;> exact Nat.mod_lt _ (by decide)

theorem emptied_nil (h : Counted s) : emptied s [] s.window = s := by
  simp only [emptied, List.length_nil, Nat.add_zero, u32_of_lt h.curRRnum, u32_of_lt h.winMin,
    u32_of_lt h.winMax, u32_of_lt h.winCur, List.map_nil, List.append_nil]

theorem emptied_emptied :
    emptied (emptied s run window) more window' = emptied s (run ++ more) window' := by
  simp only [emptied, u32, Nat.mod_add_mod, List.length_append, Nat.add_assoc, List.map_append,
    List.append_assoc]

/-- The loop is at `pos`, and `run` is what it is going to write; the slot behind `run` is
free, unless `run` fills the ring. -/
structure Ahead (s : Server) (pos : ℕ) (run rest : List BufferChunk) : Prop where
  counted : Counted s
  positive : 1 ≤ s.winSize
  length : s.window.length = s.winSize
  lap : s.window.rotate pos = run ++ rest
  stored : ∀ chunk ∈ run, 12 ≤ chunk.len ∧ chunk.len ≤ maxPacketLen
  stop : ∀ chunk ∈ rest.head?, chunk.len = unusedLen
  room : pos + run.length + 1 < 4294967296

theorem Ahead.step {pos : ℕ} {chunk : BufferChunk} {rest : List BufferChunk}
    (h : Ahead s pos (chunk :: run) rest) :
    Ahead (emptied s [chunk] (Ring.store s.window pos (released chunk))) (pos + 1) run
      (rest ++ [released chunk]) where
  counted := counted_emptied
  positive := h.positive
  length := Ring.length_store.trans h.length
  lap := by
    have hlap := h.lap
    rw [List.cons_append] at hlap
    rw [← List.append_assoc, ← Ring.rotate_store_succ hlap]
    rfl
  stored other hmem := h.stored other (List.mem_cons_of_mem _ hmem)
  stop := by
    cases rest with
    | nil => simp [released]
    | cons first rest => exact h.stop
  room := by
    have := h.room
    rw [List.length_cons] at this
    omega

theorem Ahead.last {pos : ℕ} {rest : List BufferChunk} (h : Ahead s pos [] rest) :
    ∃ chunk tail, s.window.rotate pos = chunk :: tail ∧ chunk.len = unusedLen := by
  have hlap : s.window.rotate pos = rest := h.lap
  cases rest with
  | nil =>
      have hempty := congrArg List.length hlap
      rw [List.length_rotate, h.length] at hempty
      exact absurd hempty (Nat.ne_of_gt h.positive)
  | cons chunk tail => exact ⟨chunk, tail, hlap, h.stop chunk rfl⟩

/-- Once `run` has been written it stands, freed, at the end of the queue. Each iteration
needs one more test of the loop's condition, so the loop ends on `run.length + 1` tests and
on no fewer. -/
theorem flushFrom_run {pos : ℕ} {rest : List BufferChunk} (h : Ahead s pos run rest) :
    ∃ window, window.rotate (pos + run.length) = rest ++ run.map released ∧
      ∀ fuel, s.flushFrom fuel pos =
        if run.length < fuel then .ok (emptied s run window, pos + run.length + 1)
        else .error .diverges := by
  induction run generalizing s pos rest with
  | nil =>
      obtain ⟨chunk, tail, hlap, hfree⟩ := h.last
      have hnext : u32 (pos + 1) = pos + 1 := u32_of_lt h.room
      refine ⟨s.window, by simpa using h.lap, fun fuel => ?_⟩
      cases fuel with
      | zero => rfl
      | succ fuel =>
          rw [ServerWindow.flushFrom_free fuel rfl h.length h.positive
            (Ring.slot?_of_rotate hlap) hfree, emptied_nil h.counted, hnext]
          exact (if_pos (Nat.succ_pos fuel)).symm
  | cons chunk run ih =>
      obtain ⟨hlower, hupper⟩ := h.stored chunk List.mem_cons_self
      have hroom := h.step.room
      have hnext : u32 (pos + 1) = pos + 1 := u32_of_lt (by omega)
      have hcount : pos + 1 + run.length = pos + (chunk :: run).length := by
        rw [List.length_cons]
        omega
      obtain ⟨window, hwindow, hflush⟩ := ih h.step
      rw [hcount] at hwindow hflush
      refine ⟨window, ?_, fun fuel => ?_⟩
      · rw [hwindow, List.append_assoc]
        rfl
      · cases fuel with
        | zero => rfl
        | succ fuel =>
            rw [flushFrom_head fuel h.length h.lap hlower hupper, hnext, hflush,
              emptied_emptied, List.length_cons]
            simp only [Nat.add_lt_add_iff_right]
            rfl

end Loop

section Function

variable {s : Server}

theorem lap_eq (s : Server) :
    lap s = buffered s ++ (lap s).dropWhile fun chunk => chunk.len ≠ unusedLen :=
  List.takeWhile_append_dropWhile.symm

theorem length_buffered_le (h : Flushable s) : (buffered s).length ≤ s.winSize := by
  have hle := (List.takeWhile_sublist _ : List.Sublist (buffered s) (lap s)).length_le
  rwa [lap, List.length_rotate, h.length] at hle

theorem length_buffered_of_full (h : Flushable s)
    (hfull : ∀ chunk ∈ s.window, chunk.len ≠ unusedLen) :
    (buffered s).length = s.winSize := by
  have hall : buffered s = lap s := by
    apply List.takeWhile_eq_self_iff.mpr
    intro chunk hmem
    simpa using hfull chunk (List.mem_rotate.mp hmem)
  rw [hall, lap, List.length_rotate, h.length]

theorem ahead_of_flushable (h : Flushable s) :
    Ahead s (s.curRRnum - 1) (buffered s) ((lap s).drop (buffered s).length) := by
  have hrest : (lap s).drop (buffered s).length =
      (lap s).dropWhile fun chunk => chunk.len ≠ unusedLen := by
    conv_lhs => rw [lap_eq]
    exact List.drop_left
  refine ⟨h.counted, h.positive, h.length, ?_, fun chunk hmem => ?_, ?_, ?_⟩
  · rw [hrest]
    exact lap_eq s
  · have hused : chunk.len ≠ unusedLen := by simpa using List.mem_takeWhile_imp hmem
    have hlap : chunk ∈ lap s := (List.takeWhile_sublist _).mem hmem
    exact h.stored chunk (List.mem_rotate.mp hlap) hused
  · rw [hrest]
    intro chunk hhead
    have hstop := List.head?_dropWhile_not (fun chunk => chunk.len ≠ unusedLen) (lap s)
    rw [hhead] at hstop
    simpa using hstop
  · have := length_buffered_le h
    have := h.started
    have := h.room
    omega

theorem flushed_of_flushable (h : Flushable s) :
    ∃ s', Flushed s s' ∧
      s.checkForAndWriteBufferedPackets s.curRRnum = .ok (s', s'.curRRnum) ∧
      ∀ fuel, s.flushFrom fuel (sub32 s.curRRnum 1) =
        if (buffered s).length < fuel then .ok (s', s'.curRRnum) else .error .diverges := by
  obtain ⟨window, hwindow, hflush⟩ := flushFrom_run (ahead_of_flushable h)
  have hle := length_buffered_le h
  have hstarted := h.started
  have hroom := h.room
  have hcur : u32 (s.curRRnum + (buffered s).length) = s.curRRnum + (buffered s).length :=
    u32_of_lt (by omega)
  have hnext : s.curRRnum - 1 + (buffered s).length + 1 =
      (emptied s (buffered s) window).curRRnum := by
    refine Eq.trans ?_ hcur.symm
    omega
  rw [hnext, ← sub32_of_le hstarted] at hflush
  refine ⟨emptied s (buffered s) window, ⟨rfl, ?_, hcur⟩, ?_, hflush⟩
  · -- the queue at the end of the loop, turned back by as many slots as it has moved
    apply List.rotate_injective (buffered s).length
    dsimp only
    rw [List.rotate_rotate]
    refine hwindow.trans ?_
    rw [← List.length_map released, List.rotate_append_length_eq, List.length_map]
  · rw [Server.checkForAndWriteBufferedPackets, hflush, if_pos (Nat.lt_succ_of_le hle)]

/-- On every ring the loop ends after as many iterations as the slots hold packets without
a gap from the one of `cur_RRnum` on, at most once round the ring. -/
theorem flush_exact (h : Flushable s) :
    ∃ s', Flushed s s' ∧
      s.checkForAndWriteBufferedPackets s.curRRnum = .ok (s', s'.curRRnum) ∧
      (∀ fuel, s.flushFrom fuel (sub32 s.curRRnum 1) =
        if (buffered s).length < fuel then .ok (s', s'.curRRnum) else .error .diverges) ∧
      (buffered s).length ≤ s.winSize ∧
      ((∀ chunk ∈ s.window, chunk.len ≠ unusedLen) → (buffered s).length = s.winSize) := by
  obtain ⟨s', hflushed, hcheck, hfuel⟩ := flushed_of_flushable h
  exact ⟨s', hflushed, hcheck, hfuel, length_buffered_le h, length_buffered_of_full h⟩

/-- A ring of three slots whose run starts in the last one and goes on in the first. -/
def wrapped : Server :=
  { Server.forked .rcopy [] with
    curRRnum := 3
    winMin := 2
    winCur := 2
    winMax := 5
    winSize := 3
    window := [⟨List.replicate 11 0 ++ [66], 13⟩, ⟨[], unusedLen⟩,
      ⟨List.replicate 11 0 ++ [65], 13⟩] }

theorem flush_exact_wrapped : ∃ s', Flushed wrapped s' ∧
    wrapped.checkForAndWriteBufferedPackets 3 = .ok (s', 5) ∧
    s'.trace.writes = [[65], [66]] := by
  obtain ⟨s', hflushed, hcheck, -⟩ := @flush_exact wrapped
    ⟨by constructor <;> decide, by decide, rfl, by decide, by decide, by decide⟩
  have hcur : s'.curRRnum = 5 := hflushed.curRRnum
  refine ⟨s', hflushed, hcur ▸ hcheck, ?_⟩
  rw [hflushed.server]
  rfl

end Function

end SlidingWindow.Flush

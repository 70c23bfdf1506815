import SlidingWindow.ClientTurns
import SlidingWindow.Library.Runs
import Mathlib.Data.List.Induction

/-! The client's window against the acknowledgements it reads. Every `RR` replaces
the window, whatever its number, so an `RR` that arrives after a later one moves the
window back. -/
namespace SlidingWindow.Acknowledgements

open Library

def numberRead? (flag : Flag) (c : Client) : Input → Option Nat
  | .datagram _ datagram =>
      match c.listening?, recvBuf datagram with
      | some _, .ok (some received) =>
          if received.flag = some flag then some (fieldOf received.packet) else none
      | _, _ => none
  | _ => none

/-- The number of the `RR` that a turn processes. -/
def acknowledgement? (c : Client) (input : Input) : Option Nat := numberRead? .rr c input

def acknowledgements : Client → List Input → List Nat
  | _, [] => []
  | c, input :: inputs =>
      (acknowledgement? c input).toList ++ acknowledgements (c.step input) inputs

theorem acknowledgements_append (c : Client) (first second : List Input) :
    acknowledgements c (first ++ second) =
      acknowledgements c first ++ acknowledgements (Runs.run Client.step c first) second := by
  induction first generalizing c with
  | nil => rfl
  | cons input first ih => simp [acknowledgements, ih]

theorem acknowledgements_concat (c : Client) (inputs : List Input) (input : Input) :
    acknowledgements c (inputs ++ [input]) = acknowledgements c inputs ++
      (acknowledgement? (Runs.run Client.step c inputs) input).toList := by
  simp [acknowledgements_append, acknowledgements]

section Turn

variable {c c' : Client} {input : Input}

def Moves (c c' : Client) : Option Nat → Prop
  | none => c'.winMin = c.winMin ∧ c'.winMax = c.winMax
  | some number =>
      c'.winMin = sub32 number 1 ∧ c'.winMax = sub32 (u32 (number + c.winSize)) 1

theorem acknowledgement?_quiet (hquiet : ∀ src datagram, input ≠ .datagram src datagram) :
    acknowledgement? c input = none := by
  cases input with
  | datagram src datagram => exact absurd rfl (hquiet src datagram)
  | silent => rfl
  | failure => rfl

theorem acknowledgement?_deaf (hdeaf : c.listening? = none) :
    acknowledgement? c input = none := by
  unfold acknowledgement? numberRead?
  cases input <;> simp [hdeaf]

theorem acknowledgement?_resending {before : Client} {index : Nat}
    (hsource : c.resending? input = some (before, index)) :
    acknowledgement? c input = none := by
  rcases Client.resending?_eq_some hsource with ⟨-, -, state⟩ | ⟨-, -, -, quiet⟩
  · exact acknowledgement?_deaf (by simp [Client.listening?, state])
  · exact acknowledgement?_quiet quiet

theorem moves (h : Client.Turn c input c') :
    c'.winSize = c.winSize ∧ Moves c c' (acknowledgement? c input) := by
  cases h with
  | halted state =>
      rw [acknowledgement?_deaf (by rcases state with h | h <;> simp [Client.listening?, h])]
      exact ⟨rfl, rfl, rfl⟩
  | readFailed => exact ⟨rfl, rfl, rfl⟩
  | gaveUp state | fileEnded state | sent state =>
      rw [acknowledgement?_deaf (by simp [Client.listening?, state])]
      exact ⟨rfl, rfl, rfl⟩
  | resent source =>
      rw [acknowledgement?_resending source]
      obtain ⟨timeout, rfl⟩ := Client.resending?_frame source
      exact ⟨rfl, rfl, rfl⟩
  | emptySlot source =>
      rw [acknowledgement?_resending source]
      exact ⟨rfl, rfl, rfl⟩
  | expired _ quiet | polled _ quiet | eofUnanswered _ quiet =>
      rw [acknowledgement?_quiet quiet]
      exact ⟨rfl, rfl, rfl⟩
  | crashed listens runt =>
      obtain ⟨seqNum, trace, rfl⟩ := Client.listening?_frame listens
      simp [acknowledgement?, numberRead?, listens, runt, Moves]
  | corrupted listens crcError =>
      obtain ⟨seqNum, trace, rfl⟩ := Client.listening?_frame listens
      simp [acknowledgement?, numberRead?, listens, crcError, Moves, Client.heard]
  | acknowledged listens accepted flag =>
      obtain ⟨seqNum, trace, rfl⟩ := Client.listening?_frame listens
      simp [acknowledgement?, numberRead?, listens, accepted, flag, Moves, Client.heard,
        Client.acknowledged]
  | rejected listens accepted flag =>
      obtain ⟨seqNum, trace, rfl⟩ := Client.listening?_frame listens
      simp [acknowledgement?, numberRead?, listens, accepted, flag, Moves, Client.heard]
  | ended listens accepted flag =>
      obtain ⟨seqNum, trace, rfl⟩ := Client.listening?_frame listens
      simp [acknowledgement?, numberRead?, listens, accepted, flag.1, Moves, Client.heard]

end Turn

def largest (numbers : List Nat) : Nat := numbers.foldl max 1

/-- The window a cumulative acknowledgement stands for. -/
structure Cumulative (c : Client) (numbers : List Nat) : Prop where
  winMin : c.winMin + 1 = largest numbers
  winMax : c.winMax = c.winMin + c.winSize

/-- What the window is: that of the last `RR`. -/
structure Latest (width : Nat) (c : Client) (numbers : List Nat) : Prop where
  transfer : c.inTransfer
  ring : c.Ring
  winSize : c.winSize = width
  winMin : c.winMin + 1 = numbers.getLastD 1
  winMax : c.winMax = c.winMin + width

theorem largest_concat (numbers : List Nat) (number : Nat) :
    largest (numbers ++ [number]) = max (largest numbers) number := by
  simp [largest]

theorem largest_le_iff {numbers : List Nat} {bound : Nat} (hpositive : 1 ≤ bound) :
    largest numbers ≤ bound ↔ ∀ number ∈ numbers, number ≤ bound := by
  induction numbers using List.reverseRecOn with
  | nil => simp [largest, hpositive]
  | append_singleton numbers number ih =>
      rw [largest_concat, Nat.max_le, ih]
      simp [or_imp, forall_and]

theorem Latest.step {width : Nat} {c : Client} {numbers : List Nat}
    (h : Latest width c numbers) {input : Input}
    (hrange : ∀ number, acknowledgement? c input = some number →
      1 ≤ number ∧ number + width < 4294967296) :
    Latest width (c.step input) (numbers ++ (acknowledgement? c input).toList) := by
  have hturn := Client.turn h.transfer h.ring input
  obtain ⟨hsize, hmoves⟩ := moves hturn
  have hsize := hsize.trans h.winSize
  cases hread : acknowledgement? c input with
  | none =>
      rw [hread] at hmoves
      refine ⟨hturn.inTransfer h.transfer, hturn.ring h.ring, hsize, ?_, ?_⟩
      · rw [hmoves.1, h.winMin, Option.toList_none, List.append_nil]
      · rw [hmoves.2, hmoves.1, h.winMax]
  | some number =>
      obtain ⟨hlower, hupper⟩ := hrange number hread
      rw [hread] at hmoves
      have hmin : (c.step input).winMin = number - 1 := by
        rw [hmoves.1, sub32_of_le hlower]
      have hmax : (c.step input).winMax = number + width - 1 := by
        rw [hmoves.2, h.winSize, u32_of_lt hupper, sub32_of_le (by omega)]
      refine ⟨hturn.inTransfer h.transfer, hturn.ring h.ring, hsize, ?_, ?_⟩
      · rw [hmin, Option.toList_some, List.getLastD_concat]
        omega
      · rw [hmin, hmax]
        omega

theorem Latest.cumulative_iff {width : Nat} {c : Client} {numbers : List Nat}
    (h : Latest width c numbers) :
    Cumulative c numbers ↔ largest numbers = numbers.getLastD 1 := by
  constructor
  · intro hcumulative
    rw [← hcumulative.winMin, h.winMin]
  · intro hlast
    exact ⟨h.winMin.trans hlast.symm, by rw [h.winMax, h.winSize]⟩

theorem latest_run {c : Client} (hsize : 0 < c.winSize) {inputs : List Input}
    (hrange : ∀ number ∈ acknowledgements c.readyToSendDataSetup inputs,
      1 ≤ number ∧ number + c.winSize < 4294967296) :
    Latest c.winSize (Runs.run Client.step c.readyToSendDataSetup inputs)
      (acknowledgements c.readyToSendDataSetup inputs) := by
  induction inputs using List.reverseRecOn with
  | nil =>
      exact ⟨.inl rfl, ⟨hsize, List.length_replicate ..⟩, rfl, rfl, (Nat.zero_add _).symm⟩
  | append_singleton inputs input ih =>
      rw [acknowledgements_concat] at hrange ⊢
      rw [Runs.run_append]
      refine Latest.step (ih fun number hnumber => ?_) fun number hnumber => ?_
      · exact hrange number (List.mem_append_left _ hnumber)
      · exact hrange number (by simp [hnumber])

theorem pairwise_concat_iff {numbers : List Nat} {number : Nat} (hpositive : 1 ≤ number) :
    (numbers ++ [number]).Pairwise (· ≤ ·) ↔
      numbers.Pairwise (· ≤ ·) ∧ largest (numbers ++ [number]) = number := by
  have hmax : max (largest numbers) number = number ↔ largest numbers ≤ number := by omega
  rw [List.pairwise_append, largest_concat, hmax, largest_le_iff hpositive]
  simp

/-- Along a run of the client the window is that of the largest `RR` read so far,
after every turn, exactly when the `RR`s are read in the order of their numbers. -/
theorem cumulative_iff_sorted {c : Client} (hsize : 0 < c.winSize) (inputs : List Input)
    (hrange : ∀ number ∈ acknowledgements c.readyToSendDataSetup inputs,
      1 ≤ number ∧ number + c.winSize < 4294967296) :
    (∀ earlier later, inputs = earlier ++ later →
        Cumulative (Runs.run Client.step c.readyToSendDataSetup earlier)
          (acknowledgements c.readyToSendDataSetup earlier)) ↔
      (acknowledgements c.readyToSendDataSetup inputs).Pairwise (· ≤ ·) := by
  induction inputs using List.reverseRecOn with
  | nil =>
      refine ⟨fun _ => List.Pairwise.nil, fun _ earlier later hsplit => ?_⟩
      rw [(List.append_eq_nil_iff.mp hsplit.symm).1]
      exact ⟨rfl, (Nat.zero_add _).symm⟩
  | append_singleton inputs input ih =>
      have hbefore : ∀ number ∈ acknowledgements c.readyToSendDataSetup inputs,
          1 ≤ number ∧ number + c.winSize < 4294967296 := by
        intro number hnumber
        apply hrange
        rw [acknowledgements_append]
        exact List.mem_append_left _ hnumber
      have hend := (latest_run hsize hrange).cumulative_iff
      rw [Runs.forall_prefix_concat, ih hbefore, hend, acknowledgements_concat]
      cases hread : acknowledgement? (Runs.run Client.step c.readyToSendDataSetup inputs)
          input with
      | none =>
          rw [Option.toList_none, List.append_nil]
          refine ⟨fun h => h.1, fun h => ⟨h, ?_⟩⟩
          have hlast := (ih hbefore).mpr h inputs [] (List.append_nil _).symm
          exact (latest_run hsize hbefore).cumulative_iff.mp hlast
      | some number =>
          have hpositive : 1 ≤ number := by
            refine (hrange number ?_).1
            rw [acknowledgements_concat, hread]
            simp
          rw [Option.toList_some, List.getLastD_concat, pairwise_concat_iff hpositive]

def uploading : Client := Client.started [[65], [66], [67]] [] 400 2

/-- Both packets of a window of two are sent, and the network delivers the second
acknowledgement before the first. -/
def overtaken : List Input :=
  [.silent, .silent, .silent, .datagram (.child 0) (numberedDatagram [] .rr 2 3), .silent,
    .datagram (.child 0) (numberedDatagram [] .rr 1 2)]

theorem cumulative_iff_sorted_overtaken :
    (∀ earlier later, overtaken = earlier ++ later →
        Cumulative (Runs.run Client.step uploading.readyToSendDataSetup earlier)
          (acknowledgements uploading.readyToSendDataSetup earlier)) ↔
      (acknowledgements uploading.readyToSendDataSetup overtaken).Pairwise (· ≤ ·) := by
  apply cumulative_iff_sorted
  · decide
  · decide +kernel

theorem overtaken_moves_back :
    ¬ Cumulative (Runs.run Client.step uploading.readyToSendDataSetup overtaken)
      (acknowledgements uploading.readyToSendDataSetup overtaken) := by
  intro h
  have hmin : (Runs.run Client.step uploading.readyToSendDataSetup overtaken).winMin = 1 := by
    decide +kernel
  have hlargest : largest (acknowledgements uploading.readyToSendDataSetup overtaken) = 3 := by
    decide +kernel
  have := h.winMin
  omega

end SlidingWindow.Acknowledgements

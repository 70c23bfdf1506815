import SlidingWindow.Networks
import SlidingWindow.Library.Rounding
import Mathlib.Data.Rat.Defs
import Mathlib.Data.Rat.Init
import Mathlib.Algebra.Order.Ring.Rat

/-! The error library that both programs are linked with: every `sendto` of theirs is a
`sendto_Err` of the `PacketManager`, which counts the messages of its process and runs
its events on a copy of each. What it is given holds a packet header, and the system call
that follows sends what it is given. -/
namespace SlidingWindow

open Library

/-- `2 ^ 48`: the state of the generator over it is the number that `drand48` returns. -/
def randRange : ℕ := 281474976710656

def nextRand (rand : ℕ) : ℕ := (25214903917 * rand + 11) % randRange

/-- `srand48` keeps the low 32 bits of the seed. -/
def srand48 (seed : ℤ) : ℕ := (seed % 4294967296).toNat * 65536 + 13070

/-- `float randNum = drand48()`. -/
def randNum (rand : ℕ) : ℚ := (Rounding.roundToEven 24 rand : ℚ) / randRange

/-- `(int)(count * drand48())`, a product of two doubles. -/
def scaled (count rand : ℕ) : ℕ := Rounding.roundToEven 53 (count * rand) / randRange

theorem nextRand_lt (rand : ℕ) : nextRand rand < randRange :=
  Nat.mod_lt _ (by simp [randRange])

/-- A choice among `count` things is one of them, whatever the product is rounded to. -/
theorem scaled_lt {count rand : ℕ} (hpositive : 0 < count) (hrand : rand < randRange) :
    scaled count rand < count := by
  have hproduct : count * rand + count ≤ count * randRange := by
    rw [← Nat.mul_succ]
    exact Nat.mul_le_mul_left count hrand
  rw [scaled, Nat.div_lt_iff_lt_mul (by simp [randRange])]
  rcases Nat.lt_or_ge (count * rand) (2 ^ 53) with hsmall | hlarge
  · rw [Rounding.roundToEven_of_lt (by omega) hsmall]
    omega
  · have hround := Rounding.two_mul_roundToEven_le 53 (count * rand)
    have hulp := Rounding.ulp_mul_le hlarge
    simp only [randRange] at hproduct ⊢
    omega

/-- `m_Count` of `infoSeqNo`: each sequence number with how often it was seen. -/
abbrev No2Count := List (ℕ × ℕ)

def No2Count.increment (seqNo : ℕ) : No2Count → No2Count
  | [] => [(seqNo, 1)]
  | (key, count) :: rest =>
      if key = seqNo then (key, u32 (count + 1)) :: rest
      else (key, count) :: No2Count.increment seqNo rest

inductive MsgEvent where
  | errorDrop (dropAll : Bool) (dropList : List ℕ)
  | errorFlipBits
  | infoSeqNo (history : List ℕ) (count : No2Count)
  deriving DecidableEq

inductive RunResult where
  | noChange
  | change
  | drop
  deriving DecidableEq

structure Ran (α : Type) where
  events : α
  result : RunResult
  buf : Bytes
  rand : ℕ

def flipByte (buf : Bytes) (i : ℕ) : Bytes := buf.set i (byteAt buf i ^^^ 255)

def MsgEvent.run (event : MsgEvent) (buf : Bytes) (msgNo rand : ℕ) :
    Except Fault (Ran MsgEvent) :=
  match event with
  | .errorDrop dropAll dropList =>
      .ok ⟨event, if dropAll ∨ msgNo ∈ dropList then .drop else .noChange, buf, rand⟩
  | .errorFlipBits =>
      let rand := nextRand rand
      let byteToFlip := scaled buf.length rand
      if buf.length ≤ byteToFlip then .error .memoryOverrun
      else .ok ⟨event, .change, flipByte buf byteToFlip, rand⟩
  | .infoSeqNo history count =>
      let seqNo := seqNumOf buf
      .ok ⟨.infoSeqNo (history ++ [seqNo]) (No2Count.increment seqNo count), .noChange, buf,
        rand⟩

/-- The rate is the exact value of a `float`; one that is not a number compares as a
negative rate does. `rand` is the state of `drand48`, which a process has once. -/
structure PacketManager where
  errorRate : ℚ
  msgNo : ℕ
  /-- `m_ErrorCase_Constant`. -/
  constant : List MsgEvent
  /-- `m_ErrorCase_Chance`. -/
  chance : List MsgEvent
  rand : ℕ
  deriving DecidableEq

namespace PacketManager

def runMsgEvents (msgNo : ℕ) : List MsgEvent → Bytes → ℕ → Except Fault (Ran (List MsgEvent))
  | [], buf, rand => .ok ⟨[], .noChange, buf, rand⟩
  | event :: rest, buf, rand => do
      let first ← event.run buf msgNo rand
      if first.result = .drop then
        return ⟨first.events :: rest, .drop, first.buf, first.rand⟩
      else
        let others ← runMsgEvents msgNo rest first.buf first.rand
        return { others with
          events := first.events :: others.events
          result := if others.result = .noChange then first.result else others.result }

def runChance (m : PacketManager) (result : RunResult) (buf : Bytes) :
    Except Fault (PacketManager × RunResult × Bytes) :=
  let m := { m with rand := nextRand m.rand }
  if 0 < m.chance.length ∧ randNum m.rand ≤ m.errorRate then
    let m := { m with rand := nextRand m.rand }
    let randCase := scaled m.chance.length m.rand
    match m.chance[randCase]? with
    | none => .error .memoryOverrun
    | some event => do
        let ran ← event.run buf m.msgNo m.rand
        return ({ m with chance := m.chance.set randCase ran.events, rand := ran.rand },
          if result = .drop then .drop else ran.result, ran.buf)
  else .ok (m, result, buf)

def processEvents (m : PacketManager) (buf : Bytes) :
    Except Fault (PacketManager × RunResult × Bytes) := do
  let ran ← runMsgEvents m.msgNo m.constant buf m.rand
  let m := { m with constant := ran.events, rand := ran.rand }
  -- no random errors on the first packet
  if 1 < m.msgNo then m.runChance ran.result ran.buf
  else return (m, ran.result, ran.buf)

structure SendResult where
  sent : Option Datagram
  length : ℕ
  deriving DecidableEq

def sendtoErr (m : PacketManager) (buf : Bytes) : Except Fault (PacketManager × SendResult) :=
  if buf.length = 0 then .error .emptySend
  else do
    let (m, result, bufTmp) ←
      { m with msgNo := u32 (m.msgNo + 1) }.processEvents buf
    return (m, ⟨if result = .drop then none else some bufTmp, buf.length⟩)

end PacketManager

end SlidingWindow

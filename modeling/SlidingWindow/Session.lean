import SlidingWindow.Server
import SlidingWindow.Rcopy
import SlidingWindow.Library.Runs

/-! One client, the main port of the server and its forked children, over a network
that loses, delays, duplicates, reorders and corrupts datagrams. Nothing is stored
about datagrams in flight: any datagram a process ever sent may be delivered, any
number of times and at any later moment, or never. -/
namespace SlidingWindow

open Library

structure World where
  client : Client
  children : List Server

namespace World

/-- What the environment decides for one turn of a process. `deliver` hands over a
datagram sent to it before, and `corrupt` the same with other bytes. -/
inductive Choice where
  | quiet
  | fails
  | deliver (index : Nat)
  | corrupt (index : Nat) (datagram : Datagram)
  deriving DecidableEq

inductive Label where
  | client (choice : Choice)
  | child (index : Nat) (choice : Choice)
  /-- The main port reads a datagram. -/
  | main (choice : Choice)
  deriving DecidableEq

def sentTo (peer : Peer) (trace : Trace) : List Datagram :=
  trace.sends.filterMap fun send => if send.1 = peer then some send.2 else none

def fromChildren (peer : Peer) : List Server → Nat → List (Peer × Datagram)
  | [], _ => []
  | child :: children, index =>
      (sentTo peer child.trace).map (Peer.child index, ·) ++
        fromChildren peer children (index + 1)

/-- Everything that was ever sent to `peer`, with its sender. -/
def inbox (w : World) (peer : Peer) : List (Peer × Datagram) :=
  (sentTo peer w.client.trace).map (Peer.rcopy, ·) ++ fromChildren peer w.children 0

/-- Corrupted bytes that would pass the checksum are not delivered. -/
def resolve (inbox : List (Peer × Datagram)) : Choice → Input
  | .quiet => .silent
  | .fails => .failure
  | .deliver index =>
      match inbox[index]? with
      | some (src, datagram) => .datagram src datagram
      | none => .silent
  | .corrupt index datagram =>
      match inbox[index]? with
      | some (src, _) =>
          if inCksum (datagram.take maxPacketLen) ≠ 0 then .datagram src datagram else .silent
      | none => .silent

def fork (w : World) (input : Input) : World :=
  { w with children := w.children ++ (Server.forkedFor input).toList }

def step (w : World) : Label → World
  | .client choice => { w with client := w.client.step (resolve (w.inbox .rcopy) choice) }
  | .child index choice =>
      { w with
        children := w.children.modify index
          (·.step (resolve (w.inbox (.child index)) choice)) }
  | .main choice => w.fork (resolve (w.inbox .main) choice)

def start (client : Client) : World := ⟨client, []⟩

def Offered (inbox : List (Peer × Datagram)) : Input → Prop
  | .datagram src datagram =>
      (src, datagram) ∈ inbox ∨
        recvBuf datagram = .ok none ∧ ∃ original, (src, original) ∈ inbox
  | _ => True

theorem recvBuf_corrupted {datagram : Datagram}
    (h : inCksum (datagram.take maxPacketLen) ≠ 0) : recvBuf datagram = .ok none := by
  unfold recvBuf
  exact if_pos h

theorem offered_resolve (inbox : List (Peer × Datagram)) (choice : Choice) :
    Offered inbox (resolve inbox choice) := by
  cases choice with
  | quiet => trivial
  | fails => trivial
  | deliver index =>
      cases hsent : inbox[index]? with
      | none => simp only [resolve, hsent, Offered]
      | some sent =>
          simp only [resolve, hsent, Offered]
          exact .inl (List.mem_of_getElem? hsent)
  | corrupt index datagram =>
      cases hsent : inbox[index]? with
      | none => simp only [resolve, hsent, Offered]
      | some sent =>
          by_cases hcorrupt : inCksum (datagram.take maxPacketLen) ≠ 0
          · simp only [resolve, hsent]
            rw [if_pos hcorrupt]
            exact .inr ⟨recvBuf_corrupted hcorrupt, sent.2, List.mem_of_getElem? hsent⟩
          · simp only [resolve, hsent]
            rw [if_neg hcorrupt]
            trivial

theorem of_offered {P : Peer → Prop} {Q : Datagram → Prop} {inbox : List (Peer × Datagram)}
    {src : Peer} {datagram : Datagram}
    (hinbox : ∀ src datagram, (src, datagram) ∈ inbox → P src ∧ Q datagram)
    (h : Offered inbox (.datagram src datagram)) :
    P src ∧ (recvBuf datagram = .ok none ∨ Q datagram) := by
  rcases h with hmem | ⟨hcorrupt, original, hmem⟩
  · exact ⟨(hinbox src datagram hmem).1, .inr (hinbox src datagram hmem).2⟩
  · exact ⟨(hinbox src original hmem).1, .inl hcorrupt⟩

theorem exists_delivery {inbox : List (Peer × Datagram)} {src : Peer} {datagram : Datagram}
    (h : (src, datagram) ∈ inbox) :
    ∃ index, resolve inbox (.deliver index) = .datagram src datagram := by
  obtain ⟨index, hindex⟩ := List.mem_iff_getElem?.mp h
  exact ⟨index, by simp only [resolve, hindex]⟩

theorem exists_corruption {inbox : List (Peer × Datagram)} {src : Peer} {original : Datagram}
    (h : (src, original) ∈ inbox) {datagram : Datagram}
    (hcorrupt : inCksum (datagram.take maxPacketLen) ≠ 0) :
    ∃ index, resolve inbox (.corrupt index datagram) = .datagram src datagram := by
  obtain ⟨index, hindex⟩ := List.mem_iff_getElem?.mp h
  refine ⟨index, ?_⟩
  simp only [resolve, hindex]
  exact if_pos hcorrupt

theorem inCksum_of_rejected {datagram : Datagram} (h : recvBuf datagram = .ok none) :
    inCksum (datagram.take maxPacketLen) ≠ 0 := by
  unfold recvBuf at h
  dsimp only at h
  split at h
  · assumption
  · split at h <;> simp at h

theorem exists_choice {inbox : List (Peer × Datagram)} {input : Input}
    (h : Offered inbox input) : ∃ choice, resolve inbox choice = input := by
  cases input with
  | silent => exact ⟨.quiet, rfl⟩
  | failure => exact ⟨.fails, rfl⟩
  | datagram src datagram =>
      rcases h with hmem | ⟨hrejected, original, hmem⟩
      · obtain ⟨index, hindex⟩ := exists_delivery hmem
        exact ⟨.deliver index, hindex⟩
      · obtain ⟨index, hindex⟩ := exists_corruption hmem (inCksum_of_rejected hrejected)
        exact ⟨.corrupt index datagram, hindex⟩

theorem mem_sentTo {peer : Peer} {trace : Trace} {datagram : Datagram} :
    datagram ∈ sentTo peer trace ↔ .sent peer datagram ∈ trace := by
  simp only [sentTo, Trace.sends, List.mem_filterMap, Option.ite_none_right_eq_some,
    Prod.exists]
  constructor
  · rintro ⟨dst, found, ⟨event, hevent, hsent⟩, rfl, hfound⟩
    cases event with
    | sent dst other =>
        simp only [Event.sent?, Option.some.injEq, Prod.mk.injEq] at hsent hfound
        rwa [hsent.1, hsent.2, hfound] at hevent
    | opened => simp [Event.sent?] at hsent
    | wrote => simp [Event.sent?] at hsent
  · intro h
    exact ⟨peer, datagram, ⟨_, h, rfl⟩, rfl, rfl⟩

theorem mem_sends {dst : Peer} {trace : Trace} {datagram : Datagram} :
    (dst, datagram) ∈ trace.sends ↔ .sent dst datagram ∈ trace := by
  rw [← mem_sentTo]
  simp [sentTo]

theorem mem_fromChildren {peer src : Peer} {datagram : Datagram} {children : List Server}
    {first : Nat} :
    (src, datagram) ∈ fromChildren peer children first ↔
      ∃ index child, children[index]? = some child ∧ src = .child (first + index) ∧
        .sent peer datagram ∈ child.trace := by
  induction children generalizing first with
  | nil => simp [fromChildren]
  | cons child children ih =>
      simp only [fromChildren, List.mem_append, List.mem_map, Prod.mk.injEq, ih, mem_sentTo]
      constructor
      · rintro (⟨found, hsent, rfl, rfl⟩ | ⟨index, other, hchild, rfl, hsent⟩)
        · exact ⟨0, child, rfl, rfl, hsent⟩
        · exact ⟨index + 1, other, hchild, by rw [Nat.add_assoc, Nat.add_comm 1], hsent⟩
      · rintro ⟨index, other, hchild, rfl, hsent⟩
        cases index with
        | zero =>
            cases hchild
            exact .inl ⟨datagram, hsent, rfl, rfl⟩
        | succ index =>
            exact .inr ⟨index, other, hchild, by rw [Nat.add_assoc, Nat.add_comm 1], hsent⟩

theorem mem_inbox {w : World} {peer src : Peer} {datagram : Datagram} :
    (src, datagram) ∈ w.inbox peer ↔
      src = .rcopy ∧ .sent peer datagram ∈ w.client.trace ∨
        ∃ index child, w.children[index]? = some child ∧ src = .child index ∧
          .sent peer datagram ∈ child.trace := by
  simp only [inbox, List.mem_append, List.mem_map, Prod.mk.injEq, mem_sentTo,
    mem_fromChildren, Nat.zero_add]
  constructor
  · rintro (⟨found, hsent, rfl, rfl⟩ | h)
    · exact .inl ⟨rfl, hsent⟩
    · exact .inr h
  · rintro (⟨rfl, hsent⟩ | h)
    · exact .inl ⟨datagram, hsent, rfl, rfl⟩
    · exact .inr h

theorem getElem?_children_step (w : World) (index other : Nat) (choice : Choice) :
    (w.step (.child index choice)).children[other]? = w.children[other]?.map fun s =>
      if index = other then s.step (resolve (w.inbox (.child index)) choice) else s := by
  simp only [step, List.getElem?_modify, Option.map_eq_map]

theorem forall_children_step {P : Server → Prop} {w : World} {index : Nat} {choice : Choice}
    (hall : ∀ s ∈ w.children, P s)
    (hstep : ∀ s, w.children[index]? = some s →
      P (s.step (resolve (w.inbox (.child index)) choice))) :
    ∀ s ∈ (w.step (.child index choice)).children, P s := by
  intro s hs
  obtain ⟨other, hother⟩ := List.mem_iff_getElem?.mp hs
  rw [getElem?_children_step] at hother
  cases hchild : w.children[other]? with
  | none => simp [hchild] at hother
  | some child =>
      simp only [hchild, Option.map_some, Option.some.injEq] at hother
      by_cases hindex : index = other
      · rw [if_pos hindex] at hother
        rw [← hother]
        exact hstep child (hindex ▸ hchild)
      · rw [if_neg hindex] at hother
        rw [← hother]
        exact hall child (List.mem_of_getElem? hchild)

theorem forkedFor_cases (input : Input) :
    Server.forkedFor input = none ∨ ∃ src datagram received, input = .datagram src datagram ∧
      recvBuf datagram = .ok (some received) ∧
      Server.forkedFor input = some (Server.forked src received.packet) := by
  unfold Server.forkedFor
  cases input with
  | silent => exact .inl rfl
  | failure => exact .inl rfl
  | datagram src datagram =>
      dsimp only
      split
      · rename_i received haccepted
        exact .inr ⟨src, datagram, received, rfl, haccepted, rfl⟩
      · exact .inl rfl

theorem step_main (w : World) (choice : Choice) :
    w.step (.main choice) = w ∨ ∃ src datagram received,
      resolve (w.inbox .main) choice = .datagram src datagram ∧
        recvBuf datagram = .ok (some received) ∧
        w.step (.main choice) =
          { w with children := w.children ++ [Server.forked src received.packet] } := by
  simp only [step, fork]
  rcases forkedFor_cases (resolve (w.inbox .main) choice) with
    hnone | ⟨src, datagram, received, hinput, haccepted, hfork⟩
  · left
    rw [hnone, Option.toList_none, List.append_nil]
  · right
    exact ⟨src, datagram, received, hinput, haccepted, by rw [hfork, Option.toList_some]⟩

end World

end SlidingWindow

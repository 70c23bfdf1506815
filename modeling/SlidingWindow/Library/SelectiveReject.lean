import Mathlib.Data.Finmap
import Mathlib.Order.Interval.Finset.Nat

/-! The receiver of a selective-reject transfer without any storage layout: the
next number to deliver, a finite map of items that arrived early, and the items
delivered so far. Numbers start at one and may grow without bound; only items
less than `width` ahead of the next number are kept. -/
namespace SlidingWindow.Library.SelectiveReject

variable {α : Type*} {width : ℕ}

/-- A receiver in the middle of a delivery, when the next item may be held. -/
structure Pending (α : Type*) where
  next : ℕ
  held : Finmap fun _ : ℕ => α
  output : List α

def Pending.deliver (pending : Pending α) (item : α) : Pending α :=
  ⟨pending.next + 1, pending.held.erase pending.next, pending.output ++ [item]⟩

theorem Pending.card_deliver_lt {pending : Pending α} {item : α}
    (hlookup : pending.held.lookup pending.next = some item) :
    (pending.deliver item).held.keys.card < pending.held.keys.card := by
  have hmem : pending.next ∈ pending.held.keys :=
    Finmap.mem_keys.mpr (Finmap.mem_of_lookup_eq_some hlookup)
  rw [Pending.deliver, Finmap.keys_erase]
  exact Finset.card_erase_lt_of_mem hmem

def Pending.drain (pending : Pending α) : Pending α :=
  match _hlookup : pending.held.lookup pending.next with
  | none => pending
  | some item => (pending.deliver item).drain
termination_by pending.held.keys.card
decreasing_by exact Pending.card_deliver_lt _hlookup

theorem Pending.drain_of_none {pending : Pending α}
    (hlookup : pending.held.lookup pending.next = none) : pending.drain = pending := by
  rw [Pending.drain]
  split
  · rfl
  · simp_all

theorem Pending.drain_of_some {pending : Pending α} {item : α}
    (hlookup : pending.held.lookup pending.next = some item) :
    pending.drain = (pending.deliver item).drain := by
  rw [Pending.drain]
  split
  · simp_all
  · rename_i found hfound
    rw [hlookup] at hfound
    rw [Option.some.inj hfound]

/-- Prove a fact about a drained receiver by following its deliveries. -/
theorem Pending.drain_induction {motive : Pending α → Prop}
    (hstep : ∀ pending item, pending.held.lookup pending.next = some item →
      motive pending → motive (pending.deliver item))
    (pending : Pending α) (hstart : motive pending) : motive pending.drain := by
  induction pending using Pending.drain.induct with
  | case1 pending hlookup => rwa [Pending.drain_of_none hlookup]
  | case2 pending item hlookup ih =>
      rw [Pending.drain_of_some hlookup]
      exact ih (hstep pending item hlookup hstart)

theorem Pending.lookup_drain_next (pending : Pending α) :
    pending.drain.held.lookup pending.drain.next = none := by
  induction pending using Pending.drain.induct with
  | case1 pending hlookup => rwa [Pending.drain_of_none hlookup]
  | case2 pending item hlookup ih => rwa [Pending.drain_of_some hlookup]

theorem Pending.le_next_drain (pending : Pending α) :
    pending.next ≤ pending.drain.next := by
  refine Pending.drain_induction (motive := fun after => pending.next ≤ after.next)
    (fun after item _ hle => ?_) pending (Nat.le_refl _)
  exact Nat.le_succ_of_le hle

structure Pending.Sound (width : ℕ) (pending : Pending α) : Prop where
  count : pending.output.length + 1 = pending.next
  window : ∀ n ∈ pending.held, pending.next ≤ n ∧ n < pending.next + width

theorem Pending.Sound.deliver {pending : Pending α} {item : α}
    (sound : pending.Sound width) : (pending.deliver item).Sound width where
  count := by simp [Pending.deliver, sound.count]
  window := by
    intro n hn
    obtain ⟨hne, hmem⟩ := Finmap.mem_erase.mp hn
    have := sound.window n hmem
    simp only [Pending.deliver]
    omega

theorem Pending.Sound.drain {pending : Pending α} (sound : pending.Sound width) :
    pending.drain.Sound width :=
  Pending.drain_induction (fun _ _ _ h => h.deliver) pending sound

theorem Pending.Sound.ahead {pending : Pending α} (sound : pending.Sound width)
    (hnext : pending.held.lookup pending.next = none) :
    ∀ n ∈ pending.held, pending.next < n ∧ n < pending.next + width := by
  intro n hn
  have hne : n ≠ pending.next := by
    rintro rfl
    exact Finmap.lookup_eq_none.mp hnext hn
  have := sound.window n hn
  omega

theorem Pending.Sound.card_le {pending : Pending α} (sound : pending.Sound width) :
    pending.held.keys.card ≤ width := by
  have hsubset : pending.held.keys ⊆ Finset.Ico pending.next (pending.next + width) := by
    intro n hn
    exact Finset.mem_Ico.mpr (sound.window n (Finmap.mem_keys.mp hn))
  simpa using Finset.card_le_card hsubset

theorem Pending.mem_drain_held {pending : Pending α} (sound : pending.Sound width) {n : ℕ} :
    n ∈ pending.drain.held ↔
      n ∈ pending.held ∧ ∃ gap, pending.next ≤ gap ∧ gap < n ∧ gap ∉ pending.held := by
  induction pending using Pending.drain.induct with
  | case1 pending hlookup =>
      rw [Pending.drain_of_none hlookup]
      refine ⟨fun hn => ⟨hn, pending.next, Nat.le_refl _, ?_, ?_⟩, fun h => h.1⟩
      · exact (sound.ahead hlookup n hn).1
      · exact Finmap.lookup_eq_none.mp hlookup
  | case2 pending item hlookup ih =>
      have hnext := Finmap.mem_of_lookup_eq_some hlookup
      rw [Pending.drain_of_some hlookup, ih sound.deliver]
      simp only [Pending.deliver, Finmap.mem_erase]
      constructor
      · rintro ⟨⟨_, hn⟩, gap, hle, hlt, hgap⟩
        exact ⟨hn, gap, by omega, hlt, fun hmem => hgap ⟨by omega, hmem⟩⟩
      · rintro ⟨hn, gap, hle, hlt, hgap⟩
        have hne : gap ≠ pending.next := by
          rintro rfl
          exact hgap hnext
        exact ⟨⟨by omega, hn⟩, gap, by omega, hlt, fun hmem => hgap hmem.2⟩

/-- A receiver between deliveries: the next item is never held. -/
structure Receiver (width : ℕ) (α : Type*) extends Pending α where
  count : output.length + 1 = next
  ahead : ∀ n ∈ held, next < n ∧ n < next + width

namespace Receiver

def start : Receiver width α where
  next := 1
  held := ∅
  output := []
  count := rfl
  ahead := by intro n hn; exact absurd hn (Finmap.notMem_empty)

/-- The receiver right after its next item arrived, before it drains. -/
def arrived (receiver : Receiver width α) (item : α) : Pending α :=
  ⟨receiver.next + 1, receiver.held, receiver.output ++ [item]⟩

theorem arrived_sound (receiver : Receiver width α) (item : α) :
    (receiver.arrived item).Sound width where
  count := by simp [arrived, receiver.count]
  window := by
    intro n hn
    have := receiver.ahead n hn
    simp only [arrived]
    omega

def accept (receiver : Receiver width α) (number : ℕ) (item : α) : Receiver width α :=
  if number = receiver.next then
    { (receiver.arrived item).drain with
      count := (receiver.arrived_sound item).drain.count
      ahead := (receiver.arrived_sound item).drain.ahead (Pending.lookup_drain_next _) }
  else if hwindow : receiver.next < number ∧ number < receiver.next + width then
    { receiver with
      held := receiver.held.insert number item
      ahead := by
        intro n hn
        rcases Finmap.mem_insert.mp hn with rfl | hmem
        · exact hwindow
        · exact receiver.ahead n hmem }
  else receiver

variable {receiver : Receiver width α} {number : ℕ} {item : α}

theorem sound (receiver : Receiver width α) : receiver.toPending.Sound width where
  count := receiver.count
  window n hn := ⟨(receiver.ahead n hn).1.le, (receiver.ahead n hn).2⟩

theorem lookup_next (receiver : Receiver width α) :
    receiver.held.lookup receiver.next = none := by
  refine Finmap.lookup_eq_none.mpr fun hmem => ?_
  exact absurd (receiver.ahead _ hmem).1 (Nat.lt_irrefl _)

theorem arrived_eq_deliver : receiver.arrived item = receiver.deliver item := by
  have herase : receiver.held.erase receiver.next = receiver.held := by
    apply Finmap.ext_lookup
    intro n
    by_cases hn : n = receiver.next
    · rw [hn, Finmap.lookup_erase, lookup_next]
    · rw [Finmap.lookup_erase_ne hn]
  rw [arrived, Pending.deliver, herase]

theorem accept_next :
    (receiver.accept receiver.next item).toPending = (receiver.arrived item).drain := by
  simp [accept]

theorem accept_early (hlt : receiver.next < number) (hwidth : number < receiver.next + width) :
    (receiver.accept number item).toPending =
      { receiver.toPending with held := receiver.held.insert number item } := by
  rw [accept, if_neg (by omega), dif_pos ⟨hlt, hwidth⟩]

theorem accept_outside (hnext : number ≠ receiver.next)
    (hout : ¬ (receiver.next < number ∧ number < receiver.next + width)) :
    receiver.accept number item = receiver := by
  rw [accept, if_neg hnext, dif_neg hout]

theorem le_next_accept : receiver.next ≤ (receiver.accept number item).next := by
  unfold accept
  split
  · exact Nat.le_trans (Nat.le_succ _) (Pending.le_next_drain (receiver.arrived item))
  · split <;> exact Nat.le_refl _

theorem lt_next_accept : receiver.next < (receiver.accept receiver.next item).next := by
  rw [accept_next]
  exact Pending.le_next_drain (receiver.arrived item)

theorem mem_held_accept_next {n : ℕ} :
    n ∈ (receiver.accept receiver.next item).held ↔
      n ∈ receiver.held ∧ ∃ gap, receiver.next < gap ∧ gap < n ∧ gap ∉ receiver.held := by
  rw [accept_next, Pending.mem_drain_held (receiver.arrived_sound item)]
  rfl

def acceptAll (receiver : Receiver width α) (items : List (ℕ × α)) : Receiver width α :=
  items.foldl (fun receiver item => receiver.accept item.1 item.2) receiver

@[simp] theorem acceptAll_nil : receiver.acceptAll [] = receiver := rfl

@[simp] theorem acceptAll_append {first second : List (ℕ × α)} :
    receiver.acceptAll (first ++ second) = (receiver.acceptAll first).acceptAll second := by
  simp [acceptAll]

structure Every (good : ℕ → α → Prop) (pending : Pending α) : Prop where
  output : ∀ i item, pending.output[i]? = some item → good (i + 1) item
  held : ∀ n item, pending.held.lookup n = some item → good n item

variable {good : ℕ → α → Prop}

theorem Every.start : Every good (start : Receiver width α).toPending where
  output := by simp [Receiver.start]
  held := by simp [Receiver.start]

theorem Every.mono {pending : Pending α} {better : ℕ → α → Prop}
    (h : Every good pending) (himp : ∀ n item, good n item → better n item) :
    Every better pending where
  output i item hi := himp _ _ (h.output i item hi)
  held n item hn := himp _ _ (h.held n item hn)

theorem Every.append {pending : Pending α} (h : Every good pending)
    (hcount : pending.output.length + 1 = pending.next) (hitem : good pending.next item) :
    ∀ i found, (pending.output ++ [item])[i]? = some found → good (i + 1) found := by
  intro i found hi
  by_cases hlt : i < pending.output.length
  · rw [List.getElem?_append_left hlt] at hi
    exact h.output i found hi
  · obtain ⟨hbound, hfound⟩ := List.getElem?_eq_some_iff.mp hi
    have hlast : i = pending.output.length := by
      simp at hbound
      omega
    subst hlast
    simp only [List.getElem_concat_length] at hfound
    rw [hcount, ← hfound]
    exact hitem

theorem Every.drain {pending : Pending α} (sound : pending.Sound width)
    (h : Every good pending) : Every good pending.drain := by
  refine (Pending.drain_induction
    (motive := fun after => after.Sound width ∧ Every good after) ?_ pending
    ⟨sound, h⟩).2
  rintro after found hlookup ⟨hsound, hevery⟩
  refine ⟨hsound.deliver, hevery.append hsound.count (hevery.held _ _ hlookup), ?_⟩
  intro n item hn
  by_cases hne : n = after.next
  · rw [hne, Pending.deliver, Finmap.lookup_erase] at hn
    contradiction
  · rw [Pending.deliver, Finmap.lookup_erase_ne hne] at hn
    exact hevery.held n item hn

theorem Every.accept (h : Every good receiver.toPending) (hitem : good number item) :
    Every good (receiver.accept number item).toPending := by
  by_cases hnext : number = receiver.next
  · subst hnext
    rw [accept_next]
    exact Every.drain (receiver.arrived_sound item)
      ⟨h.append receiver.count hitem, h.held⟩
  · by_cases hwindow : receiver.next < number ∧ number < receiver.next + width
    · rw [accept_early hwindow.1 hwindow.2]
      refine ⟨h.output, fun n found hn => ?_⟩
      by_cases hsame : n = number
      · subst hsame
        rw [Finmap.lookup_insert] at hn
        rwa [← Option.some.inj hn]
      · rw [Finmap.lookup_insert_of_ne _ hsame] at hn
        exact h.held n found hn
    · rwa [accept_outside hnext hwindow]

theorem Every.acceptAll {items : List (ℕ × α)} (h : Every good receiver.toPending)
    (hitems : ∀ item ∈ items, good item.1 item.2) :
    Every good (receiver.acceptAll items).toPending := by
  induction items generalizing receiver with
  | nil => exact h
  | cons item items ih =>
      refine ih (h.accept (hitems item List.mem_cons_self)) fun other hother => ?_
      exact hitems other (List.mem_cons_of_mem _ hother)

/-- If every item is the one its number has in a source list, what was delivered
is a prefix of the source. -/
theorem Every.output_eq_take {source : List α}
    (h : Every (fun n item => source[n - 1]? = some item) receiver.toPending) :
    receiver.output = source.take (receiver.next - 1) := by
  have hlength : receiver.next - 1 = receiver.output.length := by
    have := receiver.count
    omega
  apply List.ext_getElem?
  intro i
  rw [hlength, List.getElem?_take]
  split
  next hlt =>
    rw [List.getElem?_eq_getElem hlt]
    exact (h.output i _ (List.getElem?_eq_getElem hlt)).symm
  next hge => exact List.getElem?_eq_none (Nat.le_of_not_lt hge)

end Receiver

end SlidingWindow.Library.SelectiveReject

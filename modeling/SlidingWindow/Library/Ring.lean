import Mathlib.Data.List.Rotate

/-! A ring of slots addressed by unbounded positions: position `i` lives in slot
`i % ring.length`. Two positions less than one lap apart never share a slot, so a
window of at most `ring.length` consecutive positions is stored without clashes.
Seen from a position the ring is a queue, `ring.rotate i`: its head is the slot of `i`,
and from the next position on that slot is the last of the lap. -/
namespace SlidingWindow.Library.Ring

variable {α : Type*} {ring : List α} {value : α} {i j lo : ℕ}

def slot? (ring : List α) (i : ℕ) : Option α := ring[i % ring.length]?

def store (ring : List α) (i : ℕ) (value : α) : List α :=
  ring.set (i % ring.length) value

theorem mod_ne_of_lap {width : ℕ} (hlt : i < j) (hlap : j < i + width) :
    i % width ≠ j % width := by
  intro heq
  have hdvd : width ∣ j - i :=
    Nat.dvd_of_mod_eq_zero (Nat.sub_mod_eq_zero_of_mod_eq heq.symm)
  have := Nat.le_of_dvd (by omega) hdvd
  omega

@[simp] theorem length_store : (store ring i value).length = ring.length := by
  simp [store]

theorem slot?_store_self (hring : 0 < ring.length) :
    slot? (store ring i value) i = some value := by
  simp [slot?, store, Nat.mod_lt i hring]

theorem slot?_store_of_mod_ne (hne : i % ring.length ≠ j % ring.length) :
    slot? (store ring i value) j = slot? ring j := by
  simp [slot?, store, List.getElem?_set_ne hne]

theorem slot?_store_of_lt (hlt : i < j) (hlap : j < i + ring.length) :
    slot? (store ring i value) j = slot? ring j :=
  slot?_store_of_mod_ne (mod_ne_of_lap hlt hlap)

theorem slot?_store_of_gt (hlt : j < i) (hlap : i < j + ring.length) :
    slot? (store ring i value) j = slot? ring j :=
  slot?_store_of_mod_ne (mod_ne_of_lap hlt hlap).symm

theorem slot?_add_length : slot? ring (i + ring.length) = slot? ring i := by
  simp [slot?]

theorem exists_position (hmem : value ∈ ring) (lo : ℕ) :
    ∃ i, lo ≤ i ∧ i < lo + ring.length ∧ slot? ring i = some value := by
  obtain ⟨k, hk, rfl⟩ := List.mem_iff_getElem.mp hmem
  have hmod := Nat.mod_lt lo (Nat.zero_lt_of_lt hk)
  have hdiv := Nat.div_add_mod lo ring.length
  by_cases hle : lo % ring.length ≤ k
  · refine ⟨lo + (k - lo % ring.length), by omega, by omega, ?_⟩
    have hpos : lo + (k - lo % ring.length) = ring.length * (lo / ring.length) + k := by
      omega
    rw [slot?, hpos, Nat.mul_add_mod, Nat.mod_eq_of_lt hk, List.getElem?_eq_getElem hk]
  · refine ⟨lo + (ring.length + k - lo % ring.length), by omega, by omega, ?_⟩
    have hpos : lo + (ring.length + k - lo % ring.length) =
        ring.length * (lo / ring.length + 1) + k := by
      rw [Nat.mul_add]
      omega
    rw [slot?, hpos, Nat.mul_add_mod, Nat.mod_eq_of_lt hk, List.getElem?_eq_getElem hk]

theorem mem_of_slot? (hslot : slot? ring i = some value) : value ∈ ring :=
  List.mem_of_getElem? hslot

section Lap

variable {head : α} {rest : List α}

theorem length_pos_of_rotate (h : ring.rotate i = head :: rest) : 0 < ring.length := by
  rw [← List.length_rotate ring i, h, List.length_cons]
  exact Nat.succ_pos _

theorem slot?_of_rotate (h : ring.rotate i = head :: rest) : slot? ring i = some head := by
  have hhead := List.head?_rotate (Nat.mod_lt i (length_pos_of_rotate h))
  rw [List.rotate_mod, h] at hhead
  exact hhead.symm

theorem rotate_store (h : ring.rotate i = head :: rest) :
    (store ring i value).rotate i = value :: rest := by
  have hlt := Nat.mod_lt i (length_pos_of_rotate h)
  rw [List.rotate_eq_drop_append_take_mod] at h ⊢
  rw [List.drop_eq_getElem_cons hlt, List.cons_append, List.cons.injEq] at h
  rw [length_store, store, List.drop_set, if_neg (Nat.lt_irrefl _), Nat.sub_self,
    List.take_set_of_le (Nat.le_refl _), List.drop_eq_getElem_cons hlt, List.set_cons_zero,
    List.cons_append, h.2]

theorem rotate_store_succ (h : ring.rotate i = head :: rest) :
    (store ring i value).rotate (i + 1) = rest ++ [value] := by
  rw [← List.rotate_rotate, rotate_store h, List.rotate_cons_succ, List.rotate_zero]

end Lap

end SlidingWindow.Library.Ring

import Mathlib.Data.List.Basic

/-! Lists of which only some elements are seen: where an element that a filter keeps comes to
stand, and what becomes of a change in one place. -/
namespace SlidingWindow.Library.Filtering

variable {α β : Type*} {p : α → Bool} {f : α → α} {l more : List α} {index : ℕ} {a : α}

/-- The position after the filter. -/
def rank (p : α → Bool) (l : List α) (index : ℕ) : ℕ := (l.take index).countP p

@[simp] theorem rank_zero : rank p l 0 = 0 := rfl

theorem rank_cons_succ : rank p (a :: l) (index + 1) = rank p l index + if p a then 1 else 0 := by
  simp [rank, List.countP_cons]

theorem rank_append (h : index ≤ l.length) : rank p (l ++ more) index = rank p l index := by
  simp [rank, List.take_append_of_le_length h]

theorem rank_map {g : β → α} {l : List β} : rank p (l.map g) index = rank (p ∘ g) l index := by
  simp [rank, ← List.map_take, List.countP_map]

theorem getElem?_filter_rank (ha : l[index]? = some a) (hp : p a) :
    (l.filter p)[rank p l index]? = some a := by
  induction l generalizing index with
  | nil => simp at ha
  | cons first l ih =>
      cases index with
      | zero =>
          cases ha
          simp [hp]
      | succ index =>
          rw [rank_cons_succ, List.filter_cons]
          split
          · exact ih ha
          · exact ih ha

theorem eq_of_length_filter (hone : (l.filter p).length ≤ 1) {other : ℕ} {b : α}
    (ha : l[index]? = some a) (hp : p a) (hb : l[other]? = some b) (hq : p b) :
    index = other := by
  have hnone {l : List α} {index : ℕ} {a : α} (ha : l[index]? = some a) (hp : p a) :
      1 ≤ (l.filter p).length :=
    List.length_pos_of_mem (List.mem_filter.mpr ⟨List.mem_of_getElem? ha, hp⟩)
  induction l generalizing index other with
  | nil => simp at ha
  | cons first l ih =>
      cases index with
      | zero =>
          cases other with
          | zero => rfl
          | succ other =>
              cases ha
              rw [List.filter_cons_of_pos hp, List.length_cons] at hone
              have := hnone (l := l) hb hq
              omega
      | succ index =>
          cases other with
          | zero =>
              cases hb
              rw [List.filter_cons_of_pos hq, List.length_cons] at hone
              have := hnone (l := l) ha hp
              omega
          | succ other =>
              have hless : (l.filter p).length ≤ 1 := by
                rw [List.filter_cons] at hone
                split at hone
                · exact Nat.le_of_succ_le hone
                · exact hone
              rw [ih hless ha hb]

theorem filter_modify_of_pos (ha : l[index]? = some a) (hp : p a) (hf : p (f a)) :
    (l.modify index f).filter p = (l.filter p).modify (rank p l index) f := by
  induction l generalizing index with
  | nil => simp at ha
  | cons first l ih =>
      cases index with
      | zero =>
          cases ha
          simp [hp, hf]
      | succ index =>
          rw [rank_cons_succ, List.modify_succ_cons, List.filter_cons, List.filter_cons, ih ha]
          split
          · rfl
          · rfl

theorem filter_modify_of_neg (ha : l[index]? = some a) (hp : ¬ p a) (hf : ¬ p (f a)) :
    (l.modify index f).filter p = l.filter p := by
  induction l generalizing index with
  | nil => simp at ha
  | cons first l ih =>
      cases index with
      | zero =>
          cases ha
          simp [hp, hf]
      | succ index =>
          rw [List.modify_succ_cons, List.filter_cons, List.filter_cons, ih ha]

theorem map_modify {g : α → β} (f' : β → β) (h : ∀ a, g (f a) = f' (g a)) :
    (l.modify index f).map g = (l.map g).modify index f' := by
  apply List.ext_getElem?
  intro other
  simp only [List.getElem?_map, List.getElem?_modify]
  cases l[other]? with
  | none => rfl
  | some a => simp only [Option.map_eq_map, Option.map_some, apply_ite g, h]

end SlidingWindow.Library.Filtering

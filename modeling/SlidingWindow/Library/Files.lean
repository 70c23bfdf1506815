import Mathlib.Data.List.Basic
import Mathlib.Data.List.Induction
import Mathlib.Data.Set.Insert
import Mathlib.Logic.Function.Basic

/-! Files by name, and the descriptors that are open on them. Opening a file empties it, for
all that have it open; a write goes to the offset of its descriptor, and what lies between the
end of the file and the offset is filled up. What is said of one file needs no knowledge of
the calls on the others. -/
namespace SlidingWindow.Library.Files

variable {δ ν β : Type*}

structure Disk (δ ν β : Type*) where
  content : ν → List β
  /-- The file that a descriptor is open on, and the place of its next write. -/
  offset : δ → Option (ν × ℕ)

inductive Call (δ ν β : Type*) where
  | opened (descriptor : δ) (name : ν)
  | wrote (descriptor : δ) (data : List β)
  deriving DecidableEq

def Call.descriptor : Call δ ν β → δ
  | .opened descriptor _ => descriptor
  | .wrote descriptor _ => descriptor

def Call.wrote? : Call δ ν β → Option (δ × List β)
  | .opened _ _ => none
  | .wrote descriptor data => some (descriptor, data)

def writes (calls : List (Call δ ν β)) : List (δ × List β) := calls.filterMap Call.wrote?

def written [DecidableEq δ] (calls : List (Call δ ν β)) (descriptor : δ) : List β :=
  ((writes calls).filter (·.1 = descriptor)).flatMap Prod.snd

section Calls

variable {calls first second : List (Call δ ν β)} {made : Call δ ν β}

@[simp] theorem writes_nil : writes ([] : List (Call δ ν β)) = [] := rfl

@[simp] theorem writes_append : writes (first ++ second) = writes first ++ writes second := by
  simp [writes]

end Calls

def overwrite (zero : β) (old : List β) (place : ℕ) (data : List β) : List β :=
  if data.isEmpty then old
  else old.take place ++ List.replicate (place - old.length) zero ++ data ++
    old.drop (place + data.length)

section Overwrite

variable {zero : β} {old data : List β} {place : ℕ}

theorem overwrite_length : overwrite zero old old.length data = old ++ data := by
  cases data with
  | nil => simp [overwrite]
  | cons first rest => simp [overwrite]

theorem length_overwrite_le :
    (overwrite zero old place data).length ≤ max old.length (place + data.length) := by
  unfold overwrite
  split
  · exact Nat.le_max_left _ _
  · simp only [List.length_append, List.length_take, List.length_replicate, List.length_drop]
    omega

theorem length_overwrite (hplace : place ≤ old.length) :
    (overwrite zero old place data).length = max old.length (place + data.length) := by
  unfold overwrite
  split
  · rename_i hempty
    rw [List.isEmpty_iff.mp hempty, List.length_nil]
    omega
  · simp only [List.length_append, List.length_take, List.length_replicate, List.length_drop]
    omega

theorem getElem?_overwrite {index : ℕ} {value : β}
    (h : (overwrite zero old place data)[index]? = some value) :
    old[index]? = some value ∨ value = zero ∧ old.length < place ∨
      ∃ more, index = place + more ∧ data[more]? = some value := by
  have hplace : (old.take place ++ List.replicate (place - old.length) zero).length = place := by
    simp only [List.length_append, List.length_take, List.length_replicate]
    omega
  unfold overwrite at h
  split at h
  · exact .inl h
  · rw [List.getElem?_append, List.length_append, hplace] at h
    split at h
    · rw [List.getElem?_append, hplace] at h
      split at h
      · rw [List.getElem?_append] at h
        split at h
        · rename_i hindex _
          rw [List.getElem?_take_of_lt hindex] at h
          exact .inl h
        · obtain ⟨hgap, hzero⟩ := List.mem_replicate.mp (List.mem_of_getElem? h)
          exact .inr (.inl ⟨hzero, by omega⟩)
      · exact .inr (.inr ⟨index - place, by omega, h⟩)
    · rw [List.getElem?_drop] at h
      exact .inl (by rwa [Nat.add_sub_cancel' (by omega)] at h)

variable {texts : Set (List β)} {text content : List β}

/-- Every element stands at its place in one of the texts, or is a filler. -/
structure Patched (zero : β) (texts : Set (List β)) (content : List β) : Prop where
  length : ∃ text ∈ texts, content.length ≤ text.length
  element : ∀ (index : ℕ) (value : β), content[index]? = some value →
    value = zero ∨ ∃ text ∈ texts, text[index]? = some value

theorem Patched.empty (h : text ∈ texts) : Patched zero texts [] where
  length := ⟨text, h, Nat.zero_le _⟩
  element index value hvalue := by simp at hvalue

theorem Patched.overwrite (h : Patched zero texts content) (htext : text ∈ texts)
    (hplace : place ≤ text.length) (hdata : data <+: text.drop place) :
    Patched zero texts (overwrite zero content place data) := by
  have hlength := hdata.length_le
  rw [List.length_drop] at hlength
  refine ⟨?_, fun index value hvalue => ?_⟩
  · obtain ⟨longest, hlongest, hle⟩ := h.length
    have hbound := @length_overwrite_le _ zero content data place
    rcases Nat.le_total longest.length text.length with hless | hless
    · exact ⟨text, htext, by omega⟩
    · exact ⟨longest, hlongest, by omega⟩
  · rcases getElem?_overwrite hvalue with hold | ⟨hzero, -⟩ | ⟨more, rfl, hnew⟩
    · exact h.element index value hold
    · exact .inl hzero
    · refine .inr ⟨text, htext, ?_⟩
      obtain ⟨rest, hrest⟩ := hdata
      rw [← List.getElem?_drop, ← hrest,
        List.getElem?_append_left (List.getElem?_eq_some_iff.mp hnew).1, hnew]

end Overwrite

section Follows

variable [DecidableEq δ] {calls : List (Call δ ν β)} {texts : Set (List β)} {data : List β}
  {descriptor : δ} {name : ν} {place : ℕ}

/-- What `descriptor` still does: `first`, and then it goes on with one of the texts. -/
def Follows (texts : Set (List β)) (calls : List (Call δ ν β)) (descriptor : δ) (place : ℕ)
    (first : List (Call δ ν β)) : Prop :=
  ∃ text ∈ texts, place ≤ text.length ∧ ∃ writes : List (List β),
    calls.filter (·.descriptor = descriptor) = first ++ writes.map (.wrote descriptor) ∧
      writes.flatten <+: text.drop place

theorem Follows.of_other {made : Call δ ν β} {user : δ} {first : List (Call δ ν β)}
    (h : Follows texts (made :: calls) user place first) (hother : user ≠ made.descriptor) :
    Follows texts calls user place first := by
  unfold Follows at h ⊢
  rwa [List.filter_cons_of_neg (by simpa using hother.symm)] at h

theorem Follows.opened {opened : ν} (h : Follows texts (.opened descriptor opened :: calls)
    descriptor place [.opened descriptor name]) : Follows texts calls descriptor place [] := by
  obtain ⟨text, htext, hplace, writes, hcalls, hwrites⟩ := h
  rw [List.filter_cons_of_pos (by simp [Call.descriptor])] at hcalls
  exact ⟨text, htext, hplace, writes, (List.cons_eq_cons.mp hcalls).2, hwrites⟩

theorem Follows.wrote (h : Follows texts (.wrote descriptor data :: calls) descriptor place []) :
    Follows texts calls descriptor (place + data.length) [] ∧
      ∃ text ∈ texts, place ≤ text.length ∧ data <+: text.drop place := by
  obtain ⟨text, htext, hplace, writes, hcalls, hwrites⟩ := h
  rw [List.filter_cons_of_pos (by simp [Call.descriptor])] at hcalls
  cases writes with
  | nil => simp at hcalls
  | cons now writes =>
      obtain ⟨hnow, hlater⟩ := List.cons_eq_cons.mp hcalls
      obtain rfl : data = now := by simpa using hnow
      have hdata : data <+: text.drop place := (List.prefix_append _ _).trans hwrites
      have hlength := hdata.length_le
      rw [List.length_drop] at hlength
      refine ⟨⟨text, htext, by omega, writes, hlater, ?_⟩, text, htext, hplace, hdata⟩
      obtain ⟨rest, hrest⟩ := hwrites
      refine ⟨rest, ?_⟩
      rw [← List.drop_drop, ← hrest, List.flatten_cons, List.append_assoc, List.drop_left]

theorem Follows.not_wrote : ¬ Follows texts (.wrote descriptor data :: calls) descriptor place
    [.opened descriptor name] := by
  rintro ⟨text, -, -, writes, hcalls, -⟩
  rw [List.filter_cons_of_pos (by simp [Call.descriptor])] at hcalls
  simp at hcalls

theorem Follows.not_opened (h : Follows texts calls descriptor place []) :
    .opened descriptor name ∉ calls := by
  intro hmem
  obtain ⟨text, -, -, writes, hcalls, -⟩ := h
  have hkept : Call.opened descriptor name ∈ calls.filter (·.descriptor = descriptor) :=
    List.mem_filter.mpr ⟨hmem, by simp [Call.descriptor]⟩
  rw [hcalls] at hkept
  simp at hkept

end Follows

variable [DecidableEq δ] [DecidableEq ν]

namespace Disk

def call (zero : β) (disk : Disk δ ν β) : Call δ ν β → Disk δ ν β
  | .opened descriptor name =>
      ⟨Function.update disk.content name [],
        Function.update disk.offset descriptor (some (name, 0))⟩
  | .wrote descriptor data =>
      match disk.offset descriptor with
      | some (name, place) =>
          ⟨Function.update disk.content name (overwrite zero (disk.content name) place data),
            Function.update disk.offset descriptor (some (name, place + data.length))⟩
      | none => disk

def run (zero : β) (disk : Disk δ ν β) (calls : List (Call δ ν β)) : Disk δ ν β :=
  calls.foldl (call zero) disk

variable {zero : β} {disk : Disk δ ν β} {name : ν} {descriptor : δ} {users : Set δ}
  {calls : List (Call δ ν β)}

def Confined (disk : Disk δ ν β) (name : ν) (users : Set δ) : Prop :=
  ∀ other place, disk.offset other = some (name, place) → other ∈ users

def Foreign (name : ν) (users : Set δ) (made : Call δ ν β) : Prop :=
  made.descriptor ∉ users ∧ ∀ other, made ≠ .opened other name

theorem Confined.opened (h : Confined disk name users) (huser : descriptor ∈ users) :
    Confined (disk.call zero (.opened descriptor name)) name users := by
  intro other place hother
  by_cases hsame : other = descriptor
  · rwa [hsame]
  · simp only [call, Function.update_of_ne hsame] at hother
    exact h other place hother

theorem Confined.wrote (h : Confined disk name users) (huser : descriptor ∈ users)
    (data : List β) : Confined (disk.call zero (.wrote descriptor data)) name users := by
  intro other place hother
  by_cases hsame : other = descriptor
  · rwa [hsame]
  · simp only [call] at hother
    split at hother
    · simp only [Function.update_of_ne hsame] at hother
      exact h other place hother
    · exact h other place hother

theorem Confined.foreign (h : Confined disk name users) {made : Call δ ν β}
    (hforeign : Foreign name users made) :
    Confined (disk.call zero made) name users ∧
      (disk.call zero made).content name = disk.content name ∧
      ∀ user ∈ users, (disk.call zero made).offset user = disk.offset user := by
  obtain ⟨hstranger, hname⟩ := hforeign
  cases made with
  | opened source opened =>
      have hopened : opened ≠ name := fun hsame => hname source (hsame ▸ rfl)
      refine ⟨fun other place hother => ?_, Function.update_of_ne hopened.symm _ _,
        fun user huser => Function.update_of_ne (ne_of_mem_of_not_mem huser hstranger) _ _⟩
      by_cases hsource : other = source
      · simp only [call, hsource, Function.update_self, Option.some.injEq, Prod.mk.injEq]
          at hother
        exact absurd hother.1 hopened
      · simp only [call, Function.update_of_ne hsource] at hother
        exact h other place hother
  | wrote source data =>
      unfold call
      dsimp only
      cases hsource : disk.offset source with
      | none => exact ⟨h, rfl, fun _ _ => rfl⟩
      | some found =>
          have hfound : found.1 ≠ name := fun hsame =>
            hstranger (h source found.2 (by rw [hsource, ← hsame]))
          refine ⟨fun other place hother => ?_, Function.update_of_ne hfound.symm _ _,
            fun user huser => Function.update_of_ne (ne_of_mem_of_not_mem huser hstranger) _ _⟩
          by_cases hother' : other = source
          · simp only [hother', Function.update_self, Option.some.injEq, Prod.mk.injEq]
              at hother
            exact absurd hother.1 hfound
          · simp only [Function.update_of_ne hother'] at hother
            exact h other place hother

theorem run_cons {made : Call δ ν β} :
    disk.run zero (made :: calls) = (disk.call zero made).run zero calls := rfl

theorem content_of_unopened (h : Confined disk name ∅)
    (hnames : ∀ other, .opened other name ∉ calls) :
    (disk.run zero calls).content name = disk.content name := by
  induction calls generalizing disk with
  | nil => rfl
  | cons made calls ih =>
      have hforeign : Foreign name ∅ made :=
        ⟨Set.notMem_empty _, fun other hsame => hnames other (hsame ▸ List.mem_cons_self)⟩
      obtain ⟨hconfined, hcontent, -⟩ := @Confined.foreign _ _ _ _ _ zero _ _ _ h _ hforeign
      rw [run_cons, ih hconfined fun other hmem => hnames other (List.mem_cons_of_mem _ hmem),
        hcontent]

theorem content_of_writes (h : Confined disk name {descriptor})
    (hplace : disk.offset descriptor = some (name, (disk.content name).length))
    (hnames : ∀ other, .opened other name ∉ calls) {writes : List (List β)}
    (hown : calls.filter (·.descriptor = descriptor) = writes.map (.wrote descriptor)) :
    (disk.run zero calls).content name = disk.content name ++ writes.flatten := by
  induction calls generalizing disk writes with
  | nil =>
      rw [List.filter_nil, eq_comm, List.map_eq_nil_iff] at hown
      simp [run, hown]
  | cons made calls ih =>
      have hrest : ∀ other, .opened other name ∉ calls :=
        fun other hmem => hnames other (List.mem_cons_of_mem _ hmem)
      rw [run_cons]
      by_cases hmade : made.descriptor = descriptor
      · rw [List.filter_cons_of_pos (by simpa using hmade)] at hown
        cases writes with
        | nil => simp at hown
        | cons data writes =>
            obtain ⟨rfl, hwritten⟩ := List.cons_eq_cons.mp hown
            have hcall : disk.call zero (.wrote descriptor data) =
                ⟨Function.update disk.content name (disk.content name ++ data),
                  Function.update disk.offset descriptor
                    (some (name, (disk.content name).length + data.length))⟩ := by
              simp only [call, hplace, overwrite_length]
            rw [ih (h.wrote rfl data) (by simp [hcall]) hrest hwritten, hcall]
            simp
      · rw [List.filter_cons_of_neg (by simpa using hmade)] at hown
        have hforeign : Foreign name {descriptor} made :=
          ⟨hmade, fun other hsame => hnames other (hsame ▸ List.mem_cons_self)⟩
        obtain ⟨hconfined, hcontent, hoffset⟩ :=
          @Confined.foreign _ _ _ _ _ zero _ _ _ h _ hforeign
        rw [ih hconfined (by rw [hoffset descriptor rfl, hcontent, hplace]) hrest hown, hcontent]

/-- The rule for a file that one descriptor is opened on, once: whatever the other
descriptors do, it holds what has been written through that one. -/
theorem content_of_sole (h : Confined disk name {descriptor})
    (hnames : ∀ other, .opened other name ∈ calls → other = descriptor)
    {writes : List (List β)}
    (hown : calls.filter (·.descriptor = descriptor) =
      .opened descriptor name :: writes.map (.wrote descriptor)) :
    (disk.run zero calls).content name = writes.flatten := by
  induction calls generalizing disk with
  | nil => simp at hown
  | cons made calls ih =>
      rw [run_cons]
      by_cases hmade : made.descriptor = descriptor
      · rw [List.filter_cons_of_pos (by simpa using hmade)] at hown
        obtain ⟨rfl, hwritten⟩ := List.cons_eq_cons.mp hown
        have hnone : ∀ other, .opened other name ∉ calls := by
          intro other hmem
          obtain rfl := hnames other (List.mem_cons_of_mem _ hmem)
          have hkept : Call.opened other name ∈ calls.filter (·.descriptor = other) :=
            List.mem_filter.mpr ⟨hmem, by simp [Call.descriptor]⟩
          rw [hwritten] at hkept
          simp at hkept
        rw [content_of_writes (h.opened rfl) (by simp [call]) hnone hwritten]
        simp [call]
      · rw [List.filter_cons_of_neg (by simpa using hmade)] at hown
        have hforeign : Foreign name {descriptor} made :=
          ⟨hmade, fun other hsame => hmade (by
            rw [hsame]
            exact hnames other (hsame ▸ List.mem_cons_self))⟩
        obtain ⟨hconfined, -, -⟩ := @Confined.foreign _ _ _ _ _ zero _ _ _ h _ hforeign
        exact ih hconfined (fun other hmem => hnames other (List.mem_cons_of_mem _ hmem)) hown

variable {texts : Set (List β)}

/-- Whoever has opened the file or will do so writes one of the texts to it. -/
structure Due (texts : Set (List β)) (name : ν) (disk : Disk δ ν β)
    (calls : List (Call δ ν β)) : Prop where
  writing : ∀ user place, disk.offset user = some (name, place) → Follows texts calls user place []
  opening : ∀ user, .opened user name ∈ calls → Follows texts calls user 0 [.opened user name]

theorem Due.call {made : Call δ ν β} (h : Due texts name disk (made :: calls)) :
    Due texts name (disk.call zero made) calls := by
  cases made with
  | opened source opened =>
      refine ⟨fun user place huser => ?_, fun user huser => ?_⟩
      · by_cases hsource : user = source
        · subst hsource
          simp only [Disk.call, Function.update_self, Option.some.injEq, Prod.mk.injEq] at huser
          obtain ⟨rfl, rfl⟩ := huser
          exact (h.opening user List.mem_cons_self).opened
        · simp only [Disk.call, Function.update_of_ne hsource] at huser
          exact (h.writing user place huser).of_other hsource
      · have hfollows := h.opening user (List.mem_cons_of_mem _ huser)
        by_cases hsource : user = source
        · subst hsource
          exact absurd huser hfollows.opened.not_opened
        · exact hfollows.of_other hsource
  | wrote source data =>
      refine ⟨fun user place huser => ?_, fun user huser => ?_⟩
      · unfold Disk.call at huser
        dsimp only at huser
        split at huser
        · rename_i opened reached hfound
          by_cases hsource : user = source
          · subst hsource
            simp only [Function.update_self, Option.some.injEq, Prod.mk.injEq] at huser
            obtain ⟨rfl, rfl⟩ := huser
            exact (h.writing user reached hfound).wrote.1
          · simp only [Function.update_of_ne hsource] at huser
            exact (h.writing user place huser).of_other hsource
        · rename_i hnone
          refine (h.writing user place huser).of_other fun hsource => ?_
          simp [hsource, Call.descriptor, hnone] at huser
      · have hfollows := h.opening user (List.mem_cons_of_mem _ huser)
        by_cases hsource : user = source
        · subst hsource
          exact absurd hfollows Follows.not_wrote
        · exact hfollows.of_other hsource

theorem patched_call {made : Call δ ν β} (h : Patched zero texts (disk.content name))
    (hdue : Due texts name disk (made :: calls)) :
    Patched zero texts ((disk.call zero made).content name) := by
  cases made with
  | opened source opened =>
      by_cases hopened : name = opened
      · subst hopened
        obtain ⟨text, htext, -⟩ := hdue.opening source List.mem_cons_self
        simpa only [Disk.call, Function.update_self] using Patched.empty htext
      · simpa only [Disk.call, Function.update_of_ne hopened] using h
  | wrote source data =>
      unfold Disk.call
      dsimp only
      split
      · rename_i opened reached hfound
        by_cases hopened : name = opened
        · subst hopened
          obtain ⟨-, text, htext, hplace, hdata⟩ := (hdue.writing source reached hfound).wrote
          simpa only [Function.update_self] using h.overwrite htext hplace hdata
        · simpa only [Function.update_of_ne hopened] using h
      · exact h

theorem patched_of_due (h : Patched zero texts (disk.content name))
    (hdue : Due texts name disk calls) :
    Patched zero texts ((disk.run zero calls).content name) := by
  induction calls generalizing disk with
  | nil => exact h
  | cons made calls ih => exact ih (patched_call h hdue) hdue.call

/-- The rule for a file that is opened any number of times, by any number of descriptors:
from the first time on, nothing but fillers stands between what their texts say. -/
theorem patched_of_opened (hdue : Due texts name disk calls)
    (hopened : .opened descriptor name ∈ calls) :
    Patched zero texts ((disk.run zero calls).content name) := by
  induction calls generalizing disk with
  | nil => simp at hopened
  | cons made calls ih =>
      rcases List.mem_cons.mp hopened with rfl | hlater
      · obtain ⟨text, htext, -⟩ := hdue.opening descriptor List.mem_cons_self
        rw [run_cons]
        refine patched_of_due ?_ hdue.call
        simpa only [call, Function.update_self] using Patched.empty htext
      · exact ih hdue.call hlater

/-- What each descriptor has written to the file it is open on is there, from the beginning
of the file on, as far as no other has written to the same places. -/
structure Stored (disk : Disk δ ν β) (written : δ → List β) : Prop where
  kept : ∀ user name place, disk.offset user = some (name, place) →
    place = (written user).length ∧ place ≤ (disk.content name).length
  placed : ∀ user name place, disk.offset user = some (name, place) →
    ∀ (index : ℕ) (value : β), (disk.content name)[index]? = some value →
      ∃ other place, disk.offset other = some (name, place) ∧
        (written other)[index]? = some value

section Stored

variable {written : δ → List β} {data : List β} {user : δ} {place : ℕ}

theorem Stored.opened (h : Stored disk written) (hnone : ∀ user, written user = []) :
    Stored (disk.call zero (.opened descriptor name)) written := by
  refine ⟨fun user found place huser => ?_, fun user found place huser index value hvalue => ?_⟩
  · by_cases hopener : user = descriptor
    · subst hopener
      simp only [call, Function.update_self, Option.some.injEq, Prod.mk.injEq] at huser
      simp [hnone, ← huser.2]
    · simp only [call, Function.update_of_ne hopener] at huser ⊢
      have hplace := (h.kept user found place huser).1
      rw [hnone, List.length_nil] at hplace
      simp [hnone, hplace]
  · by_cases hfound : found = name
    · simp [call, hfound] at hvalue
    · by_cases hopener : user = descriptor
      · simp only [call, hopener, Function.update_self, Option.some.injEq, Prod.mk.injEq]
          at huser
        exact absurd huser.1.symm hfound
      · simp only [call, Function.update_of_ne hopener, Function.update_of_ne hfound]
          at huser hvalue
        obtain ⟨other, reached, hother, hwritten⟩ :=
          h.placed user found place huser index value hvalue
        simp [hnone] at hwritten

theorem content_wrote (hopen : disk.offset descriptor = some (name, place)) :
    (disk.call zero (.wrote descriptor data)).content =
      Function.update disk.content name (overwrite zero (disk.content name) place data) := by
  simp only [call, hopen]

theorem offset_wrote (hopen : disk.offset descriptor = some (name, place)) :
    (disk.call zero (.wrote descriptor data)).offset =
      Function.update disk.offset descriptor (some (name, place + data.length)) := by
  simp only [call, hopen]

theorem Stored.kept_wrote (h : Stored disk written)
    (hopen : disk.offset descriptor = some (name, place)) {reached : ℕ} {found : ν}
    (huser : (disk.call zero (.wrote descriptor data)).offset user = some (found, reached)) :
    reached = (Function.update written descriptor (written descriptor ++ data) user).length ∧
      reached ≤ ((disk.call zero (.wrote descriptor data)).content found).length := by
  obtain ⟨hplace, hlength⟩ := h.kept descriptor name place hopen
  have hgrown := @length_overwrite _ zero _ data _ hlength
  rw [offset_wrote hopen] at huser
  rw [content_wrote hopen]
  by_cases hwriter : user = descriptor
  · subst hwriter
    simp only [Function.update_self, Option.some.injEq, Prod.mk.injEq] at huser
    obtain ⟨rfl, rfl⟩ := huser
    simp only [Function.update_self, List.length_append, hgrown]
    omega
  · rw [Function.update_of_ne hwriter] at huser ⊢
    obtain ⟨hreached, hle⟩ := h.kept user found reached huser
    refine ⟨hreached, ?_⟩
    by_cases hname : found = name
    · subst hname
      rw [Function.update_self, hgrown]
      omega
    · rwa [Function.update_of_ne hname]

theorem stays_wrote (hopen : disk.offset descriptor = some (name, place)) {other : δ}
    {found : ν} {reached index : ℕ} {value : β}
    (hother : disk.offset other = some (found, reached))
    (hwritten : (written other)[index]? = some value) :
    ∃ reached, (disk.call zero (.wrote descriptor data)).offset other = some (found, reached) ∧
      (Function.update written descriptor (written descriptor ++ data) other)[index]? =
        some value := by
  rw [offset_wrote hopen]
  by_cases hwriter : other = descriptor
  · subst hwriter
    obtain ⟨rfl, rfl⟩ := Prod.mk.inj (Option.some.inj (hopen.symm.trans hother))
    refine ⟨_, Function.update_self .., ?_⟩
    rw [Function.update_self, List.getElem?_append_left
      (List.getElem?_eq_some_iff.mp hwritten).1, hwritten]
  · exact ⟨reached, by rwa [Function.update_of_ne hwriter], by rwa [Function.update_of_ne hwriter]⟩

theorem Stored.placed_wrote (h : Stored disk written)
    (hopen : disk.offset descriptor = some (name, place)) {found : ν} {reached index : ℕ} {value : β}
    (huser : (disk.call zero (.wrote descriptor data)).offset user = some (found, reached))
    (hvalue : ((disk.call zero (.wrote descriptor data)).content found)[index]? = some value) :
    ∃ other reached,
      (disk.call zero (.wrote descriptor data)).offset other = some (found, reached) ∧
        (Function.update written descriptor (written descriptor ++ data) other)[index]? =
          some value := by
  obtain ⟨hplace, hlength⟩ := h.kept descriptor name place hopen
  rw [content_wrote hopen] at hvalue
  by_cases hname : found = name
  · subst hname
    rw [Function.update_self] at hvalue
    rcases getElem?_overwrite hvalue with hold | ⟨-, hgap⟩ | ⟨more, rfl, hnew⟩
    · obtain ⟨other, reached, hother, hwritten⟩ :=
        h.placed descriptor found place hopen index value hold
      exact ⟨other, stays_wrote hopen hother hwritten⟩
    · omega
    · refine ⟨descriptor, place + data.length, ?_, ?_⟩
      · rw [offset_wrote hopen, Function.update_self]
      · rw [Function.update_self, hplace, List.getElem?_append_right (Nat.le_add_right _ _),
          Nat.add_sub_cancel_left, hnew]
  · rw [Function.update_of_ne hname] at hvalue
    rw [offset_wrote hopen] at huser
    have hreader : user ≠ descriptor := by
      rintro rfl
      simp only [Function.update_self, Option.some.injEq, Prod.mk.injEq] at huser
      exact hname huser.1.symm
    rw [Function.update_of_ne hreader] at huser
    obtain ⟨other, reached, hother, hwritten⟩ :=
      h.placed user found reached huser index value hvalue
    exact ⟨other, stays_wrote hopen hother hwritten⟩

theorem Stored.wrote (h : Stored disk written) :
    Stored (disk.call zero (.wrote descriptor data))
      (Function.update written descriptor (written descriptor ++ data)) := by
  cases hopen : disk.offset descriptor with
  | some file =>
      exact ⟨fun _ _ _ => h.kept_wrote hopen, fun _ _ _ huser _ _ => h.placed_wrote hopen huser⟩
  | none =>
      have hsame : disk.call zero (.wrote descriptor data) = disk := by
        simp only [call, hopen]
      have hother {user : δ} {file : ν × ℕ} (huser : disk.offset user = some file) :
          Function.update written descriptor (written descriptor ++ data) user = written user :=
        Function.update_of_ne (by rintro rfl; simp [hopen] at huser) ..
      rw [hsame]
      refine ⟨fun user found place huser => ?_, fun user found place huser index value hvalue => ?_⟩
      · rw [hother huser]
        exact h.kept user found place huser
      · obtain ⟨other, reached, hreached, hwritten⟩ :=
          h.placed user found place huser index value hvalue
        exact ⟨other, reached, hreached, by rwa [hother hreached]⟩

end Stored

end Disk

end SlidingWindow.Library.Files

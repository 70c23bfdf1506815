import SlidingWindow.Session
import SlidingWindow.ServerTurns
import SlidingWindow.Completion
import SlidingWindow.Library.Files

/-! Several children and one file. Each child opens the file once, with `O_TRUNC`, and
`main` forks a child for every copy of the file name that reaches it. -/
namespace SlidingWindow.Truncation

open Library

variable {s s' : Server} {w : World} {input : Input}

/-- The child does not open the file any more. -/
def Settled (s : Server) : Prop := s.fileOpen = true ∨ s.state = .done ∨ s.state = .exited

/-- The packet in the buffer is the one that is written next. -/
def Due (s : Server) : Prop :=
  s.state = .receivedData ∧
    (s.hasSREJ = true ∧ fieldOf s.recvPacket.buf = s.numSREJ ∨
      fieldOf s.recvPacket.buf = s.curRRnum)

structure Adds (s s' : Server) (added : Trace) : Prop where
  trace : s'.trace = s.trace ++ added
  fileOpen : s'.fileOpen = s.fileOpen

theorem adds_receivedData (hstate : s.state = .receivedData) (h : s.receivedData = .ok s') :
    ∃ added, Adds s s' added ∧ Trace.opens added = [] ∧
      (Trace.writes added ≠ [] → Due s) := by
  obtain ⟨hsettled, ⟨response, ⟨written, seqNum, htrace⟩, -⟩, hdue⟩ :=
    ServerWindow.handles_of_dataTurn (Server.dataTurn h)
  have hopen := ServerWindow.eq_of_frame Server.fileOpen (fun _ => rfl) hsettled
  rw [List.append_assoc] at htrace
  refine ⟨_, ⟨htrace, hopen⟩, ?_, ?_⟩
  · simp [Trace.opens, List.filterMap_append, Event.opened?]
  · intro hwrites
    refine ⟨hstate, hdue fun hsame => hwrites ?_⟩
    rw [htrace, Trace.writes_append] at hsame
    exact List.append_right_eq_self.mp hsame

/-- The log of one turn: only a child that has not settled opens the file, and only a
packet that is due is written. -/
theorem turn_adds (h : Server.Turn s input s') :
    ∃ added, s'.trace = s.trace ++ added ∧
      (Trace.opens added ≠ [] → ¬ Settled s ∧ Trace.writes added = []) ∧
      (Trace.writes added ≠ [] → Due s) := by
  have hquiet {trace : Trace} (htrace : trace = s.trace) : ∃ added,
      trace = s.trace ++ added ∧ (Trace.opens added ≠ [] → ¬ Settled s ∧
        Trace.writes added = []) ∧ (Trace.writes added ≠ [] → Due s) :=
    ⟨[], by rw [htrace, List.append_nil], by simp, by simp⟩
  cases h with
  | keptOpen | refused | bufferSize | windowSize | ended =>
      exact ⟨_, rfl, by simp, by simp⟩
  | opened state copied notOpen =>
      refine ⟨_, List.append_assoc .., fun _ => ⟨?_, rfl⟩, fun hwrites => absurd rfl hwrites⟩
      simp [Settled, state, notOpen]
  | allocated state allocates =>
      obtain rfl := DataPhase.readyForDataPacketSetup_ok allocates
      exact hquiet rfl
  | delivered state delivers =>
      obtain ⟨added, hadded, hopens, hwrites⟩ := adds_receivedData state delivers
      exact ⟨added, hadded.trace, by simp [hopens], hwrites⟩
  | _ => exact hquiet rfl

theorem Settled.turn (hsettled : Settled s) (h : Server.Turn s input s') : Settled s' := by
  rcases hsettled with hopen | hhalted
  · cases h with
    | keptOpen => exact .inl hopen
    | opened => exact .inl rfl
    | allocated state allocates =>
        obtain rfl := DataPhase.readyForDataPacketSetup_ok allocates
        exact .inl hopen
    | delivered state delivers =>
        obtain ⟨added, hadded, -⟩ := adds_receivedData state delivers
        exact .inl (hadded.fileOpen.trans hopen)
    | _ => exact .inl hopen
  · cases h with
    | halted => exact .inr hhalted
    | allocated state | delivered state => grind
    | crashed state | corrupted state => unfold Server.waits at state; grind
    | _ => grind

def callOf? (index : ℕ) : Event → Option (Files.Call ℕ Bytes UInt8)
  | .opened name => some (.opened index name)
  | .wrote data => some (.wrote index data)
  | .sent _ _ => none

def calls (index : ℕ) (trace : Trace) : List (Files.Call ℕ Bytes UInt8) :=
  trace.filterMap (callOf? index)

section Calls

variable {index other : ℕ} {trace first second : Trace} {name : Bytes}

@[simp] theorem calls_append : calls index (first ++ second) = calls index first ++
    calls index second := by
  simp [calls]

theorem descriptor_of_mem {made : Files.Call ℕ Bytes UInt8} (h : made ∈ calls index trace) :
    made.descriptor = index := by
  obtain ⟨event, -, hmade⟩ := List.mem_filterMap.mp h
  cases event with
  | opened name =>
      cases hmade
      rfl
  | wrote data =>
      cases hmade
      rfl
  | sent dst datagram => contradiction

theorem opened_mem_calls :
    .opened other name ∈ calls index trace ↔ other = index ∧ name ∈ trace.opens := by
  simp only [calls, Trace.opens, List.mem_filterMap]
  constructor
  · rintro ⟨event, hevent, hmade⟩
    cases event with
    | opened found =>
        cases hmade
        exact ⟨rfl, _, hevent, rfl⟩
    | wrote data => simp [callOf?] at hmade
    | sent dst datagram => contradiction
  · rintro ⟨rfl, event, hevent, hname⟩
    cases event with
    | opened found =>
        cases hname
        exact ⟨_, hevent, rfl⟩
    | wrote data => contradiction
    | sent dst datagram => contradiction

theorem calls_of_opens (h : trace.opens = []) :
    calls index trace = trace.writes.map (.wrote index) := by
  induction trace with
  | nil => rfl
  | cons event trace ih =>
      cases event with
      | opened name => simp [Trace.opens, Event.opened?] at h
      | wrote data => exact congrArg (.wrote index data :: ·) (ih h)
      | sent dst datagram => exact ih h

theorem writes_calls : Files.writes (calls index trace) = trace.writes.map (index, ·) := by
  simp only [calls, Files.writes, Trace.writes, List.filterMap_filterMap, List.map_filterMap]
  congr 1
  funext event
  cases event <;> rfl

end Calls

def produced (w : World) : World.Label → List (Files.Call ℕ Bytes UInt8)
  | .child index choice =>
      match w.children[index]? with
      | some s =>
          calls index
            ((s.step (World.resolve (w.inbox (.child index)) choice)).trace.drop s.trace.length)
      | none => []
  | _ => []

def history : World → List World.Label → List (Files.Call ℕ Bytes UInt8)
  | _, [] => []
  | w, label :: labels => produced w label ++ history (w.step label) labels

def directory (files : Bytes → Bytes) (history : List (Files.Call ℕ Bytes UInt8)) :
    Files.Disk ℕ Bytes UInt8 :=
  Files.Disk.run 0 ⟨files, fun _ => none⟩ history

def Written (w : World) : Prop := ∃ s ∈ w.children, s.trace.writes ≠ []

/-- The condition on one turn: nothing is forked once data has been written, and when a
child writes, all others have opened the file, or will not. -/
def Guarded (w : World) : World.Label → Prop
  | .main choice => Written w → (w.step (.main choice)).children = w.children
  | .child index _ => ∀ s, w.children[index]? = some s → Due s → ∀ other ∈ w.children,
      Settled other
  | .client _ => True

def Unthreatened (w : World) : Prop := Written w → ∀ s ∈ w.children, Settled s

theorem produced_child {index : ℕ} (choice : World.Choice)
    (hchild : w.children[index]? = some s) :
    ∃ added, (s.step (World.resolve (w.inbox (.child index)) choice)).trace = s.trace ++ added ∧
      produced w (.child index choice) = calls index added ∧
      (Trace.opens added ≠ [] → ¬ Settled s ∧ Trace.writes added = []) ∧
      (Trace.writes added ≠ [] → Due s) := by
  obtain ⟨added, htrace, hadded⟩ :=
    turn_adds (Server.turn s (World.resolve (w.inbox (.child index)) choice))
  exact ⟨added, htrace, by simp only [produced, hchild, htrace, List.drop_left], hadded⟩

theorem writes_child_iff {index : ℕ} (choice : World.Choice)
    (hchild : w.children[index]? = some s) :
    (s.step (World.resolve (w.inbox (.child index)) choice)).trace.writes ≠ [] ↔
      s.trace.writes ≠ [] ∨ Files.writes (produced w (.child index choice)) ≠ [] := by
  obtain ⟨added, htrace, hproduced, -⟩ := produced_child choice hchild
  rw [htrace, hproduced, writes_calls, Trace.writes_append, Ne, List.append_eq_nil_iff,
    not_and_or, Ne, Ne, List.map_eq_nil_iff]

theorem exists_child_of_produced {label : World.Label} (h : produced w label ≠ []) :
    ∃ index choice s, label = .child index choice ∧ w.children[index]? = some s := by
  cases label with
  | client choice => exact absurd rfl h
  | main choice => exact absurd rfl h
  | child index choice =>
      cases hchild : w.children[index]? with
      | none => simp [produced, hchild] at h
      | some s => exact ⟨index, choice, s, rfl, hchild⟩

theorem produced_ne_nil {label : World.Label} (h : Files.writes (produced w label) ≠ []) :
    produced w label ≠ [] :=
  fun hnone => h (by rw [hnone]; rfl)

theorem Unthreatened.opens (h : Unthreatened w) {label : World.Label} {child : ℕ}
    {name : Bytes} (hopened : .opened child name ∈ produced w label) :
    ¬ Written w ∧ Files.writes (produced w label) = [] := by
  obtain ⟨index, choice, s, rfl, hchild⟩ := exists_child_of_produced (List.ne_nil_of_mem hopened)
  obtain ⟨added, -, hproduced, hopens, -⟩ := produced_child choice hchild
  rw [hproduced] at hopened ⊢
  obtain ⟨hunsettled, hwrites⟩ := hopens (List.ne_nil_of_mem (opened_mem_calls.mp hopened).2)
  refine ⟨fun hwritten => hunsettled (h hwritten s (List.mem_of_getElem? hchild)), ?_⟩
  rw [writes_calls, hwrites]
  rfl

theorem written_step_iff (label : World.Label) : Written (w.step label) ↔
    Written w ∨ Files.writes (produced w label) ≠ [] := by
  cases label with
  | client choice => simp [produced, Written, World.step]
  | main choice =>
      rcases w.step_main choice with hsame | ⟨src, datagram, received, -, -, hfork⟩
      · simp [hsame, produced]
      · simp [hfork, produced, Written, Server.forked]
  | child index choice =>
      constructor
      · rintro ⟨s', hs', hwrites⟩
        by_contra hnone
        simp only [not_or, not_not, Written, not_exists, not_and] at hnone
        refine hwrites (World.forall_children_step (P := fun s => s.trace.writes = [])
          hnone.1 (fun s hchild => ?_) s' hs')
        by_contra hnow
        rcases (writes_child_iff choice hchild).mp hnow with hbefore | hadded
        · exact hbefore (hnone.1 s (List.mem_of_getElem? hchild))
        · exact hadded hnone.2
      · have hkept {j : ℕ} {s : Server} (hchild : w.children[j]? = some s)
            (hwrites : s.trace.writes ≠ [] ∨
              index = j ∧ Files.writes (produced w (.child index choice)) ≠ []) :
            Written (w.step (.child index choice)) := by
          have hstep := w.getElem?_children_step index j choice
          rw [hchild, Option.map_some] at hstep
          refine ⟨_, List.mem_of_getElem? hstep, ?_⟩
          by_cases hindex : index = j
          · subst hindex
            rw [if_pos rfl, writes_child_iff choice hchild]
            exact hwrites.imp id And.right
          · rw [if_neg hindex]
            exact hwrites.resolve_right fun hsame => hindex hsame.1
        rintro (⟨s, hs, hwrites⟩ | hwrites)
        · obtain ⟨j, hchild⟩ := List.mem_iff_getElem?.mp hs
          exact hkept hchild (.inl hwrites)
        · obtain ⟨found, same, s, heq, hchild⟩ :=
            exists_child_of_produced (produced_ne_nil hwrites)
          cases heq
          exact hkept hchild (.inr ⟨rfl, hwrites⟩)

theorem Unthreatened.step (h : Unthreatened w) {label : World.Label}
    (hguarded : Guarded w label) : Unthreatened (w.step label) := by
  intro hwritten
  cases label with
  | client choice => exact h hwritten
  | main choice =>
      have hbefore : Written w := by
        simpa [produced] using (written_step_iff (.main choice)).mp hwritten
      rw [hguarded hbefore]
      exact h hbefore
  | child index choice =>
      have hall : ∀ s ∈ w.children, Settled s := by
        rcases (written_step_iff (.child index choice)).mp hwritten with hbefore | hwrites
        · exact h hbefore
        · obtain ⟨found, same, s, heq, hchild⟩ :=
            exists_child_of_produced (produced_ne_nil hwrites)
          cases heq
          obtain ⟨added, -, hproduced, -, hdue⟩ := produced_child choice hchild
          rw [hproduced, writes_calls] at hwrites
          exact hguarded s hchild (hdue fun hnone => hwrites (by rw [hnone]; rfl))
      exact World.forall_children_step hall fun s hs =>
        (hall s (List.mem_of_getElem? hs)).turn (Server.turn s _)

section Decidable

instance : DecidablePred Settled := fun s =>
  inferInstanceAs (Decidable (s.fileOpen = true ∨ s.state = .done ∨ s.state = .exited))

instance : DecidablePred Due := fun s =>
  inferInstanceAs (Decidable (s.state = .receivedData ∧ (_ ∨ _)))

instance : DecidablePred Written := fun w =>
  inferInstanceAs (Decidable (∃ s ∈ w.children, s.trace.writes ≠ []))

instance : (label : World.Label) → Decidable (Guarded w label)
  | .main choice =>
      inferInstanceAs (Decidable (Written w → (w.step (.main choice)).children = w.children))
  | .child index _ =>
      inferInstanceAs (Decidable (∀ s ∈ w.children[index]?, Due s → ∀ other ∈ w.children,
        Settled other))
  | .client _ => .isTrue trivial

end Decidable

end SlidingWindow.Truncation

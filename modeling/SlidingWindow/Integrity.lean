import SlidingWindow.Linked
import SlidingWindow.LocalFile

/-! The bytes of the file, from the `read` calls of `rcopy` to the `write` calls of the
child, between programs that are linked with the error library. -/
namespace SlidingWindow.Integrity

open Library Phases Transfer Completion Linked LocalFile

variable {u : Upload} {w : World} {c : Client} {s : Server}

theorem length_children_step (w : World) (label : World.Label) :
    w.children.length ≤ (w.step label).children.length := by
  cases label with
  | client => exact Nat.le_refl _
  | child => simp [World.step]
  | main choice =>
      rcases w.step_main choice with hsame | ⟨src, datagram, received, -, -, hfork⟩
      · rw [hsame]
      · simp [hfork]

theorem length_children_run (w : World) (labels : List World.Label) :
    w.children.length ≤ (Runs.run World.step w labels).children.length := by
  induction labels generalizing w with
  | nil => exact Nat.le_refl _
  | cons label labels ih =>
      exact Nat.le_trans (length_children_step w label) (ih (w.step label))

/-- Children are never lost, so it is enough to count them at the end. -/
theorem along_oneChild {labels : List World.Label}
    (hone : (Runs.run World.step w labels).children.length ≤ 1) :
    Runs.Along World.step OneChild w labels := by
  rw [Runs.along_iff_split]
  rintro first label second rfl
  rw [Runs.run_append, Runs.run_cons] at hone
  exact Nat.le_trans (length_children_run _ second) hone

theorem inSession_run (hcountable : u.Countable) (labels : List World.Label)
    (hone : (Runs.run World.step (session u) labels).children.length ≤ 1) :
    InSession u (Runs.run World.step (session u) labels) :=
  Runs.run_invariant (InSession u) (fun _ _ h hone => h.step hcountable hone)
    (.inl (alone_session u)) (along_oneChild hone)

/-- What has been written is the beginning of the file; when either side has told the other
that it has ended, it is the file. -/
structure Intact (file : Bytes) (c : Client) (s : Server) : Prop where
  part : s.trace.writes.flatten <+: file
  ended : ∀ dst datagram, .sent dst datagram ∈ c.trace →
    flagOf datagram = some .endOfFile → s.trace.writes.flatten = file
  confirmed : ∀ dst datagram, .sent dst datagram ∈ s.trace →
    flagOf datagram = some .ackEof → s.trace.writes.flatten = file

theorem intact_of_pair {r : Request} (h : Pair r.upload c s) : Intact r.file c s := by
  have hstored := h.serving.phase.stored
  have hwhole (hcomplete : Complete r.upload s) : s.trace.writes.flatten = r.file := by
    rw [Complete.writes hcomplete hstored, r.flatten_chunks]
  refine ⟨?_, fun dst datagram hsent hflag => ?_, fun dst datagram hsent hflag => ?_⟩
  · rw [hstored.writes]
    exact r.take_prefix _
  · exact hwhole ((h.sends dst datagram hsent).2.complete_of_flag hflag)
  · exact hwhole ((h.serving.sends dst datagram hsent).2.complete_of_flag hflag)

/-- Whatever the file, the command line and the settings of the error library are, in a
session with one child nothing but the beginning of the file is ever written, and the whole
file before its end is announced or confirmed. -/
theorem linked_intact (r : Request) (client server : Setting) (labels : List World.Label) :
    let n := Runs.run Network.step (start r.upload client server) labels
    n.children.length ≤ 1 → ∀ child ∈ n.children,
      Intact r.file n.client.process child.process := by
  intro n hone child hchild
  obtain ⟨labels', -, hcovered⟩ := covered_run r.countable client server labels
  have hworld : n.world = _ := hcovered.world
  have hsession := inSession_run r.countable labels' (by
    rw [← hworld]
    simpa [Network.world] using hone)
  rw [← hworld] at hsession
  have hmem : child.process ∈ n.world.children := List.mem_map_of_mem hchild
  rcases hsession with halone | ⟨s, hcarries⟩
  · simp [halone.children] at hmem
  · rw [hcarries.children, List.mem_singleton] at hmem
    rw [hmem]
    exact intact_of_pair hcarries.pair

end SlidingWindow.Integrity

import SlidingWindow.Messages

/-! The local file as bytes. `send_data` reads it with one `read` for each packet, until
`read` returns zero. -/
namespace SlidingWindow.LocalFile

/-- What the calls of `read(localFile, fileData, count)` return one after the other, for a
regular file with the bytes `rest` behind its offset. -/
def reads (count : ℕ) (rest : Bytes) : List Bytes :=
  if rest = [] ∨ count = 0 then [] else rest.take count :: reads count (rest.drop count)
termination_by rest.length
decreasing_by
  rename_i hmore
  rw [not_or, ← ne_eq, ← List.length_pos_iff] at hmore
  rw [List.length_drop]
  omega

variable {count : ℕ}

theorem reads_nil (count : ℕ) : reads count [] = [] := by
  rw [reads]
  exact if_pos (.inl rfl)

theorem reads_of_ne_nil (hcount : 0 < count) {rest : Bytes} (h : rest ≠ []) :
    reads count rest = rest.take count :: reads count (rest.drop count) := by
  rw [reads]
  exact if_neg (by simp [h]; omega)

theorem flatten_reads (hcount : 0 < count) (rest : Bytes) : (reads count rest).flatten = rest := by
  induction rest using reads.induct count with
  | case1 rest hend =>
      have hnil : rest = [] := hend.resolve_right (by omega)
      rw [hnil, reads_nil]
      rfl
  | case2 rest hmore ih =>
      have hne : rest ≠ [] := fun hnil => hmore (.inl hnil)
      rw [reads_of_ne_nil hcount hne, List.flatten_cons, ih, List.take_append_drop]

theorem length_of_mem_reads {rest chunk : Bytes} (h : chunk ∈ reads count rest) :
    1 ≤ chunk.length ∧ chunk.length ≤ count := by
  induction rest using reads.induct count with
  | case1 rest hend =>
      rw [reads, if_pos hend] at h
      simp at h
  | case2 rest hmore ih =>
      rw [reads, if_neg hmore, List.mem_cons] at h
      rw [not_or, ← ne_eq, ← List.length_pos_iff] at hmore
      rcases h with rfl | h
      · rw [List.length_take]
        omega
      · exact ih h

theorem length_reads (hcount : 0 < count) (rest : Bytes) :
    (reads count rest).length = (rest.length + count - 1) / count := by
  induction rest using reads.induct count with
  | case1 rest hend =>
      have hnil : rest = [] := hend.resolve_right (by omega)
      rw [hnil, reads_nil, List.length_nil, List.length_nil, Nat.div_eq_of_lt (by omega)]
  | case2 rest hmore ih =>
      have hne : rest ≠ [] := fun hnil => hmore (.inl hnil)
      have hpos := List.length_pos_iff.mpr hne
      rw [reads_of_ne_nil hcount hne, List.length_cons, ih, List.length_drop]
      rw [show rest.length + count - 1 = rest.length - 1 + count by omega,
        Nat.add_div_right _ hcount]
      rcases Nat.lt_or_ge rest.length count with hlast | hfull
      · rw [Nat.div_eq_of_lt (by omega), Nat.div_eq_of_lt (by omega)]
      · rw [Nat.sub_add_cancel hfull]

structure Request where
  file : Bytes
  width : ℕ
  bufSize : ℕ
  name : Bytes
  bufSize_range : 400 ≤ bufSize ∧ bufSize ≤ 1400
  width_range : 1 ≤ width ∧ width < 4294967296
  name_length : name.length ≤ 1000
  /-- The packet numbers do not wrap. -/
  count : (file.length + bufSize - 1) / bufSize + width < 4294967295

namespace Request

def upload (r : Request) : Upload where
  chunks := reads r.bufSize r.file
  width := r.width
  bufSize := r.bufSize
  name := r.name
  chunk_length _ := length_of_mem_reads
  bufSize_range := r.bufSize_range
  width_lt := r.width_range.2
  name_length := r.name_length

variable (r : Request)

theorem flatten_chunks : r.upload.chunks.flatten = r.file := by
  have hrange := r.bufSize_range
  exact flatten_reads (by omega) r.file

theorem countable : r.upload.Countable where
  positive := r.width_range.1
  count := by
    have hrange := r.bufSize_range
    have hcount := r.count
    change (reads r.bufSize r.file).length + r.width < 4294967295
    rwa [length_reads (by omega)]

theorem take_prefix (number : ℕ) : (r.upload.chunks.take number).flatten <+: r.file := by
  refine ⟨(r.upload.chunks.drop number).flatten, ?_⟩
  rw [← List.flatten_append, List.take_append_drop, flatten_chunks]

end Request

end SlidingWindow.LocalFile

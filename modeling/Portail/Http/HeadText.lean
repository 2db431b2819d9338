import Portail.Http.RequestHead

/-!
# Heads as lines of text

`header_lines` and `split_first_line`, which the rewriting passes of
`http_filters.rs` share. On the text of a head they give back its first line and
its fields.
-/

namespace Portail.Http

open Lib List

/-- A line without the CR before its LF. -/
def stripCr (line : Bytes) : Bytes := if line.getLast? = some cr then line.dropLast else line

/-- The non-empty lines of a header block. -/
def headerLines (raw : Bytes) : List Bytes :=
  ((raw.splitOn lf).map stripCr).filter fun line => !line.isEmpty

/-- The first line, and all after its line end. -/
def splitFirstLine (raw : Bytes) : Bytes × Bytes :=
  let nl := match memchr lf raw with
    | some p => p + 1
    | none => raw.length
  let line := raw.take nl
  let line := if line.getLast? = some lf then line.dropLast else line
  (stripCr line, raw.drop nl)

theorem stripCr_concat (line : Bytes) : stripCr (line ++ [cr]) = line := by
  simp [stripCr]

theorem mem_headerLines {raw line : Bytes} (h : line ∈ headerLines raw) :
    line ≠ [] ∧ lf ∉ line := by
  rw [headerLines, mem_filter, mem_map] at h
  obtain ⟨⟨piece, hpiece, rfl⟩, hne⟩ := h
  have hlf : lf ∉ piece := (mem_splitOn hpiece).1
  refine ⟨by simpa using hne, fun hmem => hlf ?_⟩
  rw [stripCr] at hmem
  split_ifs at hmem
  · exact mem_of_mem_dropLast hmem
  · exact hmem

/-- A line's LF is the first one, behind its CR. -/
theorem cut_at_lf {line : Bytes} (hlf : lf ∉ line) (rest : Bytes) :
    lf ∉ line ++ [cr] ∧ line ++ (crlf ++ rest) = (line ++ [cr]) ++ lf :: rest := by
  have hcr : lf ≠ cr := by decide
  simp [hlf, hcr]

theorem splitOn_lf_line {line : Bytes} (hlf : lf ∉ line) (rest : Bytes) :
    (line ++ (crlf ++ rest)).splitOn lf = (line ++ [cr]) :: rest.splitOn lf := by
  obtain ⟨hlf', hcut⟩ := cut_at_lf hlf rest
  rw [hcut, splitOn_append_cons_self_of_not_mem hlf']

theorem headerLines_line {line : Bytes} (hlf : lf ∉ line) (hne : line ≠ []) (rest : Bytes) :
    headerLines (line ++ (crlf ++ rest)) = line :: headerLines rest := by
  rw [headerLines, splitOn_lf_line hlf, map_cons, stripCr_concat,
    filter_cons_of_pos (by simpa using hne)]
  rfl

theorem headerLines_blank (rest : Bytes) : headerLines (crlf ++ rest) = headerLines rest := by
  rw [headerLines, ← nil_append (crlf ++ rest), splitOn_lf_line not_mem_nil, map_cons,
    filter_cons_of_neg (by decide)]
  rfl

@[simp] theorem headerLines_nil : headerLines [] = [] := by decide

def blockWire (lines : List Bytes) : Bytes := lines.flatMap (· ++ crlf)

theorem headerLines_block {lines : List Bytes} (h : ∀ line ∈ lines, line ≠ [] ∧ lf ∉ line) :
    headerLines (blockWire lines ++ crlf) = lines := by
  induction lines with
  | nil =>
    have hblank := headerLines_blank []
    rwa [append_nil, headerLines_nil] at hblank
  | cons line lines ih =>
    rw [forall_mem_cons] at h
    rw [blockWire, flatMap_cons, append_assoc, append_assoc,
      headerLines_line h.1.2 h.1.1, ← blockWire, ih h.2]

theorem blockWire_fields (fs : List Field) : blockWire (fs.map Field.line) = fieldsWire fs := by
  simp only [blockWire, fieldsWire, flatMap_map]
  exact flatMap_congr fun f _ => f.wire_eq.symm

theorem headerLines_fields (fs : List Field) :
    headerLines (fieldsWire fs ++ crlf) = fs.map Field.line := by
  rw [← blockWire_fields]
  exact headerLines_block (forall_mem_map.mpr fun f _ => ⟨f.line_ne, f.lf_not_mem_line⟩)

theorem splitFirstLine_line {line : Bytes} (hlf : lf ∉ line) (rest : Bytes) :
    splitFirstLine (line ++ (crlf ++ rest)) = (line, rest) := by
  obtain ⟨hlf', hcut⟩ := cut_at_lf hlf rest
  have htake : ((line ++ [cr]) ++ lf :: rest).take ((line ++ [cr]).length + 1) =
      (line ++ [cr]) ++ [lf] := by
    rw [take_length_add_append]
    rfl
  have hdrop : ((line ++ [cr]) ++ lf :: rest).drop ((line ++ [cr]).length + 1) = rest := by
    rw [drop_length_add_append]
    rfl
  rw [hcut, splitFirstLine, memchr_append hlf']
  simp only [htake, hdrop]
  simp [stripCr]

/-- The name a line is filed under, when it has a colon. -/
theorem memchr_colon_line (f : Field) : memchr colon f.line = some f.name.length :=
  memchr_append (fun h => (tchar_spec colon (f.name_tchar colon h)).2.2.1 rfl) f.value

end Portail.Http

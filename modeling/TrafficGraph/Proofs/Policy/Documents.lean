import TrafficGraph.Policy.Manifest
import TrafficGraph.Proofs.Text.Lines

/-!
# Documents of a text

A separator ends a document and begins another one, whatever is in front of it and behind it.
The separator is a line with nothing else on it, so one whose line end begins with a carriage
return is not one yet: if there is none of that kind, a text has the same documents with
whichever line ends, and if there is one, it has three hyphens more in them.
-/

namespace TrafficGraph
namespace Manifest

open Text

/-!
# Groups of lines
-/

theorem groups_ne_nil (ls : List (List Char)) : groups ls ≠ [] := by
  cases ls with
  | nil => exact List.cons_ne_nil _ _
  | cons line rest =>
      unfold groups
      split
      · exact List.cons_ne_nil _ _
      · split <;> exact List.cons_ne_nil _ _

theorem groups_cons_separator (ls : List (List Char)) :
    groups (separator :: ls) = [] :: groups ls :=
  if_pos rfl

theorem groups_cons_of_ne {line : List Char} {ls group : List (List Char)}
    {more : List (List (List Char))} (hline : line ≠ separator)
    (h : groups ls = group :: more) : groups (line :: ls) = (line :: group) :: more := by
  rw [groups, if_neg hline, h]

theorem groups_append_cons (ls ms : List (List Char)) :
    groups (ls ++ separator :: ms) = groups ls ++ groups ms := by
  induction ls with
  | nil => exact groups_cons_separator ms
  | cons line rest ih =>
      rw [List.cons_append]
      by_cases hline : line = separator
      · rw [hline, groups_cons_separator, groups_cons_separator, ih, List.cons_append]
      · cases h : groups rest with
        | nil => exact absurd h (groups_ne_nil rest)
        | cons group more =>
            rw [h, List.cons_append] at ih
            rw [groups_cons_of_ne hline h, groups_cons_of_ne hline ih, List.cons_append]

theorem flatten_groups (ls : List (List Char)) :
    (groups ls).flatten = ls.filter (· ≠ separator) := by
  induction ls with
  | nil => rfl
  | cons line rest ih =>
      by_cases hline : line = separator
      · rw [hline, groups_cons_separator, List.flatten_cons, List.nil_append, ih,
          List.filter_cons_of_neg (by simp)]
      · cases h : groups rest with
        | nil => exact absurd h (groups_ne_nil rest)
        | cons group more =>
            rw [groups_cons_of_ne hline h, List.flatten_cons, List.cons_append,
              List.filter_cons_of_pos (by simpa using hline), ← ih, h, List.flatten_cons]

theorem mem_of_mem_groups {ls group : List (List Char)} (hgroup : group ∈ groups ls)
    {line : List Char} (hline : line ∈ group) : line ∈ ls := by
  have hflat : line ∈ (groups ls).flatten := List.mem_flatten.mpr ⟨group, hgroup, hline⟩
  rw [flatten_groups] at hflat
  exact (List.mem_filter.mp hflat).1

/-!
# Texts with a separator between them
-/

theorem documents_append_separator (xs ys : List Char) :
    documents (xs ++ '\n' :: (separator ++ '\n' :: ys)) = documents xs ++ documents ys := by
  have hlines : lines (separator ++ '\n' :: ys) = separator :: lines ys :=
    lines_append_cons separator ys
  rw [documents, lines_append_cons, hlines, groups_append_cons, List.map_append,
    List.filter_append]
  rfl

/-!
# Documents and line ends
-/

/-- A separator whose line end begins with a carriage return. -/
def returnedSeparator : List Char := separator ++ ['\r']

theorem stripReturn_eq_separator_iff {line : List Char} :
    stripReturn line = separator ↔ line = separator ∨ line = returnedSeparator := by
  constructor
  · intro h
    rcases eq_stripReturn_or line with heq | heq
    · exact Or.inl (heq.trans h)
    · rw [h] at heq
      exact Or.inr heq
  · rintro (rfl | rfl) <;> rfl

theorem groups_map_stripReturn {ls : List (List Char)} (h : returnedSeparator ∉ ls) :
    groups (ls.map stripReturn) = (groups ls).map (List.map stripReturn) := by
  induction ls with
  | nil => rfl
  | cons line rest ih =>
      rw [List.mem_cons, not_or] at h
      by_cases hline : line = separator
      · rw [hline, groups_cons_separator, List.map_cons, List.map_cons, ← ih h.2]
        exact groups_cons_separator _
      · have hstripped : stripReturn line ≠ separator := by
          rw [Ne, stripReturn_eq_separator_iff, not_or]
          exact ⟨hline, Ne.symm h.1⟩
        cases hgroups : groups rest with
        | nil => exact absurd hgroups (groups_ne_nil rest)
        | cons group more =>
            rw [hgroups, List.map_cons] at ih
            rw [groups_cons_of_ne hline hgroups, List.map_cons,
              groups_cons_of_ne hstripped (ih h.2), List.map_cons, List.map_cons]

theorem trim_unlines_append_newline (ls : List (List Char)) :
    trim (unlines ls ++ ['\n']) = trim (unlines ls) :=
  trim_append_blank (by decide) _

theorem trim_unlines_map_stripReturn {ls : List (List Char)}
    (h : ∀ line ∈ ls, '\r' ∉ stripReturn line) :
    trim (unlines (ls.map stripReturn)) = unifyLineEnds (trim (unlines ls)) := by
  rw [← trim_unlines_append_newline, ← unifyLineEnds_unlines h,
    (paired_unlines h).trim_unifyLineEnds, trim_unlines_append_newline]

section Paired

variable {cs : List Char}

theorem return_notMem_of_mem_groups (h : Paired cs) {group : List (List Char)}
    (hgroup : group ∈ groups (lines cs)) : ∀ line ∈ group, '\r' ∉ stripReturn line :=
  fun _ hline => h.return_notMem_stripReturn (mem_of_mem_groups hgroup hline)

theorem paired_of_mem_documents (h : Paired cs) {doc : List Char} (hdoc : doc ∈ documents cs) :
    Paired doc := by
  rcases List.mem_map.mp (List.mem_filter.mp hdoc).1 with ⟨group, hgroup, rfl⟩
  rw [← trim_unlines_append_newline]
  exact (paired_unlines (return_notMem_of_mem_groups h hgroup)).trim

theorem documents_unifyLineEnds (h : Paired cs) (hreturned : returnedSeparator ∉ lines cs) :
    documents (unifyLineEnds cs) = (documents cs).map unifyLineEnds := by
  have htrimmed : ((groups (lines cs)).map (List.map stripReturn)).map
      (fun group => trim (unlines group)) =
      ((groups (lines cs)).map fun group => trim (unlines group)).map unifyLineEnds := by
    rw [List.map_map, List.map_map]
    refine List.map_congr_left fun group hgroup => ?_
    exact trim_unlines_map_stripReturn (return_notMem_of_mem_groups h hgroup)
  have hempty : ∀ doc : List Char, (unifyLineEnds doc).isEmpty = doc.isEmpty := by
    intro doc
    rw [Bool.eq_iff_iff, List.isEmpty_iff, List.isEmpty_iff, unifyLineEnds_eq_nil_iff]
  rw [documents, h.lines_unifyLineEnds, groups_map_stripReturn hreturned, htrimmed,
    List.filter_map, documents]
  congr 1
  refine List.filter_congr fun doc _ => ?_
  rw [Function.comp_apply, hempty]

end Paired

/-!
# Characters of documents

Every character that is not blank is one of a separator or one of a document.
-/

theorem count_flatten_filter_ne (c : Char) (line : List Char) (ls : List (List Char)) :
    (ls.filter (· ≠ line)).flatten.count c + line.count c * ls.count line =
      ls.flatten.count c := by
  induction ls with
  | nil => rfl
  | cons first rest ih =>
      rw [List.flatten_cons, List.count_append, ← ih]
      by_cases hfirst : first = line
      · rw [List.filter_cons_of_neg (by simpa using hfirst), hfirst, List.count_cons_self,
          Nat.mul_succ]
        omega
      · rw [List.filter_cons_of_pos (by simpa using hfirst), List.flatten_cons,
          List.count_append, List.count_cons_of_ne hfirst, Nat.add_assoc]

theorem count_documents {c : Char} (hc : isBlank c = false) (cs : List Char) :
    (documents cs).flatten.count c + separator.count c * (lines cs).count separator =
      cs.count c := by
  have hnewline : c ≠ '\n' := by
    rintro rfl
    cases hc
  have hgroup : ∀ group : List (List Char),
      (trim (unlines group)).count c = group.flatten.count c :=
    fun group => (count_trim hc _).trans (count_unlines hnewline group)
  have hdocs : (documents cs).flatten.count c = (groups (lines cs)).flatten.flatten.count c := by
    rw [documents, List.flatten_filter_not_isEmpty, List.flatten_flatten, List.count_flatten,
      List.count_flatten, List.map_map, List.map_map]
    exact congrArg List.sum (List.map_congr_left fun group _ => hgroup group)
  rw [hdocs, flatten_groups, count_flatten_filter_ne, ← count_unlines hnewline, unlines_lines]

end Manifest
end TrafficGraph

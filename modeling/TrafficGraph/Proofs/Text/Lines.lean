import TrafficGraph.Text.Characters
import TrafficGraph.Text.Lines

/-!
# Lines and their ends

A text with a mark in it is cut into the pieces in front of the mark and those behind it.
Where each carriage return stands in front of a line feed, making all line ends line feeds
takes the return off the end of each line, and it makes no difference whether a text is
trimmed before or after that.
-/

namespace TrafficGraph
namespace Text

/-!
# Cutting at a mark
-/

theorem pieces_cons_self (sep : Char) (cs : List Char) :
    pieces sep (sep :: cs) = [] :: pieces sep cs := by
  rw [pieces]
  cases h : pieces sep cs with
  | nil => exact absurd h (pieces_ne_nil sep cs)
  | cons piece more => exact if_pos rfl

theorem pieces_cons_of_ne {sep c : Char} {cs piece : List Char} {more : List (List Char)}
    (hc : c ≠ sep) (h : pieces sep cs = piece :: more) :
    pieces sep (c :: cs) = (c :: piece) :: more := by
  rw [pieces, h]
  exact if_neg hc

theorem pieces_append_cons (sep : Char) (xs ys : List Char) :
    pieces sep (xs ++ sep :: ys) = pieces sep xs ++ pieces sep ys := by
  induction xs with
  | nil => exact pieces_cons_self sep ys
  | cons c rest ih =>
      rw [List.cons_append]
      by_cases hc : c = sep
      · rw [hc, pieces_cons_self, pieces_cons_self, ih, List.cons_append]
      · cases h : pieces sep rest with
        | nil => exact absurd h (pieces_ne_nil sep rest)
        | cons piece more =>
            rw [h, List.cons_append] at ih
            rw [pieces_cons_of_ne hc h, pieces_cons_of_ne hc ih, List.cons_append]

theorem lines_append_cons (xs ys : List Char) :
    lines (xs ++ '\n' :: ys) = lines xs ++ lines ys :=
  pieces_append_cons '\n' xs ys

theorem lines_cons_newline (cs : List Char) : lines ('\n' :: cs) = [] :: lines cs :=
  pieces_cons_self '\n' cs

theorem unlines_cons_cons (line next : List Char) (more : List (List Char)) :
    unlines (line :: next :: more) = line ++ '\n' :: unlines (next :: more) :=
  rfl

theorem mem_unlines {ls : List (List Char)} {line : List Char} (hline : line ∈ ls) {c : Char}
    (hc : c ∈ line) : c ∈ unlines ls := by
  induction ls with
  | nil => cases hline
  | cons first rest ih =>
      cases rest with
      | nil =>
          cases List.mem_singleton.mp hline
          exact hc
      | cons next more =>
          rw [unlines_cons_cons, List.mem_append]
          rcases List.mem_cons.mp hline with rfl | hrest
          · exact Or.inl hc
          · exact Or.inr (List.mem_cons_of_mem _ (ih hrest))

theorem count_unlines {c : Char} (hc : c ≠ '\n') (ls : List (List Char)) :
    (unlines ls).count c = ls.flatten.count c := by
  induction ls with
  | nil => rfl
  | cons line rest ih =>
      cases rest with
      | nil => rw [List.flatten_singleton]; rfl
      | cons next more =>
          rw [unlines_cons_cons, List.count_append, List.count_cons_of_ne hc.symm, ih,
            ← List.count_append, ← List.flatten_cons]

/-!
# Line ends
-/

/-- A text whose lines end in a line feed, with or without a carriage return in front of it. -/
inductive Paired : List Char → Prop where
  | nil : Paired []
  | return_newline {cs : List Char} (h : Paired cs) : Paired ('\r' :: '\n' :: cs)
  | cons {c : Char} {cs : List Char} (hc : c ≠ '\r') (h : Paired cs) : Paired (c :: cs)

namespace Paired

def check : List Char → Bool
  | [] => true
  | '\r' :: '\n' :: cs => check cs
  | '\r' :: _ => false
  | _ :: cs => check cs

theorem check_eq_true_iff {cs : List Char} : check cs = true ↔ Paired cs := by
  constructor
  · intro h
    fun_induction check cs with
    | case1 => exact .nil
    | case2 cs ih => exact .return_newline (ih h)
    | case3 => cases h
    | case4 c cs _ hc ih => exact .cons hc (ih h)
  · intro h
    induction h with
    | nil => rfl
    | return_newline _ ih => exact ih
    | cons hc _ ih =>
        rw [check]
        · exact ih
        · exact fun _ h _ => hc h
        · exact hc

instance (cs : List Char) : Decidable (Paired cs) :=
  decidable_of_iff (check cs = true) check_eq_true_iff

end Paired

theorem unifyLineEnds_return_newline (cs : List Char) :
    unifyLineEnds ('\r' :: '\n' :: cs) = '\n' :: unifyLineEnds cs := rfl

theorem unifyLineEnds_cons {c : Char} (hc : c ≠ '\r') (cs : List Char) :
    unifyLineEnds (c :: cs) = c :: unifyLineEnds cs := by
  rw [unifyLineEnds]
  · exact fun _ h _ => hc h
  · exact hc

theorem unifyLineEnds_eq_nil_iff {cs : List Char} : unifyLineEnds cs = [] ↔ cs = [] := by
  constructor
  · intro h
    unfold unifyLineEnds at h
    split at h
    · rfl
    · cases h
    · cases h
    · cases h
  · rintro rfl
    rfl

theorem paired_of_return_notMem {cs : List Char} (h : '\r' ∉ cs) : Paired cs := by
  induction cs with
  | nil => exact .nil
  | cons c rest ih =>
      rw [List.mem_cons, not_or] at h
      exact .cons (Ne.symm h.1) (ih h.2)

theorem unifyLineEnds_of_return_notMem {cs : List Char} (h : '\r' ∉ cs) :
    unifyLineEnds cs = cs := by
  induction cs with
  | nil => rfl
  | cons c rest ih =>
      rw [List.mem_cons, not_or] at h
      rw [unifyLineEnds_cons (Ne.symm h.1), ih h.2]

theorem return_notMem_unifyLineEnds (cs : List Char) : '\r' ∉ unifyLineEnds cs := by
  fun_induction unifyLineEnds cs with
  | case1 => exact List.not_mem_nil
  | case2 rest ih => exact List.not_mem_cons_of_ne_of_not_mem (by decide) ih
  | case3 rest _ ih => exact List.not_mem_cons_of_ne_of_not_mem (by decide) ih
  | case4 c rest _ hc ih => exact List.not_mem_cons_of_ne_of_not_mem (Ne.symm hc) ih

theorem unifyLineEnds_idem (cs : List Char) :
    unifyLineEnds (unifyLineEnds cs) = unifyLineEnds cs :=
  unifyLineEnds_of_return_notMem (return_notMem_unifyLineEnds cs)

namespace Paired

variable {cs xs ys : List Char}

theorem append (hx : Paired xs) (hy : Paired ys) : Paired (xs ++ ys) := by
  induction hx with
  | nil => exact hy
  | return_newline _ ih => exact .return_newline ih
  | cons hc _ ih => exact .cons hc ih

theorem unifyLineEnds_append (hx : Paired xs) (ys : List Char) :
    unifyLineEnds (xs ++ ys) = unifyLineEnds xs ++ unifyLineEnds ys := by
  induction hx with
  | nil => rfl
  | return_newline _ ih =>
      rw [List.cons_append, List.cons_append, unifyLineEnds_return_newline,
        unifyLineEnds_return_newline, ih, List.cons_append]
  | cons hc _ ih =>
      rw [List.cons_append, unifyLineEnds_cons hc, unifyLineEnds_cons hc, ih, List.cons_append]

end Paired

/-!
# Lines without their carriage returns
-/

def stripReturn : List Char → List Char
  | [] => []
  | ['\r'] => []
  | c :: cs => c :: stripReturn cs

theorem stripReturn_cons {c : Char} (hc : c ≠ '\r') (cs : List Char) :
    stripReturn (c :: cs) = c :: stripReturn cs := by
  rw [stripReturn]
  exact fun h _ => hc h

theorem eq_stripReturn_or (line : List Char) :
    line = stripReturn line ∨ line = stripReturn line ++ ['\r'] := by
  fun_induction stripReturn line with
  | case1 => exact Or.inl rfl
  | case2 => exact Or.inr rfl
  | case3 c cs _ ih =>
      exact ih.imp (congrArg (List.cons c)) (congrArg (List.cons c))

theorem Paired.lines_unifyLineEnds {cs : List Char} (h : Paired cs) :
    lines (unifyLineEnds cs) = (lines cs).map stripReturn := by
  induction h with
  | nil => rfl
  | @return_newline cs _ ih =>
      have hlines : lines ('\r' :: '\n' :: cs) = ['\r'] :: lines cs :=
        pieces_cons_of_ne (by decide) (pieces_cons_self '\n' cs)
      rw [unifyLineEnds_return_newline, lines_cons_newline, hlines, ih]
      rfl
  | @cons c cs hc _ ih =>
      rw [unifyLineEnds_cons hc]
      by_cases hnewline : c = '\n'
      · rw [hnewline, lines_cons_newline, lines_cons_newline, ih]
        rfl
      · cases hlines : lines cs with
        | nil => exact absurd hlines (pieces_ne_nil '\n' cs)
        | cons line more =>
            rw [hlines, List.map_cons] at ih
            rw [lines, lines, pieces_cons_of_ne hnewline ih, pieces_cons_of_ne hnewline hlines,
              List.map_cons, stripReturn_cons hc]

theorem mem_of_mem_lines {cs line : List Char} (hline : line ∈ lines cs) {c : Char}
    (hc : c ∈ line) : c ∈ cs := by
  rw [← unlines_lines cs]
  exact mem_unlines hline hc

/-- A carriage return stands at the end of a line or nowhere. -/
theorem Paired.return_notMem_stripReturn {cs : List Char} (h : Paired cs) {line : List Char}
    (hline : line ∈ lines cs) : '\r' ∉ stripReturn line := by
  intro hreturn
  have hstripped : stripReturn line ∈ lines (unifyLineEnds cs) := by
    rw [h.lines_unifyLineEnds]
    exact List.mem_map_of_mem hline
  exact return_notMem_unifyLineEnds cs (mem_of_mem_lines hstripped hreturn)

/-!
Some lines of a text are put together again.  The last of them may have kept the carriage
return of its line end, so a line feed is put behind it.
-/

section Unlines

variable {line : List Char} {ls : List (List Char)}

theorem line_cases (line : List Char) :
    line ++ ['\n'] = stripReturn line ++ ['\n'] ∨
      line ++ ['\n'] = stripReturn line ++ ['\r', '\n'] := by
  rcases eq_stripReturn_or line with heq | heq
  · exact Or.inl (congrArg (· ++ ['\n']) heq)
  · exact Or.inr ((congrArg (· ++ ['\n']) heq).trans (List.append_assoc _ _ _))

theorem paired_line (h : '\r' ∉ stripReturn line) : Paired (line ++ ['\n']) := by
  have hstripped := paired_of_return_notMem h
  rcases line_cases line with heq | heq
  · rw [heq]
    exact hstripped.append (.cons (by decide) .nil)
  · rw [heq]
    exact hstripped.append (.return_newline .nil)

theorem unifyLineEnds_line (h : '\r' ∉ stripReturn line) :
    unifyLineEnds (line ++ ['\n']) = stripReturn line ++ ['\n'] := by
  have hstripped := paired_of_return_notMem h
  rcases line_cases line with heq | heq
  · rw [heq, hstripped.unifyLineEnds_append, unifyLineEnds_of_return_notMem h]
    rfl
  · rw [heq, hstripped.unifyLineEnds_append, unifyLineEnds_of_return_notMem h]
    rfl

theorem unlines_cons_append_newline (line next : List Char) (more : List (List Char)) :
    unlines (line :: next :: more) ++ ['\n'] =
      (line ++ ['\n']) ++ (unlines (next :: more) ++ ['\n']) := by
  rw [unlines_cons_cons, List.append_assoc, List.append_assoc]
  rfl

theorem paired_unlines (h : ∀ line ∈ ls, '\r' ∉ stripReturn line) :
    Paired (unlines ls ++ ['\n']) := by
  induction ls with
  | nil => exact .cons (by decide) .nil
  | cons line rest ih =>
      rw [List.forall_mem_cons] at h
      cases rest with
      | nil => exact paired_line h.1
      | cons next more =>
          rw [unlines_cons_append_newline]
          exact (paired_line h.1).append (ih h.2)

theorem unifyLineEnds_unlines (h : ∀ line ∈ ls, '\r' ∉ stripReturn line) :
    unifyLineEnds (unlines ls ++ ['\n']) = unlines (ls.map stripReturn) ++ ['\n'] := by
  induction ls with
  | nil => rfl
  | cons line rest ih =>
      rw [List.forall_mem_cons] at h
      cases rest with
      | nil => exact unifyLineEnds_line h.1
      | cons next more =>
          rw [unlines_cons_append_newline, (paired_line h.1).unifyLineEnds_append,
            unifyLineEnds_line h.1, ih h.2, List.map_cons, List.map_cons, List.map_cons,
            unlines_cons_append_newline]

end Unlines

/-!
# Trimming
-/

theorem trimBack_cons (c : Char) (cs : List Char) :
    trimBack (c :: cs) =
      if isBlank c = true ∧ trimBack cs = [] then [] else c :: trimBack cs := by
  unfold trimBack
  rw [List.reverse_cons, List.dropWhile_append]
  cases hrest : cs.reverse.dropWhile isBlank with
  | nil => cases hc : isBlank c <;> simp [hc]
  | cons d ds => simp

theorem trimBack_cons_of_blank {c : Char} {cs : List Char} (hc : isBlank c = true)
    (h : trimBack cs = []) : trimBack (c :: cs) = [] := by
  rw [trimBack_cons, if_pos ⟨hc, h⟩]

theorem trimBack_cons_of_ne_nil {cs : List Char} (c : Char) (h : trimBack cs ≠ []) :
    trimBack (c :: cs) = c :: trimBack cs := by
  rw [trimBack_cons, if_neg fun hblank => h hblank.2]

theorem trimBack_append_blank {c : Char} (hc : isBlank c = true) (cs : List Char) :
    trimBack (cs ++ [c]) = trimBack cs := by
  unfold trimBack
  rw [List.reverse_append, List.reverse_singleton, List.singleton_append,
    List.dropWhile_cons_of_pos hc]

theorem trim_append_blank {c : Char} (hc : isBlank c = true) (cs : List Char) :
    trim (cs ++ [c]) = trim cs := by
  induction cs with
  | nil =>
      rw [List.nil_append, trim, trimFront_cons, if_pos hc]
      rfl
  | cons d rest ih =>
      rw [trim, trim, List.cons_append, trimFront_cons, trimFront_cons]
      split
      · exact ih
      · rw [← List.cons_append, trimBack_append_blank hc]

theorem count_trimFront {c : Char} (hc : isBlank c = false) (cs : List Char) :
    (trimFront cs).count c = cs.count c := by
  induction cs with
  | nil => rfl
  | cons d rest ih =>
      rw [trimFront_cons]
      split
      · rename_i hd
        have hne : d ≠ c := by
          rintro rfl
          rw [hc] at hd
          cases hd
        rw [ih, List.count_cons_of_ne hne]
      · rfl

theorem count_trim {c : Char} (hc : isBlank c = false) (cs : List Char) :
    (trim cs).count c = cs.count c := by
  have hback : ∀ ds : List Char, trimBack ds = (trimFront ds.reverse).reverse := fun _ => rfl
  rw [trim, hback, List.count_reverse, count_trimFront hc, List.count_reverse,
    count_trimFront hc]

namespace Paired

variable {cs : List Char}

theorem trimFront (h : Paired cs) : Paired (trimFront cs) := by
  induction h with
  | nil => exact .nil
  | return_newline _ ih => exact ih
  | cons hc h ih =>
      rw [trimFront_cons]
      split
      · exact ih
      · exact .cons hc h

theorem trimBack (h : Paired cs) : Paired (trimBack cs) := by
  induction h with
  | nil => exact .nil
  | @return_newline cs _ ih =>
      by_cases hrest : Text.trimBack cs = []
      · rw [trimBack_cons_of_blank (by decide) (trimBack_cons_of_blank (by decide) hrest)]
        exact .nil
      · have hnewline := trimBack_cons_of_ne_nil '\n' hrest
        rw [trimBack_cons_of_ne_nil _ (by simp [hnewline]), hnewline]
        exact .return_newline ih
  | cons hc _ ih =>
      rw [trimBack_cons]
      split
      · exact .nil
      · exact .cons hc ih

theorem trim (h : Paired cs) : Paired (trim cs) :=
  h.trimFront.trimBack

theorem trimFront_unifyLineEnds (h : Paired cs) :
    Text.trimFront (unifyLineEnds cs) = unifyLineEnds (Text.trimFront cs) := by
  induction h with
  | nil => rfl
  | return_newline _ ih => exact ih
  | cons hc _ ih =>
      rw [unifyLineEnds_cons hc, trimFront_cons, trimFront_cons]
      split
      · exact ih
      · rw [unifyLineEnds_cons hc]

theorem trimBack_unifyLineEnds (h : Paired cs) :
    Text.trimBack (unifyLineEnds cs) = unifyLineEnds (Text.trimBack cs) := by
  induction h with
  | nil => rfl
  | @return_newline cs _ ih =>
      rw [unifyLineEnds_return_newline]
      by_cases hrest : Text.trimBack cs = []
      · rw [trimBack_cons_of_blank (by decide) (ih.trans (unifyLineEnds_eq_nil_iff.mpr hrest)),
          trimBack_cons_of_blank (by decide) (trimBack_cons_of_blank (by decide) hrest)]
        rfl
      · have hnewline := trimBack_cons_of_ne_nil '\n' hrest
        rw [trimBack_cons_of_ne_nil _ (by rw [ih]; exact mt unifyLineEnds_eq_nil_iff.mp hrest),
          trimBack_cons_of_ne_nil _ (by simp [hnewline]), hnewline, ih]
        rfl
  | @cons c cs hc _ ih =>
      rw [unifyLineEnds_cons hc, trimBack_cons, trimBack_cons, ih]
      simp only [unifyLineEnds_eq_nil_iff]
      split
      · rfl
      · rw [unifyLineEnds_cons hc]

theorem trim_unifyLineEnds (h : Paired cs) :
    Text.trim (unifyLineEnds cs) = unifyLineEnds (Text.trim cs) := by
  rw [Text.trim, h.trimFront_unifyLineEnds, h.trimFront.trimBack_unifyLineEnds, Text.trim]

end Paired

end Text
end TrafficGraph

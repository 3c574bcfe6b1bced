import Mathlib.Data.List.TakeWhile
import TrafficGraph.Text.Characters
import TrafficGraph.Fault
import TrafficGraph.Yaml.Token.Basic

/-!
# Places in a longer document

A text may stand inside a longer one, with lines in front of it and nothing but spaces and
line breaks behind it.  A cursor in the text is then a cursor in the longer one, too, at a
later line and a later index, but in the same column.  Moving it commutes with that, as long
as it does not move to the end of the text.  The last character of the text is supposed not
to be blank, so white space in the text never reaches to its end.
-/

namespace TrafficGraph
namespace Yaml

def isSpacing (c : Char) : Bool := c == ' ' || isBreak c

/-- Where a text stands in a longer one: the numbers of the lines and of the characters in
front of it, and the spacing behind it. -/
structure Setting where
  lines : Nat
  index : Nat
  back : List Char
  spacing : ∀ x ∈ back, isSpacing x = true

/-!
# Characters
-/

theorem isBlank_of_isBreak {x : Char} (h : isBreak x = true) : Text.isBlank x = true := by
  simp only [isBreak, Bool.or_eq_true, beq_iff_eq] at h
  rcases h with (((rfl | rfl) | rfl) | rfl) | rfl <;> decide

theorem isSpacing_cases {x : Char} (h : isSpacing x = true) :
    x = ' ' ∨ x = '\n' ∨ x = '\r' ∨ x = '\x85' ∨ x = '\u2028' ∨ x = '\u2029' := by
  simpa [isSpacing, isBreak, or_assoc] using h

theorem endsName_some (x : Char) : endsName (some x) = isSpacing x := rfl

theorem endsWord_of_isSpacing {x : Char} (h : isSpacing x = true) : endsWord (some x) = true := by
  rw [isSpacing, Bool.or_eq_true] at h
  rcases h with h | h <;> simp [endsWord, h]

theorem ne_of_isSpacing {x y : Char} (hx : isSpacing x = true) (hy : isSpacing y = false) :
    x ≠ y := by
  rintro rfl
  rw [hx] at hy
  cases hy

namespace Setting

variable (e : Setting)

theorem head?_back_ne {x : Char} (h : isSpacing x = false) : e.back.head? ≠ some x := by
  intro hhead
  exact ne_of_isSpacing (e.spacing x (List.mem_of_head? hhead)) h rfl

theorem head?_append_beq {x : Char} (h : isSpacing x = false) (xs : List Char) :
    ((xs ++ e.back).head? == some x) = (xs.head? == some x) := by
  cases xs with
  | nil => simpa using e.head?_back_ne h
  | cons y more => rfl

theorem takeWhile_append {p : Char → Bool} (hp : ∀ x, isSpacing x = true -> p x = false)
    (xs : List Char) : (xs ++ e.back).takeWhile p = xs.takeWhile p := by
  induction xs with
  | nil =>
      rw [List.nil_append]
      cases hback : e.back with
      | nil => rfl
      | cons x rest =>
          have hx := hp x (e.spacing x (hback ▸ List.mem_cons_self))
          rw [List.takeWhile_cons_of_neg (by simp [hx])]
          rfl
  | cons x rest ih => rw [List.cons_append, List.takeWhile_cons, List.takeWhile_cons, ih]

end Setting

namespace Cursor

/-!
# Moving on
-/

@[simp] theorem rest_next (c : Cursor) : c.next.rest = c.rest.drop 1 := by
  unfold next
  split
  · rename_i h
    rw [h]
    rfl
  · rename_i h
    rw [h]
    split
    · rfl
    · split <;> rfl

@[simp] theorem rest_skip (n : Nat) (c : Cursor) : (c.skip n).rest = c.rest.drop n := by
  induction n generalizing c with
  | zero => rfl
  | succ n ih => rw [skip, ih, rest_next, List.drop_drop, Nat.add_comm]

theorem skip_add (m n : Nat) (c : Cursor) : c.skip (m + n) = (c.skip m).skip n := by
  induction m generalizing c with
  | zero => rw [Nat.zero_add]; rfl
  | succ m ih => rw [Nat.add_right_comm]; exact ih c.next

theorem skip_one (c : Cursor) : c.skip 1 = c.next := rfl

theorem next_of_nil {c : Cursor} (h : c.rest = []) : c.next = c := by
  unfold next
  rw [h]

theorem skip_of_nil {c : Cursor} (h : c.rest = []) (n : Nat) : c.skip n = c := by
  induction n with
  | zero => rfl
  | succ n ih => rw [skip, next_of_nil h, ih]

theorem index_next {c : Cursor} (h : c.rest ≠ []) : c.next.index = c.index + 1 := by
  unfold next
  split
  · exact absurd (by assumption) h
  · split
    · rfl
    · split <;> rfl

theorem line_le_next (c : Cursor) : c.line ≤ c.next.line := by
  unfold next
  split
  · exact Nat.le_refl _
  · split
    · exact Nat.le_succ _
    · split <;> exact Nat.le_refl _

theorem line_le_skip (n : Nat) (c : Cursor) : c.line ≤ (c.skip n).line := by
  induction n generalizing c with
  | zero => exact Nat.le_refl _
  | succ n ih => exact Nat.le_trans c.line_le_next (ih c.next)

theorem index_le_skip (n : Nat) (c : Cursor) : c.index ≤ (c.skip n).index := by
  induction n generalizing c with
  | zero => exact Nat.le_refl _
  | succ n ih =>
      by_cases hne : c.rest = []
      · rw [skip_of_nil hne]
      · exact Nat.le_trans (Nat.le_trans (Nat.le_succ _) (index_next hne).ge) (ih c.next)

theorem index_skip {n : Nat} {c : Cursor} (h : n ≤ c.rest.length) :
    (c.skip n).index = c.index + n := by
  induction n generalizing c with
  | zero => rfl
  | succ n ih =>
      have hne : c.rest ≠ [] := by
        rintro hnil
        rw [hnil] at h
        cases h
      rw [skip, ih (by rw [rest_next, List.length_drop]; omega), index_next hne]
      omega

/-!
# Cursors of a text inside a longer one
-/

/-- Whether the text to be read ends in a character that is not blank, if there is any text. -/
def Solid (c : Cursor) : Prop := ∀ x ∈ c.rest.getLast?, Text.isBlank x = false

def within (c : Cursor) (e : Setting) : Cursor :=
  ⟨c.rest ++ e.back, c.line + e.lines, c.column, c.index + e.index⟩

theorem isEmpty_rest_within {c : Cursor} (h : c.rest ≠ []) (e : Setting) :
    (c.within e).rest.isEmpty = false := by
  rw [List.isEmpty_eq_false_iff]
  exact List.append_ne_nil_of_left_ne_nil h e.back

theorem column_within (c : Cursor) (e : Setting) : (c.within e).column = c.column := rfl

theorem Solid.skip {c : Cursor} (h : c.Solid) (n : Nat) : (c.skip n).Solid := by
  intro x hx
  rw [rest_skip, List.getLast?_drop] at hx
  split at hx
  · cases hx
  · exact h x hx

theorem Solid.next {c : Cursor} (h : c.Solid) : c.next.Solid := h.skip 1

section

variable {c : Cursor} (h : c.Solid) (e : Setting)

include h

theorem next_within (hne : c.rest ≠ []) : (c.within e).next = c.next.within e := by
  rcases c with ⟨rest, line, column, index⟩
  cases rest with
  | nil => exact absurd rfl hne
  | cons x more =>
      have hhead : (isBreak x && !(x == '\r' && (more ++ e.back).head? == some '\n')) =
          (isBreak x && !(x == '\r' && more.head? == some '\n')) := by
        cases more with
        | nil =>
            -- the last character is no break, whatever is behind it
            have hx : isBreak x = false := by
              rw [← Bool.not_eq_true]
              intro hbreak
              have hblank := h x rfl
              rw [isBlank_of_isBreak hbreak] at hblank
              cases hblank
            simp [hx]
        | cons y rest => rfl
      unfold next within
      simp only [List.cons_append, hhead]
      split
      · simp [Nat.add_right_comm]
      · split <;> simp [Nat.add_right_comm]

theorem skip_within {n : Nat} (hn : n ≤ c.rest.length) :
    (c.within e).skip n = (c.skip n).within e := by
  induction n generalizing c with
  | zero => rfl
  | succ n ih =>
      have hne : c.rest ≠ [] := List.ne_nil_of_length_pos (by omega)
      rw [skip, next_within h e hne, ih h.next (by rw [rest_next, List.length_drop]; omega)]
      rfl

end

/-!
# Looking ahead

Spacing ends whatever the end of a text ends, so most of the tests of a character cannot tell
the text behind from the end.
-/

section

variable (c : Cursor) (e : Setting)

theorem peek_within_of_lt {k : Nat} (h : k < c.rest.length) : (c.within e).peek k = c.peek k :=
  List.getElem?_append_left h

theorem peek_within (k : Nat) :
    (c.within e).peek k = c.peek k ∨
      c.peek k = none ∧ ∃ x, (c.within e).peek k = some x ∧ isSpacing x = true := by
  by_cases h : k < c.rest.length
  · exact Or.inl (c.peek_within_of_lt e h)
  · have hnone : c.peek k = none := List.getElem?_eq_none (Nat.le_of_not_lt h)
    cases hpeek : (c.within e).peek k with
    | none => exact Or.inl hnone.symm
    | some x =>
        refine Or.inr ⟨hnone, x, rfl, e.spacing x ?_⟩
        rw [peek, within, List.getElem?_append_right (Nat.le_of_not_lt h)] at hpeek
        exact List.mem_of_getElem? hpeek

theorem endsName_peek_within (k : Nat) : endsName ((c.within e).peek k) = endsName (c.peek k) := by
  rcases c.peek_within e k with heq | ⟨hnone, x, hx, hspacing⟩
  · rw [heq]
  · rw [hnone, hx, endsName_some, hspacing]
    rfl

theorem endsWord_peek_within (k : Nat) : endsWord ((c.within e).peek k) = endsWord (c.peek k) := by
  rcases c.peek_within e k with heq | ⟨hnone, x, hx, hspacing⟩
  · rw [heq]
  · rw [hnone, hx, endsWord_of_isSpacing hspacing]
    rfl

theorem peek_within_beq {x : Char} (hx : isSpacing x = false) (k : Nat) :
    ((c.within e).peek k == some x) = (c.peek k == some x) := by
  rcases c.peek_within e k with heq | ⟨hnone, y, hy, hspacing⟩
  · rw [heq]
  · rw [hnone, hy]
    have hne : y ≠ x := ne_of_isSpacing hspacing hx
    simp [hne]

theorem isAt_within {x : Char} (hx : isSpacing x = false) : (c.within e).isAt x = c.isAt x :=
  c.peek_within_beq e hx 0

theorem isAt_within_of_ne {x : Char} (hne : c.rest ≠ []) : (c.within e).isAt x = c.isAt x := by
  rw [isAt, isAt, peek_within_of_lt c e (List.length_pos_iff.mpr hne)]

theorem isAt_of_nil {c : Cursor} (h : c.rest = []) (x : Char) : c.isAt x = false := by
  rw [isAt, peek, h]
  rfl

theorem ne_nil_of_isAt {c : Cursor} {x : Char} (h : c.isAt x = true) : c.rest ≠ [] := by
  intro hnil
  rw [isAt_of_nil hnil] at h
  cases h

theorem atDocumentMark_eq :
    c.atDocumentMark =
      ((c.peek 0 == some '-' && c.peek 1 == some '-' && c.peek 2 == some '-' ||
        c.peek 0 == some '.' && c.peek 1 == some '.' && c.peek 2 == some '.') &&
        endsWord (c.peek 3)) := by
  rcases c with ⟨_ | ⟨x, _ | ⟨y, _ | ⟨z, rest⟩⟩⟩, line, column, index⟩
  · rfl
  · simp [atDocumentMark, peek]
  · simp [atDocumentMark, peek]
  · simp only [atDocumentMark, peek]
    split
    · rename_i more h
      simp only [List.cons.injEq] at h
      simp [h.1, h.2.1, h.2.2.1, h.2.2.2, List.head?_eq_getElem?]
    · rename_i more h
      simp only [List.cons.injEq] at h
      simp [h.1, h.2.1, h.2.2.1, h.2.2.2, List.head?_eq_getElem?]
    · rename_i hdashes hdots
      have hdash : ¬ (x = '-' ∧ y = '-' ∧ z = '-') := by
        rintro ⟨rfl, rfl, rfl⟩
        exact hdashes rest rfl
      have hdot : ¬ (x = '.' ∧ y = '.' ∧ z = '.') := by
        rintro ⟨rfl, rfl, rfl⟩
        exact hdots rest rfl
      simp [and_assoc, hdash, hdot]

theorem length_of_atDocumentMark (h : c.atDocumentMark = true) : 3 ≤ c.rest.length := by
  rw [atDocumentMark_eq] at h
  simp only [Bool.and_eq_true, Bool.or_eq_true, beq_iff_eq] at h
  rcases h with ⟨⟨_, hthird⟩ | ⟨_, hthird⟩, _⟩ <;>
    exact (List.getElem?_eq_some_iff.mp hthird).1

theorem atDocumentMark_within : (c.within e).atDocumentMark = c.atDocumentMark := by
  have hdash : isSpacing '-' = false := by decide
  have hdot : isSpacing '.' = false := by decide
  rw [atDocumentMark_eq, atDocumentMark_eq]
  simp only [c.peek_within_beq e hdash, c.peek_within_beq e hdot, c.endsWord_peek_within e]

end

/-!
# White space
-/

section

variable {c : Cursor} (h : c.Solid)

include h

theorem exists_not_blank (hne : c.rest ≠ []) : ∃ x ∈ c.rest, Text.isBlank x = false :=
  ⟨c.rest.getLast hne, List.getLast_mem hne, h _ (List.getLast?_eq_some_getLast hne)⟩

theorem rest_skip_ne_nil (hne : c.rest ≠ []) {n : Nat}
    (hblank : ∀ x ∈ c.rest.take n, Text.isBlank x = true) : (c.skip n).rest ≠ [] := by
  rw [rest_skip]
  intro hnil
  rcases exists_not_blank h hne with ⟨x, hx, hsolid⟩
  rw [← List.take_append_drop n c.rest, hnil, List.append_nil] at hx
  rw [hblank x hx] at hsolid
  cases hsolid

theorem rest_next_ne_nil {x : Char} (hx : Text.isBlank x = true) (hat : c.isAt x = true) :
    c.next.rest ≠ [] := by
  refine rest_skip_ne_nil h (ne_nil_of_isAt hat) (n := 1) fun y hy => ?_
  have hhead : c.rest.head? = some x := by
    rw [List.head?_eq_getElem?]
    exact eq_of_beq hat
  rw [List.take_one, hhead] at hy
  rw [List.mem_singleton.mp hy]
  exact hx

theorem rest_skipWhile_ne_nil {p : Char → Bool} (hp : ∀ x, p x = true -> Text.isBlank x = true)
    (hne : c.rest ≠ []) : (c.skipWhile p).rest ≠ [] := by
  apply rest_skip_ne_nil h hne
  intro x hx
  have htake : c.rest.take (c.rest.takeWhile p).length = c.rest.takeWhile p :=
    List.prefix_iff_eq_take.mp (List.takeWhile_prefix p) |>.symm
  rw [htake] at hx
  exact hp x (List.mem_takeWhile_imp hx)

end

theorem length_takeWhile_le (p : Char → Bool) (c : Cursor) :
    (c.rest.takeWhile p).length ≤ c.rest.length := (List.takeWhile_prefix p).length_le

theorem span_eq (p : Char → Bool) (c : Cursor) :
    c.span p = (c.rest.takeWhile p, c.skip (c.rest.takeWhile p).length) := rfl

theorem skipWhile_eq (p : Char → Bool) (c : Cursor) :
    c.skipWhile p = c.skip (c.rest.takeWhile p).length := rfl

theorem rest_skipWhile (p : Char → Bool) (c : Cursor) :
    (c.skipWhile p).rest = c.rest.dropWhile p := by
  rw [skipWhile_eq, rest_skip]
  calc c.rest.drop (c.rest.takeWhile p).length
      = (c.rest.takeWhile p ++ c.rest.dropWhile p).drop (c.rest.takeWhile p).length := by
        rw [List.takeWhile_append_dropWhile]
    _ = c.rest.dropWhile p := List.drop_left

theorem not_of_skipWhile {p : Char → Bool} {c : Cursor} {x : Char} {more : List Char}
    (h : (c.skipWhile p).rest = x :: more) : p x = false := by
  have hne : c.rest.dropWhile p ≠ [] := by
    rw [← rest_skipWhile, h]
    exact List.cons_ne_nil x more
  have hhead := List.head_dropWhile_not p hne
  simp only [← rest_skipWhile, h] at hhead
  exact hhead

theorem exists_cons_of_skipWhile {p : Char → Bool} {c : Cursor} (hp : ∃ x ∈ c.rest, p x = false) :
    ∃ x more, (c.skipWhile p).rest = x :: more ∧ p x = false := by
  have hne : c.rest.dropWhile p ≠ [] := by
    rw [Ne, List.dropWhile_eq_nil_iff]
    intro hall
    rcases hp with ⟨x, hx, hpx⟩
    rw [hall x hx] at hpx
    cases hpx
  rw [rest_skipWhile]
  exact ⟨_, _, (List.cons_head_tail hne).symm, List.head_dropWhile_not p hne⟩

section

variable {c : Cursor} (h : c.Solid) (e : Setting)

include h

theorem span_within {p : Char → Bool}
    (hp : (c.rest ++ e.back).takeWhile p = c.rest.takeWhile p) :
    (c.within e).span p = ((c.span p).1, (c.span p).2.within e) := by
  unfold span
  have hrun : (c.within e).rest.takeWhile p = c.rest.takeWhile p := hp
  rw [hrun]
  exact congrArg (Prod.mk _) (skip_within h e (c.length_takeWhile_le p))

theorem span_within_of_text {p : Char → Bool} (hp : ∀ x, isSpacing x = true -> p x = false) :
    (c.within e).span p = ((c.span p).1, (c.span p).2.within e) :=
  span_within h e (e.takeWhile_append hp c.rest)

theorem span_within_of_not_all {p : Char → Bool} (hp : ∃ x ∈ c.rest, p x = false) :
    (c.within e).span p = ((c.span p).1, (c.span p).2.within e) := by
  apply span_within h e
  rcases hp with ⟨x, hx, hpx⟩
  rw [List.takeWhile_append, if_neg]
  intro hall
  have heq : c.rest.takeWhile p = c.rest :=
    (List.takeWhile_prefix p).eq_of_length hall
  rw [List.takeWhile_eq_self_iff] at heq
  rw [heq x hx] at hpx
  cases hpx

theorem span_within_of_blank {p : Char → Bool} (hp : ∀ x, p x = true -> Text.isBlank x = true)
    (hne : c.rest ≠ []) : (c.within e).span p = ((c.span p).1, (c.span p).2.within e) := by
  rcases exists_not_blank h hne with ⟨x, hx, hblank⟩
  refine span_within_of_not_all h e ⟨x, hx, ?_⟩
  rw [← Bool.not_eq_true]
  intro hpx
  rw [hp x hpx] at hblank
  cases hblank

theorem skipWhile_within_of_blank {p : Char → Bool}
    (hp : ∀ x, p x = true -> Text.isBlank x = true) (hne : c.rest ≠ []) :
    (c.within e).skipWhile p = (c.skipWhile p).within e :=
  congrArg Prod.snd (span_within_of_blank h e hp hne)

/-- A run that reaches to the end of the text may go on behind it. -/
theorem skipWhile_within_or (p : Char → Bool) :
    (c.within e).skipWhile p = (c.skipWhile p).within e ∨
      c.skipWhile p = c.skip c.rest.length ∧
        ∃ m ≥ c.rest.length, (c.within e).skipWhile p = (c.within e).skip m := by
  by_cases hp : ∃ x ∈ c.rest, p x = false
  · exact Or.inl (congrArg Prod.snd (span_within_of_not_all h e hp))
  · right
    have hall : c.rest.takeWhile p = c.rest := by
      rw [List.takeWhile_eq_self_iff]
      intro x hx
      rw [← Bool.not_eq_false]
      exact fun hpx => hp ⟨x, hx, hpx⟩
    refine ⟨by rw [skipWhile_eq, hall], _, ?_, skipWhile_eq _ _⟩
    rw [within, List.takeWhile_append, if_pos (congrArg List.length hall), List.length_append]
    exact Nat.le_add_right _ _

end

/-!
# Spaces
-/

theorem skipSpaces_eq (c : Cursor) :
    c.skipSpaces = c.skip (c.rest.takeWhile (· == ' ')).length := rfl

theorem skipSpaces_within {c : Cursor} (h : c.Solid) (e : Setting) (hne : c.rest ≠ []) :
    (c.within e).skipSpaces = c.skipSpaces.within e := by
  apply skipWhile_within_of_blank h e _ hne
  intro x hx
  rw [eq_of_beq hx]
  decide

/-!
# Line breaks
-/

theorem break?_of_nil {c : Cursor} (h : c.rest = []) : c.break? = none := by
  unfold break?
  rw [h]

theorem break?_of_cons {c : Cursor} {x : Char} {more : List Char} (h : c.rest = x :: more) :
    c.break? =
      if x = '\r' ∧ more.head? = some '\n' then some ('\n', c.skip 2)
      else if x == '\u2028' || x == '\u2029' then some (x, c.next)
      else if isBreak x then some ('\n', c.next)
      else none := by
  unfold break?
  rw [h]
  split
  · rename_i rest heq
    injection heq with hx hmore
    subst hx hmore
    simp
  · rename_i y rest hreturn heq
    injection heq with hx hmore
    subst hx hmore
    have hone : ¬ (x = '\r' ∧ more.head? = some '\n') := by
      rintro ⟨rfl, hhead⟩
      cases more with
      | nil => cases hhead
      | cons z rest =>
          cases hhead
          exact hreturn rest rfl rfl
    rw [if_neg hone]
  · rename_i heq
    cases heq

theorem exists_skip_of_break? {c d : Cursor} {x : Char} (h : c.break? = some (x, d)) :
    ∃ n, d = c.skip (n + 1) ∧ n + 1 ≤ c.rest.length ∧
      ∀ y ∈ c.rest.take (n + 1), isBreak y = true := by
  cases hrest : c.rest with
  | nil =>
      rw [break?_of_nil hrest] at h
      cases h
  | cons y more =>
      rw [break?_of_cons hrest] at h
      have hone : isBreak y = true ->
          1 ≤ (y :: more).length ∧ ∀ z ∈ (y :: more).take 1, isBreak z = true := by
        intro hy
        exact ⟨by simp, by simpa using hy⟩
      split at h
      · rename_i hreturn
        rcases hreturn with ⟨rfl, hhead⟩
        cases more with
        | nil => cases hhead
        | cons z rest =>
            cases hhead
            cases h
            exact ⟨1, rfl, by simp, by simp; decide⟩
      · split at h
        · rename_i hseparator
          have hy : isBreak y = true := by
            simp only [Bool.or_eq_true, beq_iff_eq] at hseparator
            rcases hseparator with rfl | rfl <;> decide
          cases h
          exact ⟨0, rfl, hone hy⟩
        · split at h
          · rename_i hy
            cases h
            exact ⟨0, rfl, hone hy⟩
          · cases h

theorem column_of_break? {c d : Cursor} {x : Char} (h : c.break? = some (x, d)) :
    d.column = 0 := by
  cases hrest : c.rest with
  | nil =>
      rw [break?_of_nil hrest] at h
      cases h
  | cons y more =>
      rw [break?_of_cons hrest] at h
      have hone : isBreak y = true -> ¬ (y = '\r' ∧ more.head? = some '\n') ->
          c.next.column = 0 := by
        intro hy hreturn
        have hmark : (isBreak y && !(y == '\r' && more.head? == some '\n')) = true := by
          rw [hy, Bool.true_and, Bool.not_eq_true', ← Bool.not_eq_true, Bool.and_eq_true,
            beq_iff_eq, beq_iff_eq]
          exact hreturn
        unfold next
        rw [hrest]
        dsimp only
        rw [if_pos hmark]
      split at h
      · rename_i hreturn
        rcases hreturn with ⟨rfl, hhead⟩
        cases more with
        | nil => cases hhead
        | cons z rest =>
            cases hhead
            cases h
            have hsecond : (c.next).rest = '\n' :: rest := by rw [rest_next, hrest]; rfl
            show c.next.next.column = 0
            rw [next, hsecond]
            rfl
      · rename_i hreturn
        split at h
        · rename_i hseparator
          cases h
          refine hone ?_ hreturn
          simp only [Bool.or_eq_true, beq_iff_eq] at hseparator
          rcases hseparator with rfl | rfl <;> decide
        · split at h
          · rename_i hy
            cases h
            exact hone hy hreturn
          · cases h

theorem exists_break?_of_isBreak {c : Cursor} {x : Char} {more : List Char}
    (hrest : c.rest = x :: more) (h : isBreak x = true) :
    ∃ y d, c.break? = some (y, d) ∧
      (d.rest = more ∨ more.head? = some '\n' ∧ d.rest = more.drop 1) := by
  have hone : c.next.rest = more := by rw [rest_next, hrest]; rfl
  rw [break?_of_cons hrest, if_pos h]
  split
  · rename_i hreturn
    refine ⟨_, _, rfl, Or.inr ⟨hreturn.2, ?_⟩⟩
    rw [rest_skip, hrest]
    rfl
  · split
    · exact ⟨_, _, rfl, Or.inl hone⟩
    · exact ⟨_, _, rfl, Or.inl hone⟩

theorem break?_ne_none_of_isBreak {c : Cursor} {x : Char} {more : List Char}
    (hrest : c.rest = x :: more) (h : isBreak x = true) : c.break? ≠ none := by
  rw [break?_of_cons hrest, if_pos h]
  split
  · exact Option.some_ne_none _
  · split <;> exact Option.some_ne_none _

section

variable {c : Cursor} (h : c.Solid) (e : Setting)

include h

theorem break?_within (hne : c.rest ≠ []) :
    (c.within e).break? = c.break?.map fun read => (read.1, read.2.within e) := by
  rcases List.exists_cons_of_ne_nil hne with ⟨x, more, hrest⟩
  have hlong : (c.within e).rest = x :: (more ++ e.back) := by
    rw [within, hrest]
    rfl
  have hnext : (c.within e).next = c.next.within e := next_within h e hne
  rw [break?_of_cons hrest, break?_of_cons hlong, hnext]
  cases more with
  | nil =>
      -- the last character is no break
      have hx : Text.isBlank x = false := h x (by rw [hrest]; rfl)
      have hreturn : x ≠ '\r' := by
        rintro rfl
        cases hx
      simp only [hreturn, false_and, if_false]
      split
      · rfl
      · split <;> rfl
  | cons y rest =>
      have htwo : (c.within e).skip 2 = (c.skip 2).within e :=
        skip_within h e (by rw [hrest]; simp)
      rw [List.cons_append, List.head?_cons, List.head?_cons, htwo]
      split
      · rfl
      · split
        · rfl
        · split <;> rfl

theorem rest_ne_nil_of_break? {d : Cursor} {x : Char} (hbreak : c.break? = some (x, d)) :
    d.rest ≠ [] := by
  have hne : c.rest ≠ [] := by
    intro hnil
    rw [break?_of_nil hnil] at hbreak
    cases hbreak
  rcases exists_skip_of_break? hbreak with ⟨n, rfl, _, hbreaks⟩
  exact rest_skip_ne_nil h hne fun y hy => isBlank_of_isBreak (hbreaks y hy)

end

/-!
# Comments
-/

/-- A comment at the end of the text goes on into the spacing behind. -/
theorem skipComment_within {c : Cursor} (h : c.Solid) (e : Setting) :
    (c.within e).skipComment = c.skipComment.within e ∨
      c.skipComment = c.skip c.rest.length ∧
        ∃ m ≥ c.rest.length, (c.within e).skipComment = (c.within e).skip m := by
  unfold skipComment
  rw [isAt_within c e (by decide)]
  split
  · exact skipWhile_within_or h e _
  · exact Or.inl rfl

theorem exists_skip_of_skipComment (c : Cursor) :
    ∃ n, c.skipComment = c.skip n ∧ n ≤ c.rest.length := by
  unfold skipComment
  split
  · exact ⟨_, skipWhile_eq _ c, c.length_takeWhile_le _⟩
  · exact ⟨0, rfl, Nat.zero_le _⟩

theorem exists_skip_of_gap (c : Cursor) :
    ∃ n, c.skipSpaces.skipComment = c.skip n ∧ n ≤ c.rest.length := by
  rcases exists_skip_of_skipComment c.skipSpaces with ⟨n, hskip, hn⟩
  have hrun := c.length_takeWhile_le (· == ' ')
  rw [skipSpaces, skipWhile_eq, rest_skip, List.length_drop] at hn
  refine ⟨(c.rest.takeWhile (· == ' ')).length + n, ?_, by omega⟩
  rw [hskip, skip_add]
  rfl

theorem isAt_space_gap (c : Cursor) : c.skipSpaces.skipComment.isAt ' ' = false := by
  have hnone : ∀ (p : Char → Bool) (d : Cursor), p ' ' = true ->
      (d.skipWhile p).isAt ' ' = false := by
    intro p d hp
    rw [← Bool.not_eq_true]
    intro hat
    rcases List.exists_cons_of_ne_nil (ne_nil_of_isAt hat) with ⟨x, more, hrest⟩
    have hx : x = ' ' := by
      rw [isAt, peek, hrest, List.getElem?_cons_zero] at hat
      simpa using hat
    have hpx := not_of_skipWhile hrest
    rw [hx, hp] at hpx
    cases hpx
  unfold skipComment
  split
  · exact hnone _ _ (by decide)
  · exact hnone _ c (by decide)

/-- Spaces and a comment behind them are skipped alike, or the text ends with them. -/
theorem gap_within {c : Cursor} (h : c.Solid) (e : Setting) :
    (∃ n ≤ c.rest.length, c.skipSpaces.skipComment = c.skip n ∧ (c.skip n).rest ≠ [] ∧
      (c.within e).skipSpaces.skipComment = (c.skip n).within e) ∨
    c.skipSpaces.skipComment = c.skip c.rest.length ∧
      ∃ m ≥ c.rest.length, (c.within e).skipSpaces.skipComment = (c.within e).skip m := by
  rcases exists_skip_of_gap c with ⟨n, hshort, hn⟩
  rcases exists_skip_of_gap (c.within e) with ⟨m, hlong, _⟩
  by_cases hne : c.rest = []
  · right
    rw [hne, List.length_nil, hshort, hlong]
    exact ⟨skip_of_nil hne n, m, Nat.zero_le m, rfl⟩
  · have hblank : ∀ x : Char, (x == ' ') = true -> Text.isBlank x = true := by
      intro x hx
      rw [eq_of_beq hx]
      decide
    have hspaces : (c.within e).skipSpaces = c.skipSpaces.within e :=
      skipWhile_within_of_blank h e hblank hne
    have hrun := c.length_takeWhile_le (· == ' ')
    have hskip : c.skipSpaces = c.skip (c.rest.takeWhile (· == ' ')).length := rfl
    have hlen : c.skipSpaces.rest.length =
        c.rest.length - (c.rest.takeWhile (· == ' ')).length := by
      rw [hskip, rest_skip, List.length_drop]
    rcases skipComment_within (hskip ▸ h.skip _) e with heq | ⟨hend, k, hk, heq⟩
    · rw [← hspaces, hshort] at heq
      by_cases hrest : (c.skip n).rest = []
      · right
        rw [rest_skip, List.drop_eq_nil_iff] at hrest
        have hn : n = c.rest.length := by omega
        subst hn
        exact ⟨hshort, c.rest.length, Nat.le_refl _,
          heq.trans (skip_within h e (Nat.le_refl _)).symm⟩
      · exact Or.inl ⟨n, hn, hshort, hrest, heq⟩
    · right
      rw [hspaces, heq, hend, hlen, hskip, ← skip_add, Nat.add_sub_cancel' hrun,
        ← skip_within h e hrun, ← skip_add]
      exact ⟨rfl, _, by omega, rfl⟩

end Cursor

end Yaml
end TrafficGraph

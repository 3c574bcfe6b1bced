import TrafficGraph.Proofs.Yaml.Reading

/-!
# Block scalars in a longer document

A block scalar keeps the line breaks at its end, so what it is depends on the spacing behind.
But if it does not reach to the end of the text, it is the same in a longer document.
-/

namespace TrafficGraph
namespace Yaml

open Cursor

/-!
# Indicators
-/

theorem chomping?_peek_within (c : Cursor) (e : Setting) (k : Nat) :
    chomping? ((c.within e).peek k) = chomping? (c.peek k) := by
  rcases c.peek_within e k with heq | ⟨hnone, x, hx, hspacing⟩
  · rw [heq]
  · rw [hnone, hx]
    rcases isSpacing_cases hspacing with rfl | rfl | rfl | rfl | rfl | rfl <;> rfl

theorem ne_nil_of_peek {c : Cursor} {k : Nat} {x : Char} (h : c.peek k = some x) :
    k + 1 ≤ c.rest.length := (List.getElem?_eq_some_iff.mp h).1

section

variable {c : Cursor} (h : c.Solid) (e : Setting)

include h

theorem tracks_readIncrement :
    Tracks e c 0 (readIncrement c) (readIncrement (c.within e)) := by
  unfold readIncrement
  rcases c.peek_within e 0 with heq | ⟨hnone, x, hx, hspacing⟩
  · rw [heq]
    cases hpeek : c.peek 0 with
    | none => exact .refl none
    | some d =>
        have hone := ne_nil_of_peek hpeek
        dsimp only
        split
        · exact .fails _ _
        · split
          · rw [next_within h e (List.length_pos_iff.mp hone)]
            exact .same _ 1 (Nat.zero_le 1) hone
          · exact .refl none
  · rw [hnone, hx]
    have hzero : x ≠ '0' := ne_of_isSpacing hspacing (by decide)
    have hdigit : Text.isAsciiDigit x = false := by
      rcases isSpacing_cases hspacing with rfl | rfl | rfl | rfl | rfl | rfl <;> decide
    simp only [hzero, hdigit, if_false, Bool.false_eq_true]
    exact .refl none

end

def readIndicators (c : Cursor) : Except Fault ((Chomping × Option Nat) × Cursor) :=
  match chomping? (c.peek 0) with
  | some chomping => do
    let (increment, c) ← readIncrement c.next
    return ((chomping, increment), c)
  | none => do
    let (increment, c) ← readIncrement c
    match increment, chomping? (c.peek 0) with
    | some n, some chomping => return ((chomping, some n), c.next)
    | _, _ => return ((.clip, increment), c)

def blockBody (folded : Bool) (outer : Int) (chomping : Chomping) (increment : Option Nat)
    (c : Cursor) : List Char × Cursor :=
  let (breaks, indent, c) := readBlockIndent (max (outer + 1) 1).toNat increment c
  let b := readBlockLines folded indent c.fuel ⟨[], [], breaks, c⟩
  let ending :=
    match chomping with
    | .clip => b.lastBreak
    | .strip => []
    | .keep => b.lastBreak ++ b.breaks
  (b.text ++ ending, b.cursor)

def readBlockRest (folded : Bool) (outer : Int) (indicators : Chomping × Option Nat)
    (c : Cursor) : Except Fault (List Char × Cursor) := do
  if endsName (c.peek 0) then
    let c ← endLine c
    return blockBody folded outer indicators.1 indicators.2 c
  else throw .invalid

theorem readBlockRest_eq (folded : Bool) (outer : Int) (chomping : Chomping)
    (increment : Option Nat) (c : Cursor) :
    (do
      let (chomping, increment, d) ← (if endsName (c.peek 0) then
        return (chomping, increment, c) else throw Fault.invalid)
      let d ← endLine d
      return blockBody folded outer chomping increment d) =
    readBlockRest folded outer (chomping, increment) c := by
  unfold readBlockRest
  split <;> rfl

theorem readBlock_eq (folded : Bool) (outer : Int) (c : Cursor) :
    readBlock folded outer c =
      readIndicators c.next >>= fun read => readBlockRest folded outer read.1 read.2 := by
  unfold readBlock readBlockHeader readIndicators
  cases chomping? (c.next.peek 0) with
  | some chomping =>
      cases readIncrement c.next.next with
      | error fault => rfl
      | ok read => exact readBlockRest_eq folded outer chomping read.1 read.2
  | none =>
      cases readIncrement c.next with
      | error fault => rfl
      | ok read =>
          rcases read with ⟨_ | n, d⟩
          · exact readBlockRest_eq folded outer .clip none d
          · dsimp only [bind, Except.bind]
            cases chomping? (d.peek 0) with
            | some chomping => exact readBlockRest_eq folded outer chomping (some n) d.next
            | none => exact readBlockRest_eq folded outer .clip (some n) d

/-!
# Indentation

Indentation and blank lines are white space, so text is left behind them.
-/

theorem blockIndentation_of_nil {c : Cursor} (h : c.rest = []) (n : Nat) (read : List Char)
    (widest : Nat) : blockIndentation n read widest c = (read, widest, c) := by
  cases n with
  | zero => rfl
  | succ n =>
      rw [blockIndentation, isAt_of_nil h, break?_of_nil h]
      rfl

theorem skipIndent_of_nil {c : Cursor} (h : c.rest = []) (indent n : Nat) :
    skipIndent indent n c = c := by
  cases n with
  | zero => rfl
  | succ n =>
      rw [skipIndent, isAt_of_nil h]
      simp

theorem blockBreaks_of_nil {c : Cursor} (h : c.rest = []) (indent n : Nat) (read : List Char) :
    blockBreaks indent n read c = (read, c) := by
  cases n with
  | zero => rfl
  | succ n =>
      rw [blockBreaks, skipIndent_of_nil h, break?_of_nil h]

theorem readBlockIndent_of_nil {c : Cursor} (h : c.rest = []) (least : Nat)
    (increment : Option Nat) : (readBlockIndent least increment c).2.2 = c := by
  unfold readBlockIndent
  cases increment with
  | none =>
      dsimp only
      rw [blockIndentation_of_nil h]
  | some n =>
      dsimp only
      rw [blockBreaks_of_nil h]

section

variable {c : Cursor} (h : c.Solid) (e : Setting)

include h

theorem blockIndentation_within {n m : Nat} (hn : c.rest.length < n) (hm : c.rest.length < m)
    (hne : c.rest ≠ []) (read : List Char) (widest : Nat) :
    ∃ breaks column, ∃ k ≤ c.rest.length, (c.skip k).rest ≠ [] ∧
      blockIndentation n read widest c = (breaks, column, c.skip k) ∧
      blockIndentation m read widest (c.within e) = (breaks, column, (c.skip k).within e) := by
  induction n generalizing c m read widest with
  | zero => cases hn
  | succ n ih =>
      cases m with
      | zero => cases hm
      | succ m =>
          have hone : 1 ≤ c.rest.length := List.length_pos_iff.mpr hne
          have hgo : ∀ (k : Nat) (more : List Char) (widest : Nat), 1 ≤ k ->
              k ≤ c.rest.length -> (c.skip k).rest ≠ [] ->
              ∃ breaks column, ∃ j ≤ c.rest.length, (c.skip j).rest ≠ [] ∧
                blockIndentation n more widest (c.skip k) = (breaks, column, c.skip j) ∧
                blockIndentation m more widest ((c.skip k).within e) =
                  (breaks, column, (c.skip j).within e) := by
            intro k more widest hk hlen hrest
            have hless : (c.skip k).rest.length = c.rest.length - k := by
              rw [rest_skip, List.length_drop]
            rcases ih (h.skip k) (m := m) (by omega) (by omega) hrest more widest with
              ⟨breaks, column, j, hj, hafter, hshort, hlong⟩
            rw [← skip_add] at hafter hshort hlong
            exact ⟨breaks, column, k + j, by omega, hafter, hshort, hlong⟩
          rw [blockIndentation, blockIndentation, isAt_within_of_ne c e hne]
          split
          · rename_i hat
            rw [next_within h e hne, column_within]
            exact hgo 1 read _ (Nat.le_refl 1) hone (rest_next_ne_nil h (by decide) hat)
          · rw [break?_within h e hne]
            cases hbreak : c.break? with
            | none => exact ⟨read, widest, 0, Nat.zero_le _, hne, rfl, rfl⟩
            | some found =>
                rcases found with ⟨x, after⟩
                have hafter := rest_ne_nil_of_break? h hbreak
                rcases exists_skip_of_break? hbreak with ⟨k, rfl, hk, _⟩
                exact hgo (k + 1) (x :: read) widest (Nat.le_add_left 1 k) hk hafter

theorem skipIndent_within (hne : c.rest ≠ []) (indent n : Nat) :
    ∃ k ≤ c.rest.length, (c.skip k).rest ≠ [] ∧ skipIndent indent n c = c.skip k ∧
      skipIndent indent n (c.within e) = (c.skip k).within e := by
  induction n generalizing c with
  | zero => exact ⟨0, Nat.zero_le _, hne, rfl, rfl⟩
  | succ n ih =>
      rw [skipIndent, skipIndent, column_within, isAt_within_of_ne c e hne]
      split
      · rename_i hat
        have hnext := rest_next_ne_nil h (by decide) hat.2
        rcases ih h.next hnext with ⟨k, hk, hrest, hshort, hlong⟩
        have hone : 1 ≤ c.rest.length := List.length_pos_iff.mpr hne
        rw [rest_next, List.length_drop] at hk
        rw [← skip_one, ← skip_add] at hrest hshort hlong
        rw [next_within h e hne]
        exact ⟨1 + k, by omega, hrest, hshort, hlong⟩
      · exact ⟨0, Nat.zero_le _, hne, rfl, rfl⟩

theorem blockBreaks_within (indent : Nat) {n m : Nat} (hn : c.rest.length < n)
    (hm : c.rest.length < m) (hne : c.rest ≠ []) (read : List Char) :
    ∃ breaks, ∃ k ≤ c.rest.length, (c.skip k).rest ≠ [] ∧
      blockBreaks indent n read c = (breaks, c.skip k) ∧
      blockBreaks indent m read (c.within e) = (breaks, (c.skip k).within e) := by
  induction n generalizing c m read with
  | zero => cases hn
  | succ n ih =>
      cases m with
      | zero => cases hm
      | succ m =>
          rcases skipIndent_within h e hne indent indent with ⟨j, hj, hrest, hshort, hlong⟩
          rw [blockBreaks, blockBreaks, hshort, hlong, break?_within (h.skip j) e hrest]
          cases hbreak : (c.skip j).break? with
          | none => exact ⟨read, j, hj, hrest, rfl, rfl⟩
          | some found =>
              rcases found with ⟨x, after⟩
              have hafter := rest_ne_nil_of_break? (h.skip j) hbreak
              rcases exists_skip_of_break? hbreak with ⟨k, rfl, hk, _⟩
              rw [rest_skip, List.length_drop] at hk
              rw [← skip_add] at hafter ⊢
              have hless : (c.skip (j + (k + 1))).rest.length = c.rest.length - (j + (k + 1)) := by
                rw [rest_skip, List.length_drop]
              rcases ih (h.skip (j + (k + 1))) (m := m) (by omega) (by omega) hafter
                (x :: read) with ⟨breaks, i, hi, hmore, hshort, hlong⟩
              rw [← skip_add] at hmore hshort hlong
              exact ⟨breaks, j + (k + 1) + i, by omega, hmore, hshort, hlong⟩

theorem readBlockIndent_within (hne : c.rest ≠ []) (least : Nat) (increment : Option Nat) :
    ∃ breaks indent, ∃ k ≤ c.rest.length, (c.skip k).rest ≠ [] ∧
      readBlockIndent least increment c = (breaks, indent, c.skip k) ∧
      readBlockIndent least increment (c.within e) = (breaks, indent, (c.skip k).within e) := by
  have hfuel : c.rest.length < c.fuel := Nat.lt_add_of_pos_right (by decide)
  have hfuelLong : c.rest.length < (c.within e).fuel := by
    simp [fuel, within]
    omega
  unfold readBlockIndent
  cases increment with
  | none =>
      rcases blockIndentation_within h e hfuel hfuelLong hne [] 0 with
        ⟨breaks, widest, k, hk, hrest, hshort, hlong⟩
      dsimp only
      rw [hshort, hlong]
      exact ⟨breaks.reverse, max least widest, k, hk, hrest, rfl, rfl⟩
  | some n =>
      rcases blockBreaks_within h e (least + n - 1) hfuel hfuelLong hne [] with
        ⟨breaks, k, hk, hrest, hshort, hlong⟩
      dsimp only
      rw [hshort, hlong]
      exact ⟨breaks.reverse, least + n - 1, k, hk, hrest, rfl, rfl⟩

end

/-!
# Lines
-/

def readLine (indent : Nat) (c : Cursor) : List Char × List Char × List Char × Cursor :=
  let (line, after) := c.span fun x => !isBreak x
  let (lastBreak, after) :=
    match after.break? with
    | some (x, after) => ([x], after)
    | none => ([], after)
  let (breaks, after) := blockBreaks indent after.fuel [] after
  (line, lastBreak, breaks.reverse, after)

def joinLines (folded first : Bool) (lastBreak breaks : List Char) (after : Cursor) : List Char :=
  if folded && lastBreak == ['\n'] && first && startsWithText after then
    if breaks.isEmpty then [' '] else []
  else lastBreak

theorem readBlockLines_succ (folded : Bool) (indent n : Nat) (b : Block) :
    readBlockLines folded indent (n + 1) b =
      if b.cursor.column = indent ∧ !b.cursor.rest.isEmpty then
        let (line, lastBreak, breaks, after) := readLine indent b.cursor
        let text := b.text ++ b.breaks ++ line
        if after.column = indent ∧ !after.rest.isEmpty then
          let join := joinLines folded (startsWithText b.cursor) lastBreak breaks after
          readBlockLines folded indent n ⟨text ++ join, [], breaks, after⟩
        else ⟨text, lastBreak, breaks, after⟩
      else { b with lastBreak := [] } := rfl

theorem cursor_readBlockLines_of_nil (folded : Bool) (indent n : Nat) {b : Block}
    (h : b.cursor.rest = []) : (readBlockLines folded indent n b).cursor = b.cursor := by
  cases n with
  | zero => rfl
  | succ n =>
      rw [readBlockLines_succ, if_neg]
      rw [h]
      exact fun hrest => Bool.false_ne_true hrest.2

section

variable {c : Cursor} (h : c.Solid) (e : Setting)

include h

theorem readLine_within (indent : Nat) :
    (readLine indent c).2.2.2.rest = [] ∨
      ∃ line lastBreak breaks, ∃ k ≥ 1, k ≤ c.rest.length ∧ (c.skip k).rest ≠ [] ∧
        readLine indent c = (line, lastBreak, breaks, c.skip k) ∧
        readLine indent (c.within e) = (line, lastBreak, breaks, (c.skip k).within e) := by
  by_cases hbreak : ∃ x ∈ c.rest, (!isBreak x) = false
  · right
    rcases exists_cons_of_skipWhile hbreak with ⟨x, more, hrest, hx⟩
    have hrun := c.length_takeWhile_le fun x => !isBreak x
    unfold readLine
    rw [span_within_of_not_all h e hbreak, span_eq]
    rw [skipWhile_eq] at hrest
    dsimp only
    generalize (c.rest.takeWhile fun x => !isBreak x) = line at hrest hrun ⊢
    have hsolid := h.skip line.length
    rw [break?_within hsolid e (hrest ▸ List.cons_ne_nil x more)]
    rw [Bool.not_eq_false'] at hx
    rcases Option.ne_none_iff_exists'.mp (break?_ne_none_of_isBreak hrest hx) with
      ⟨⟨y, after⟩, hfound⟩
    have hafter := rest_ne_nil_of_break? hsolid hfound
    rcases exists_skip_of_break? hfound with ⟨j, rfl, hj, _⟩
    rcases blockBreaks_within (hsolid.skip (j + 1)) e indent
      (n := ((c.skip line.length).skip (j + 1)).fuel)
      (m := (((c.skip line.length).skip (j + 1)).within e).fuel)
      (Nat.lt_add_of_pos_right (by decide)) (by simp [fuel, within]; omega) hafter [] with
      ⟨breaks, k, hk, hmore, hshort, hlong⟩
    rw [rest_skip, rest_skip, List.length_drop, List.length_drop] at hk
    rw [rest_skip, List.length_drop] at hj
    rw [hfound]
    dsimp only [Option.map_some]
    rw [hshort, hlong]
    rw [← skip_add, ← skip_add] at hmore ⊢
    exact ⟨line, [y], breaks.reverse, _, by omega, by omega, hmore, rfl, rfl⟩
  · left
    have hall : c.rest.takeWhile (fun x => !isBreak x) = c.rest := by
      rw [List.takeWhile_eq_self_iff]
      intro x hx
      rw [← Bool.not_eq_false]
      exact fun hx' => hbreak ⟨x, hx, hx'⟩
    have hnil : (c.skip c.rest.length).rest = [] := by rw [rest_skip, List.drop_length]
    unfold readLine
    rw [span_eq, hall]
    dsimp only
    rw [break?_of_nil hnil]
    dsimp only
    rw [blockBreaks_of_nil hnil]
    exact hnil

theorem readBlockLines_within (folded : Bool) (indent : Nat) {n m : Nat}
    (hn : c.rest.length < n) (hm : c.rest.length < m) (hne : c.rest ≠ [])
    (text lastBreak breaks : List Char) :
    (readBlockLines folded indent n ⟨text, lastBreak, breaks, c⟩).cursor.rest = [] ∨
      ∃ text' lastBreak' breaks', ∃ k ≤ c.rest.length,
        readBlockLines folded indent n ⟨text, lastBreak, breaks, c⟩ =
          ⟨text', lastBreak', breaks', c.skip k⟩ ∧
        readBlockLines folded indent m ⟨text, lastBreak, breaks, c.within e⟩ =
          ⟨text', lastBreak', breaks', (c.skip k).within e⟩ := by
  induction n generalizing c m text lastBreak breaks with
  | zero => cases hn
  | succ n ih =>
      cases m with
      | zero => cases hm
      | succ m =>
          have htext : startsWithText (c.within e) = startsWithText c := by
            rw [startsWithText, startsWithText, isAt_within_of_ne c e hne,
              isAt_within_of_ne c e hne]
          rw [readBlockLines_succ, readBlockLines_succ]
          dsimp only
          rw [column_within, isEmpty_rest_within hne, List.isEmpty_eq_false_iff.mpr hne, htext]
          split
          · rcases readLine_within h e indent with
              hnil | ⟨line, lastBreak', breaks', k, hk, hlen, hrest, hshort, hread⟩
            · left
              generalize readLine indent c = read at hnil ⊢
              rcases read with ⟨line, lastBreak', breaks', after⟩
              dsimp only at hnil ⊢
              rw [hnil]
              simp only [List.isEmpty_nil, Bool.not_true, Bool.false_eq_true, and_false, if_false]
              exact hnil
            · rw [hshort, hread]
              dsimp only
              have hfirst : startsWithText ((c.skip k).within e) = startsWithText (c.skip k) := by
                rw [startsWithText, startsWithText, isAt_within_of_ne _ e hrest,
                  isAt_within_of_ne _ e hrest]
              have hjoin : ∀ first,
                  joinLines folded first lastBreak' breaks' ((c.skip k).within e) =
                    joinLines folded first lastBreak' breaks' (c.skip k) := by
                intro first
                rw [joinLines, joinLines, hfirst]
              rw [column_within, isEmpty_rest_within hrest, List.isEmpty_eq_false_iff.mpr hrest,
                hjoin]
              split
              · have hless : (c.skip k).rest.length = c.rest.length - k := by
                  rw [rest_skip, List.length_drop]
                rcases ih (h.skip k) (m := m) (by omega) (by omega) hrest _ [] breaks' with
                  hnil | ⟨text', last, blanks, j, hj, hshort, hread⟩
                · exact Or.inl hnil
                · rw [← skip_add] at hshort hread
                  exact Or.inr ⟨text', last, blanks, k + j, by omega, hshort, hread⟩
              · exact Or.inr ⟨_, lastBreak', breaks', k, hlen, rfl, rfl⟩
          · exact Or.inr ⟨text, [], breaks, 0, Nat.zero_le _, rfl, rfl⟩

/-!
# Whole blocks
-/

theorem blockBody_within (hne : c.rest ≠ []) (folded : Bool) (outer : Int) (chomping : Chomping)
    (increment : Option Nat) :
    (blockBody folded outer chomping increment c).2.rest = [] ∨
      ∃ text, ∃ k ≤ c.rest.length,
        blockBody folded outer chomping increment c = (text, c.skip k) ∧
        blockBody folded outer chomping increment (c.within e) = (text, (c.skip k).within e) := by
  rcases readBlockIndent_within h e hne (max (outer + 1) 1).toNat increment with
    ⟨breaks, indent, j, hj, hrest, hshort, hlong⟩
  unfold blockBody
  rw [hshort, hlong]
  dsimp only
  rcases readBlockLines_within (h.skip j) e folded indent (n := (c.skip j).fuel)
    (m := ((c.skip j).within e).fuel) (Nat.lt_add_of_pos_right (by decide))
    (by simp [fuel, within]; omega) hrest [] [] breaks with
    hnil | ⟨text, lastBreak, blanks, k, hk, hshort, hlong⟩
  · exact Or.inl hnil
  · rw [rest_skip, List.length_drop] at hk
    rw [← skip_add] at hshort hlong
    rw [hshort, hlong]
    exact Or.inr ⟨_, j + k, by omega, rfl, rfl⟩

omit h in
theorem rest_blockBody_of_nil (hnil : c.rest = []) (folded : Bool) (outer : Int)
    (chomping : Chomping) (increment : Option Nat) :
    (blockBody folded outer chomping increment c).2.rest = [] := by
  have hindent := readBlockIndent_of_nil hnil (max (outer + 1) 1).toNat increment
  unfold blockBody
  generalize readBlockIndent (max (outer + 1) 1).toNat increment c = read at hindent ⊢
  rcases read with ⟨breaks, indent, after⟩
  cases hindent
  dsimp only
  rw [cursor_readBlockLines_of_nil folded indent after.fuel hnil]
  exact hnil

theorem tracks_readIndicators :
    Tracks e c 0 (readIndicators c) (readIndicators (c.within e)) := by
  unfold readIndicators
  rw [chomping?_peek_within]
  cases hchomping : chomping? (c.peek 0) with
  | some chomping =>
      have hone : 1 ≤ c.rest.length := by
        cases hpeek : c.peek 0 with
        | none => rw [hpeek] at hchomping; cases hchomping
        | some x => exact ne_nil_of_peek hpeek
      dsimp only
      rw [next_within h e (List.length_pos_iff.mp hone)]
      exact .of_skip hone (Nat.zero_le 1)
        (.bind (tracks_readIncrement h.next e) fun increment n _ _ => .refl _)
  | none =>
      refine .bind (tracks_readIncrement h e) fun increment n _ _ => ?_
      simp only [chomping?_peek_within]
      cases increment with
      | none => exact .refl _
      | some width =>
          cases hchomping : chomping? ((c.skip n).peek 0) with
          | none => exact .refl _
          | some chomping =>
              have hone : 1 ≤ (c.skip n).rest.length := by
                cases hpeek : (c.skip n).peek 0 with
                | none => rw [hpeek] at hchomping; cases hchomping
                | some x => exact ne_nil_of_peek hpeek
              dsimp only
              rw [next_within (h.skip n) e (List.length_pos_iff.mp hone)]
              exact .same _ 1 (Nat.zero_le 1) hone

theorem tracks_readBlockRest (folded : Bool) (outer : Int) (indicators : Chomping × Option Nat) :
    Tracks e c 0 (readBlockRest folded outer indicators c)
        (readBlockRest folded outer indicators (c.within e)) ∨
      ∃ text d, readBlockRest folded outer indicators c = .ok (text, d) ∧ d.rest = [] := by
  unfold readBlockRest
  rw [endsName_peek_within]
  split
  · rcases endLine_within h e with
      ⟨fault, hlong⟩ | ⟨n, hn, hshort, hlong⟩ | ⟨hshort, m, hm, hlong⟩
    · rw [hlong]
      exact Or.inl (.fails _ fault)
    · rw [hshort, hlong]
      by_cases hrest : (c.skip n).rest = []
      · exact Or.inr ⟨_, _, rfl, rest_blockBody_of_nil hrest folded outer indicators.1 indicators.2⟩
      · rcases blockBody_within (h.skip n) e hrest folded outer indicators.1 indicators.2 with
          hnil | ⟨text, k, hk, hshort, hlong⟩
        · exact Or.inr ⟨_, _, rfl, hnil⟩
        · left
          show Tracks e c 0 (.ok (blockBody folded outer indicators.1 indicators.2 (c.skip n)))
            (.ok (blockBody folded outer indicators.1 indicators.2 ((c.skip n).within e)))
          rw [rest_skip, List.length_drop] at hk
          rw [← skip_add] at hshort hlong
          rw [hshort, hlong]
          exact .same text (n + k) (Nat.zero_le _) (by omega)
    · have hnil : (c.skip c.rest.length).rest = [] := by rw [rest_skip, List.drop_length]
      rw [hshort]
      exact Or.inr ⟨_, _, rfl, rest_blockBody_of_nil hnil folded outer indicators.1 indicators.2⟩
  · exact Or.inl (.fails _ _)

/-- A block scalar is the same in a longer document, or the text ends with it. -/
theorem tracks_readBlock (hne : c.rest ≠ []) (folded : Bool) (outer : Int) :
    Tracks e c 1 (readBlock folded outer c) (readBlock folded outer (c.within e)) ∨
      ∃ text d, readBlock folded outer c = .ok (text, d) ∧ d.rest = [] := by
  have hone : 1 ≤ c.rest.length := List.length_pos_iff.mpr hne
  have hread := tracks_readIndicators h.next e
  rw [readBlock_eq, readBlock_eq, next_within h e hne]
  generalize readIndicators c.next = short at hread ⊢
  generalize readIndicators (c.next.within e) = long at hread ⊢
  cases hread with
  | fails short fault => exact Or.inl (.fails _ fault)
  | same indicators n _ hn =>
      rw [rest_next, List.length_drop] at hn
      show Tracks e c 1 (readBlockRest folded outer indicators (c.next.skip n))
          (readBlockRest folded outer indicators ((c.next.skip n).within e)) ∨
        ∃ text d, readBlockRest folded outer indicators (c.next.skip n) = .ok (text, d) ∧
          d.rest = []
      rw [← skip_one, ← skip_add]
      rcases tracks_readBlockRest (h.skip (1 + n)) e folded outer indicators with hrest | hend
      · exact Or.inl (hrest.of_skip (by omega) (by omega))
      · exact Or.inr hend

end

end Yaml
end TrafficGraph

import TrafficGraph.Proofs.Yaml.Reading

/-!
# Plain scalars in a longer document

A plain scalar takes the white space behind a run of it only if more of it follows.  So at the
end of a text it is the same scalar in a longer document, which may have looked through the
spacing behind for more.
-/

namespace TrafficGraph
namespace Yaml

open Cursor

/-- What a reader of a plain scalar makes of a text and of a longer one.  If the scalar ends
the text, it does not matter whether a line is left behind it. -/
inductive FollowsPlain (e : Setting) (c : Cursor) (least : Nat) :
    List Char × Bool × Cursor → List Char × Bool × Cursor → Prop where
  | same (text : List Char) (left : Bool) (n : Nat) (hleast : least ≤ n)
      (hn : n ≤ c.rest.length) :
      FollowsPlain e c least (text, left, c.skip n) (text, left, (c.skip n).within e)
  | ends (text : List Char) (left leftLong : Bool) (m : Nat) (hleast : least ≤ c.rest.length)
      (hm : c.rest.length ≤ m) :
      FollowsPlain e c least (text, left, c.skip c.rest.length)
        (text, leftLong, (c.within e).skip m)

theorem FollowsPlain.of_skip {e : Setting} {c : Cursor} {least n : Nat}
    {short long : List Char × Bool × Cursor} (h : c.Solid) (hn : n ≤ c.rest.length)
    (hleast : least ≤ n) (hfollows : FollowsPlain e (c.skip n) 0 short long) :
    FollowsPlain e c least short long := by
  cases hfollows with
  | same text left k _ hk =>
      rw [rest_skip, List.length_drop] at hk
      rw [← skip_add]
      exact .same text left (n + k) (by omega) (by omega)
  | ends text left leftLong m _ hm =>
      rw [← skip_within h e hn, ← skip_add, ← skip_add, rest_skip, List.length_drop,
        Nat.add_sub_cancel' hn]
      rw [rest_skip, List.length_drop] at hm
      exact .ends text left leftLong (n + m) (by omega) (by omega)

theorem FollowsPlain.weaken {e : Setting} {c : Cursor} {least : Nat}
    {short long : List Char × Bool × Cursor} (h : FollowsPlain e c least short long) :
    FollowsPlain e c 0 short long := by
  cases h with
  | same text left n _ hn => exact .same text left n (Nat.zero_le n) hn
  | ends text left leftLong m _ hm => exact .ends text left leftLong m (Nat.zero_le _) hm

/-!
# Runs
-/

theorem endsKey_of_isSpacing {x : Char} (h : isSpacing x = true) (inFlow : Bool) :
    endsKey inFlow (some x) = true := by
  rw [endsKey, endsWord_of_isSpacing h]
  rfl

theorem plainLength_of_spacing (inFlow : Bool) {xs : List Char}
    (h : ∀ x ∈ xs, isSpacing x = true) : plainLength inFlow xs = 0 := by
  cases xs with
  | nil => rfl
  | cons x rest =>
      rw [plainLength, endsWord_of_isSpacing (h x List.mem_cons_self)]
      rfl

theorem plainLength_append (inFlow : Bool) (e : Setting) (xs : List Char) :
    plainLength inFlow (xs ++ e.back) = plainLength inFlow xs := by
  induction xs with
  | nil => exact plainLength_of_spacing inFlow e.spacing
  | cons x rest ih =>
      have hnext : endsKey inFlow (rest ++ e.back).head? = endsKey inFlow rest.head? := by
        cases rest with
        | cons y more => rfl
        | nil =>
            cases hback : e.back with
            | nil => rfl
            | cons y more =>
                exact endsKey_of_isSpacing (e.spacing y (hback ▸ List.mem_cons_self)) inFlow
      rw [List.cons_append, plainLength, plainLength, hnext, ih]

theorem plainLength_le (inFlow : Bool) (xs : List Char) : plainLength inFlow xs ≤ xs.length := by
  induction xs with
  | nil => exact Nat.le_refl 0
  | cons x rest ih =>
      rw [plainLength]
      split
      · exact Nat.zero_le _
      · exact Nat.succ_le_succ ih

/-!
# The space behind a run
-/

theorem reaches_of_plainBreaks (n : Nat) (read : List Char) (c : Cursor) :
    c.Reaches (plainBreaks n read c).2 := by
  induction n generalizing read c with
  | zero => exact .refl c
  | succ n ih =>
      rw [plainBreaks]
      split
      · exact .trans (.skip c 1) (ih read c.next)
      · split
        · exact .refl c
        · rename_i x after hbreak
          split
          · exact .of_break? hbreak
          · exact .trans (.of_break? hbreak) (ih _ after)

def behindSpaces (spaces : List Char) (c : Cursor) : List Char × Bool × Cursor :=
  match c.break? with
  | none => (spaces, false, c)
  | some (first, after) =>
    if after.atDocumentMark then ([], true, after)
    else
      match plainBreaks after.fuel [] after with
      | (none, after) => ([], true, after)
      | (some breaks, after) => (foldBreaks first breaks.reverse, true, after)

theorem readPlainSpace_eq (c : Cursor) :
    readPlainSpace c =
      let (spaces, after) := c.span (· == ' ')
      behindSpaces spaces after := rfl

theorem reaches_of_behindSpaces (spaces : List Char) (c : Cursor) :
    c.Reaches (behindSpaces spaces c).2.2 := by
  unfold behindSpaces
  split
  · exact .refl c
  · rename_i first after hbreak
    split
    · exact .of_break? hbreak
    · have hbreaks := reaches_of_plainBreaks after.fuel [] after
      generalize plainBreaks after.fuel [] after = found at hbreaks ⊢
      rcases found with ⟨_ | breaks, last⟩
      · exact .trans (.of_break? hbreak) hbreaks
      · exact .trans (.of_break? hbreak) hbreaks

theorem reaches_of_readPlainSpace (c : Cursor) : c.Reaches (readPlainSpace c).2.2 := by
  rw [readPlainSpace_eq, span_eq]
  exact .trans (.skip c _) (reaches_of_behindSpaces (c.rest.takeWhile (· == ' ')) _)

section

variable {c : Cursor} (h : c.Solid) (e : Setting)

include h

theorem plainBreaks_within {n m : Nat} (hn : c.rest.length < n) (hm : c.rest.length < m)
    (hne : c.rest ≠ []) (read : List Char) :
    ∃ breaks, ∃ k ≤ c.rest.length, plainBreaks n read c = (breaks, c.skip k) ∧
      plainBreaks m read (c.within e) = (breaks, (c.skip k).within e) := by
  induction n generalizing c m read with
  | zero => cases hn
  | succ n ih =>
      cases m with
      | zero => cases hm
      | succ m =>
          have hgo : ∀ (k : Nat) (more : List Char), 1 ≤ k -> k ≤ c.rest.length ->
              (c.skip k).rest ≠ [] ->
              ∃ breaks, ∃ j ≤ c.rest.length, plainBreaks n more (c.skip k) = (breaks, c.skip j) ∧
                plainBreaks m more ((c.skip k).within e) = (breaks, (c.skip j).within e) := by
            intro k more hk hlen hrest
            have hless : (c.skip k).rest.length = c.rest.length - k := by
              rw [rest_skip, List.length_drop]
            rcases ih (h.skip k) (m := m) (by omega) (by omega) hrest more with
              ⟨breaks, j, hj, hshort, hlong⟩
            rw [← skip_add] at hshort hlong
            exact ⟨breaks, k + j, by omega, hshort, hlong⟩
          rw [plainBreaks, plainBreaks, isAt_within_of_ne c e hne]
          split
          · rename_i hat
            have hone : 1 ≤ c.rest.length := List.length_pos_iff.mpr hne
            rw [next_within h e hne]
            exact hgo 1 read (Nat.le_refl 1) hone (rest_next_ne_nil h (by decide) hat)
          · rw [break?_within h e hne]
            cases hbreak : c.break? with
            | none => exact ⟨some read, 0, Nat.zero_le _, rfl, rfl⟩
            | some found =>
                rcases found with ⟨x, after⟩
                have hafter := rest_ne_nil_of_break? h hbreak
                rcases exists_skip_of_break? hbreak with ⟨k, rfl, hk, _⟩
                dsimp only [Option.map_some]
                rw [atDocumentMark_within]
                split
                · exact ⟨none, k + 1, hk, rfl, rfl⟩
                · exact hgo (k + 1) (x :: read) (Nat.le_add_left 1 k) hk hafter

theorem behindSpaces_within (hne : c.rest ≠ []) (spaces : List Char) :
    ∃ space left, ∃ k ≤ c.rest.length, behindSpaces spaces c = (space, left, c.skip k) ∧
      behindSpaces spaces (c.within e) = (space, left, (c.skip k).within e) := by
  unfold behindSpaces
  rw [break?_within h e hne]
  cases hbreak : c.break? with
  | none => exact ⟨spaces, false, 0, Nat.zero_le _, rfl, rfl⟩
  | some found =>
      rcases found with ⟨first, after⟩
      have hafter := rest_ne_nil_of_break? h hbreak
      rcases exists_skip_of_break? hbreak with ⟨k, rfl, hk, _⟩
      dsimp only [Option.map_some]
      rw [atDocumentMark_within]
      split
      · exact ⟨[], true, k + 1, hk, rfl, rfl⟩
      · rcases plainBreaks_within (h.skip (k + 1)) e (n := (c.skip (k + 1)).fuel)
          (m := ((c.skip (k + 1)).within e).fuel) (Nat.lt_add_of_pos_right (by decide))
          (by simp [fuel, within]; omega) hafter [] with ⟨breaks, j, hj, hshort, hlong⟩
        rw [rest_skip, List.length_drop] at hj
        rw [← skip_add] at hshort hlong
        rw [hshort, hlong]
        cases breaks with
        | none => exact ⟨[], true, _, by omega, rfl, rfl⟩
        | some breaks => exact ⟨foldBreaks first breaks.reverse, true, _, by omega, rfl, rfl⟩

theorem readPlainSpace_within (hne : c.rest ≠ []) :
    ∃ space left, ∃ k ≤ c.rest.length, readPlainSpace c = (space, left, c.skip k) ∧
      readPlainSpace (c.within e) = (space, left, (c.skip k).within e) := by
  have hblank : ∀ x : Char, (x == ' ') = true -> Text.isBlank x = true := by
    intro x hx
    rw [eq_of_beq hx]
    decide
  have hrest := rest_skipWhile_ne_nil h hblank hne
  have hlen := c.length_takeWhile_le (· == ' ')
  rw [readPlainSpace_eq, readPlainSpace_eq, span_within_of_blank h e hblank hne, span_eq]
  rw [skipWhile_eq] at hrest
  dsimp only
  rcases behindSpaces_within (h.skip _) e hrest (c.rest.takeWhile (· == ' ')) with
    ⟨space, left, k, hk, hshort, hlong⟩
  rw [rest_skip, List.length_drop] at hk
  rw [← skip_add] at hshort hlong
  exact ⟨space, left, _, by omega, hshort, hlong⟩

end

/-!
# Whole scalars
-/

theorem readPlainSpace_of_nil {c : Cursor} (h : c.rest = []) :
    readPlainSpace c = ([], false, c) := by
  rw [readPlainSpace_eq, span_eq, h]
  dsimp only [List.takeWhile_nil, List.length_nil, skip]
  rw [behindSpaces, break?_of_nil h]

theorem readPlain_of_spaced (inFlow : Bool) (indent : Int) (n : Nat) (read space : List Char)
    (left : Bool) {c : Cursor} (h : c.Spaced) :
    readPlain inFlow indent n read space left c = (read, left, c) := by
  cases n with
  | zero => rfl
  | succ n =>
      rw [readPlain, plainLength_of_spacing inFlow h]
      simp

def runLength (inFlow : Bool) (c : Cursor) : Nat :=
  if c.isAt '#' then 0 else plainLength inFlow c.rest

theorem readPlain_succ (inFlow : Bool) (indent : Int) (n : Nat) (read space : List Char)
    (left : Bool) (c : Cursor) :
    readPlain inFlow indent (n + 1) read space left c =
      if runLength inFlow c = 0 then (read, left, c)
      else
        let read := read ++ space ++ c.rest.take (runLength inFlow c)
        let (space, left, c) := readPlainSpace (c.skip (runLength inFlow c))
        if space.isEmpty || c.isAt '#' || (!inFlow && decide ((c.column : Int) < indent)) then
          (read, left, c)
        else readPlain inFlow indent n read space left c := rfl

theorem runLength_within (inFlow : Bool) (c : Cursor) (e : Setting) :
    runLength inFlow (c.within e) = runLength inFlow c := by
  rw [runLength, runLength, c.isAt_within e (by decide)]
  exact if_congr Iff.rfl rfl (plainLength_append inFlow e c.rest)

theorem runLength_le (inFlow : Bool) (c : Cursor) : runLength inFlow c ≤ c.rest.length := by
  unfold runLength
  split
  · exact Nat.zero_le _
  · exact plainLength_le inFlow c.rest

theorem followsPlain_readPlain {c : Cursor} (h : c.Solid) (e : Setting) (inFlow : Bool)
    (indent : Int) {n m : Nat} (hn : c.rest.length < n) (hm : c.rest.length < m)
    (read space : List Char) (left : Bool) :
    FollowsPlain e c (runLength inFlow c) (readPlain inFlow indent n read space left c)
      (readPlain inFlow indent m read space left (c.within e)) := by
  induction n generalizing c m read space left with
  | zero => cases hn
  | succ n ih =>
      cases m with
      | zero => cases hm
      | succ m =>
          have hlen := runLength_le inFlow c
          have htake : (c.within e).rest.take (runLength inFlow c) =
              c.rest.take (runLength inFlow c) := List.take_append_of_le_length hlen
          rw [readPlain_succ, readPlain_succ, runLength_within, htake, skip_within h e hlen]
          generalize hrun : runLength inFlow c = run at *
          split
          · rename_i hzero
            subst hzero
            exact .same read left 0 (Nat.le_refl 0) (Nat.zero_le _)
          · generalize read ++ space ++ c.rest.take run = text
            by_cases hne : (c.skip run).rest = []
            · -- the longer text has nothing but spacing to look through
              have hwhole : run = c.rest.length := by
                rw [rest_skip, List.drop_eq_nil_iff] at hne
                omega
              rw [readPlainSpace_of_nil hne]
              rcases hspace : readPlainSpace ((c.skip run).within e) with ⟨space', left', d⟩
              have hreaches := reaches_of_readPlainSpace ((c.skip run).within e)
              rw [hspace] at hreaches
              have hspaced := (spaced_within_of_nil hne e).of_reaches hreaches
              rcases hreaches with ⟨j, rfl⟩
              dsimp only at hspaced ⊢
              rw [readPlain_of_spaced inFlow indent m text space' left' hspaced, ite_self,
                ← skip_within h e hlen, ← skip_add, List.isEmpty_nil, Bool.true_or, Bool.true_or,
                if_pos rfl, hwhole]
              exact .ends text false left' _ (Nat.le_refl _) (Nat.le_add_right _ j)
            · rcases readPlainSpace_within (h.skip run) e hne with
                ⟨space', left', k, hk, hshort, hlong⟩
              rw [rest_skip, List.length_drop] at hk
              rw [← skip_add] at hshort hlong
              rw [hshort, hlong]
              dsimp only
              rw [isAt_within _ e (show isSpacing '#' = false by decide), column_within]
              have hmore : (c.skip (run + k)).rest.length = c.rest.length - (run + k) := by
                rw [rest_skip, List.length_drop]
              split
              · have hboth : run + k ≤ c.rest.length := by omega
                exact .same text left' (run + k) (Nat.le_add_right run k) hboth
              · exact .of_skip (n := run + k) h (by omega) (Nat.le_add_right run k)
                  (ih (h.skip (run + k)) (by omega) (by omega) text space' left').weaken

end Yaml
end TrafficGraph

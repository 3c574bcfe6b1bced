import TrafficGraph.Proofs.Yaml.Reading
import TrafficGraph.Yaml.Timestamp

/-!
# Quoted scalars in a longer document

A quoted scalar ends with a mark, which is no spacing.  So inside a longer document it is the
same one, or it has no end there either.
-/

namespace TrafficGraph
namespace Yaml

open Cursor

theorem isBlank_of_isSpaceOrTab {x : Char} (h : isSpaceOrTab x = true) :
    Text.isBlank x = true := by
  simp only [isSpaceOrTab, Bool.or_eq_true, beq_iff_eq] at h
  rcases h with rfl | rfl <;> decide

theorem endsWord_some (x : Char) : endsWord (some x) = (isSpaceOrTab x || isBreak x) := rfl

/-!
# Digits of an escape
-/

def hexStep (n : Option Nat) (d : Char) : Option Nat :=
  n.bind fun n => (Text.hexValue? d).map fun v => n * 16 + v

theorem foldl_hexStep_none (ds : List Char) : ds.foldl hexStep none = none := by
  induction ds with
  | nil => rfl
  | cons d rest ih => exact ih

theorem hexStep_of_isSpacing {x : Char} (h : isSpacing x = true) (n : Option Nat) :
    hexStep n x = none := by
  rcases isSpacing_cases h with rfl | rfl | rfl | rfl | rfl | rfl <;> cases n <;> rfl

theorem hexNumber?_eq (width : Nat) (cs : List Char) :
    hexNumber? width cs =
      if (cs.take width).length = width then (cs.take width).foldl hexStep (some 0) else none :=
  rfl

theorem length_of_hexNumber? {width code : Nat} {cs : List Char}
    (h : hexNumber? width cs = some code) : width ≤ cs.length := by
  rw [hexNumber?_eq, List.length_take] at h
  split at h
  · omega
  · cases h

theorem hexNumber?_append (e : Setting) (width : Nat) (cs : List Char) :
    hexNumber? width (cs ++ e.back) = hexNumber? width cs := by
  by_cases hlen : width ≤ cs.length
  · rw [hexNumber?_eq, hexNumber?_eq, List.take_append_of_le_length hlen]
  · have hshort : hexNumber? width cs = none := by
      rw [hexNumber?_eq, if_neg]
      rw [List.length_take]
      omega
    rw [hshort, hexNumber?_eq]
    split
    · rename_i htake
      rw [List.take_append, List.take_of_length_le (by omega), List.foldl_append]
      cases hback : e.back with
      | nil =>
          rw [hback, List.append_nil, List.length_take] at htake
          omega
      | cons x rest =>
          have hx : isSpacing x = true := e.spacing x (hback ▸ List.mem_cons_self)
          have hwidth : width - cs.length = width - cs.length - 1 + 1 := by omega
          rw [hwidth, List.take_succ_cons, List.foldl_cons, hexStep_of_isSpacing hx,
            foldl_hexStep_none]
    · rfl

/-!
# What the readers step over
-/

theorem quotedBreaks_succ (n : Nat) (read : List Char) (c : Cursor) :
    quotedBreaks (n + 1) read c =
      if c.atDocumentMark then .error .invalid
      else
        match (c.skipWhile isSpaceOrTab).break? with
        | some (char, after) => quotedBreaks n (char :: read) after
        | none => .ok (read.reverse, c.skipWhile isSpaceOrTab) := rfl

theorem reaches_of_quotedBreaks {n : Nat} {read breaks : List Char} {c d : Cursor}
    (h : quotedBreaks n read c = .ok (breaks, d)) : c.Reaches d := by
  induction n generalizing read c with
  | zero =>
      cases h
      exact .refl _
  | succ n ih =>
      rw [quotedBreaks_succ] at h
      split at h
      · cases h
      · have hblanks : c.Reaches (c.skipWhile isSpaceOrTab) := .skip c _
        split at h
        · rename_i x after hbreak
          exact hblanks.trans (.trans (.of_break? hbreak) (ih h))
        · cases h
          exact hblanks

def behindBlanks (blanks : List Char) (c : Cursor) : Except Fault (List Char × Cursor) :=
  if c.rest.isEmpty then .error .invalid
  else
    match c.break? with
    | none => .ok (blanks, c)
    | some (first, after) => do
      let (others, after) ← quotedBreaks after.fuel [] after
      return (foldBreaks first others, after)

theorem readQuotedBlanks_eq (c : Cursor) :
    readQuotedBlanks c =
      let (blanks, after) := c.span isSpaceOrTab
      behindBlanks blanks after := by
  have hspan : c.span (fun x => x == ' ' || x == '\t') = c.span isSpaceOrTab := rfl
  unfold readQuotedBlanks behindBlanks
  rw [hspan]
  dsimp only
  split <;> rfl

theorem reaches_of_behindBlanks {blanks read : List Char} {c d : Cursor}
    (h : behindBlanks blanks c = .ok (read, d)) : c.Reaches d := by
  unfold behindBlanks at h
  split at h
  · cases h
  · split at h
    · cases h
      exact .refl _
    · rename_i x after hbreak
      rcases exists_of_bind_eq_ok h with ⟨others, hothers, hread⟩
      cases hread
      exact .trans (.of_break? hbreak) (reaches_of_quotedBreaks hothers)

theorem reaches_of_readQuotedBlanks {blanks : List Char} {c d : Cursor}
    (h : readQuotedBlanks c = .ok (blanks, d)) : c.Reaches d := by
  rw [readQuotedBlanks_eq, span_eq] at h
  exact .trans (.skip c _) (reaches_of_behindBlanks h)

theorem reaches_of_readEscape {codes : List Nat} {c d : Cursor}
    (h : readEscape c = .ok (codes, d)) : c.next.Reaches d := by
  unfold readEscape at h
  dsimp only at h
  split at h
  · cases h
  · split at h
    · cases h
      exact .skip c.next 1
    · split at h
      · cases h
      · split at h
        · cases h
        · cases h
          exact .skip c.next _
    · rename_i x after _ _ hbreak
      rcases exists_of_bind_eq_ok h with ⟨breaks, hbreaks, hread⟩
      cases hread
      exact .trans (.of_break? hbreak) (reaches_of_quotedBreaks hbreaks)
    · cases h

theorem readQuoted_of_spaced {mark : Char} (hmark : isSpacing mark = false) (escapes : Bool)
    (n : Nat) (read : List Nat) {c : Cursor} (h : c.Spaced) :
    ∃ fault, readQuoted mark escapes n read c = .error fault := by
  induction n generalizing read c with
  | zero => exact ⟨_, rfl⟩
  | succ n ih =>
      rw [readQuoted]
      split
      · exact ⟨_, rfl⟩
      · rename_i x rest hrest
        have hx : isSpacing x = true := h x (hrest ▸ List.mem_cons_self)
        have hslash : ¬ (escapes && x == '\\') = true := by
          have hne : x ≠ '\\' := ne_of_isSpacing hx (by decide)
          simp [hne]
        rw [if_neg (ne_of_isSpacing hx hmark), if_neg hslash, if_pos (endsWord_of_isSpacing hx)]
        cases hblanks : readQuotedBlanks c with
        | error fault => exact ⟨fault, rfl⟩
        | ok blanks => exact ih _ (h.of_reaches (reaches_of_readQuotedBlanks hblanks))

theorem readQuoted_behind_escape {c : Cursor} (h : c.next.Spaced) {mark : Char}
    (hmark : isSpacing mark = false) (escapes : Bool) (n : Nat) (read : List Nat) :
    ∃ fault, (readEscape c >>= fun codes =>
      readQuoted mark escapes n (codes.1.reverse ++ read) codes.2) = .error fault := by
  cases hescape : readEscape c with
  | error fault => exact ⟨fault, rfl⟩
  | ok codes =>
      exact readQuoted_of_spaced hmark escapes n (codes.1.reverse ++ read)
        (h.of_reaches (reaches_of_readEscape hescape))

section

variable {c : Cursor} (h : c.Solid) (e : Setting)

include h

theorem tracks_quotedBreaks {n m : Nat} (hn : c.rest.length < n) (hm : c.rest.length < m)
    (hne : c.rest ≠ []) (read : List Char) :
    Tracks e c 0 (quotedBreaks n read c) (quotedBreaks m read (c.within e)) := by
  induction n generalizing c m read with
  | zero => cases hn
  | succ n ih =>
      cases m with
      | zero => cases hm
      | succ m =>
          rw [quotedBreaks_succ, quotedBreaks_succ, atDocumentMark_within]
          split
          · exact .fails _ _
          · have hrest := rest_skipWhile_ne_nil h (fun _ => isBlank_of_isSpaceOrTab) hne
            have hlen := c.length_takeWhile_le isSpaceOrTab
            rw [skipWhile_within_of_blank h e (fun _ => isBlank_of_isSpaceOrTab) hne]
            rw [skipWhile_eq] at hrest ⊢
            refine .of_skip hlen (Nat.zero_le _) ?_
            have hsolid := h.skip (c.rest.takeWhile isSpaceOrTab).length
            have hle : (c.skip (c.rest.takeWhile isSpaceOrTab).length).rest.length
                ≤ c.rest.length := by
              rw [rest_skip, List.length_drop]
              exact Nat.sub_le _ _
            generalize c.skip (c.rest.takeWhile isSpaceOrTab).length = d at *
            rw [break?_within hsolid e hrest]
            cases hbreak : d.break? with
            | none => exact .refl _
            | some found =>
                rcases found with ⟨x, after⟩
                have hafter := rest_ne_nil_of_break? hsolid hbreak
                rcases exists_skip_of_break? hbreak with ⟨k, rfl, hk, _⟩
                have hless : (d.skip (k + 1)).rest.length < d.rest.length := by
                  rw [rest_skip, List.length_drop]
                  omega
                exact .of_skip hk (Nat.zero_le _)
                  (ih (hsolid.skip _) (by omega) (by omega) hafter _)

theorem tracks_behindBlanks (hne : c.rest ≠ []) (blanks : List Char) :
    Tracks e c (if c.break?.isSome then 1 else 0) (behindBlanks blanks c)
      (behindBlanks blanks (c.within e)) := by
  have hlong : (c.within e).rest.isEmpty = false := by simp [within, hne]
  unfold behindBlanks
  rw [List.isEmpty_eq_false_iff.mpr hne, hlong, break?_within h e hne]
  cases hbreak : c.break? with
  | none => exact .refl blanks
  | some found =>
      rcases found with ⟨first, after⟩
      have hafter := rest_ne_nil_of_break? h hbreak
      rcases exists_skip_of_break? hbreak with ⟨k, rfl, hk, _⟩
      refine .of_skip hk (Nat.le_add_left 1 k)
        (.bind (tracks_quotedBreaks (h.skip _) e ?_ ?_ hafter []) fun others j _ _ => .refl _)
      · exact Nat.lt_add_of_pos_right (by decide)
      · simp [fuel, within]
        omega

theorem tracks_readQuotedBlanks {x : Char} {more : List Char} (hrest : c.rest = x :: more)
    (hx : endsWord (some x) = true) :
    Tracks e c 1 (readQuotedBlanks c) (readQuotedBlanks (c.within e)) := by
  have hne : c.rest ≠ [] := hrest ▸ List.cons_ne_nil x more
  have hafter := rest_skipWhile_ne_nil h (fun _ => isBlank_of_isSpaceOrTab) hne
  have hlen := c.length_takeWhile_le isSpaceOrTab
  rw [readQuotedBlanks_eq, readQuotedBlanks_eq,
    span_within_of_blank h e (fun _ => isBlank_of_isSpaceOrTab) hne, span_eq]
  rw [skipWhile_eq] at hafter
  dsimp only
  have hread := tracks_behindBlanks (h.skip _) e hafter
    (c.rest.takeWhile isSpaceOrTab)
  cases hblank : isSpaceOrTab x with
  | true =>
      have hpos : 1 ≤ (c.rest.takeWhile isSpaceOrTab).length := by
        rw [hrest, List.takeWhile_cons_of_pos hblank]
        exact Nat.le_add_left 1 _
      exact .of_skip hlen hpos hread.weaken
  | false =>
      -- there are no blanks, so a line ends here
      have hbreak : isBreak x = true := by
        rwa [endsWord_some, hblank] at hx
      have hnone : c.rest.takeWhile isSpaceOrTab = [] := by
        rw [hrest, List.takeWhile_cons_of_neg (Bool.not_eq_true _ ▸ hblank)]
      have hsome := Option.isSome_iff_ne_none.mpr (break?_ne_none_of_isBreak hrest hbreak)
      rw [hnone, List.length_nil, skip, if_pos hsome] at hread
      rw [hnone]
      exact hread

theorem tracks_readEscape (hne : c.rest ≠ []) (hnext : c.next.rest ≠ []) :
    Tracks e c 1 (readEscape c) (readEscape (c.within e)) := by
  have hone : 1 ≤ c.rest.length := List.length_pos_iff.mpr hne
  rcases List.exists_cons_of_ne_nil hnext with ⟨x, digits, hrest⟩
  have hlong : (c.next.within e).rest = x :: (digits ++ e.back) := by
    rw [within, hrest]
    rfl
  unfold readEscape
  rw [next_within h e hne]
  refine .of_skip (n := 1) hone (Nat.le_refl 1) ?_
  rw [skip_one]
  dsimp only
  rw [hlong, hrest]
  dsimp only
  rw [break?_within h.next e hnext]
  have hpos : 1 ≤ c.next.rest.length := List.length_pos_iff.mpr hnext
  cases escapedCode? x with
  | some code =>
      rw [next_within h.next e hnext]
      exact .same [code] 1 (Nat.zero_le 1) hpos
  | none =>
      cases codeWidth? x with
      | some width =>
          dsimp only
          rw [hexNumber?_append]
          cases hnumber : hexNumber? width digits with
          | none => exact .fails _ _
          | some code =>
              have hwidth := length_of_hexNumber? hnumber
              dsimp only
              split
              · exact .fails _ _
              · have hlen : width + 1 ≤ c.next.rest.length := by
                  rw [hrest]
                  exact Nat.succ_le_succ hwidth
                rw [skip_within h.next e hlen]
                exact .same [code] (width + 1) (Nat.zero_le _) hlen
      | none =>
          cases hbreak : c.next.break? with
          | none => exact .fails _ _
          | some found =>
              rcases found with ⟨first, after⟩
              have hafter := rest_ne_nil_of_break? h.next hbreak
              rcases exists_skip_of_break? hbreak with ⟨k, rfl, hk, _⟩
              refine .of_skip hk (Nat.zero_le _)
                (.bind (tracks_quotedBreaks (h.next.skip _) e ?_ ?_ hafter [])
                  fun breaks j _ _ => .refl _)
              · exact Nat.lt_add_of_pos_right (by decide)
              · simp [fuel, within]
                omega

/-- Inside quotation marks the longer text needs no more than the fuel of the shorter one. -/
theorem tracks_readQuoted {mark : Char} (hmark : isSpacing mark = false) (escapes : Bool)
    {n : Nat} (hn : c.rest.length < n) (m : Nat) (read : List Nat) :
    Tracks e c 0 (readQuoted mark escapes n read c)
      (readQuoted mark escapes m read (c.within e)) := by
  induction n generalizing c m read with
  | zero => cases hn
  | succ n ih =>
      cases m with
      | zero => exact .fails _ _
      | succ m =>
          by_cases hne : c.rest = []
          · rcases readQuoted_of_spaced hmark escapes (m + 1) read (spaced_within_of_nil hne e)
              with ⟨fault, hfault⟩
            rw [hfault]
            exact .fails _ _
          · rcases List.exists_cons_of_ne_nil hne with ⟨x, rest, hrest⟩
            have hlong : (c.within e).rest = x :: (rest ++ e.back) := by
              rw [within, hrest]
              rfl
            have hone : 1 ≤ c.rest.length := List.length_pos_iff.mpr hne
            have hgo : ∀ (k : Nat) (more : List Nat), 1 ≤ k -> k ≤ c.rest.length ->
                Tracks e (c.skip k) 0 (readQuoted mark escapes n more (c.skip k))
                  (readQuoted mark escapes m more ((c.skip k).within e)) := by
              intro k more hk hlen
              refine ih (h.skip k) ?_ m more
              rw [rest_skip, List.length_drop]
              omega
            rw [readQuoted, readQuoted, hrest, hlong]
            dsimp only
            rw [e.head?_append_beq hmark]
            split
            · split
              · rename_i hmarks
                have htwo : 2 ≤ c.rest.length := by
                  rw [hrest]
                  cases rest with
                  | nil => simp at hmarks
                  | cons y more => simp
                rw [skip_within h e htwo]
                exact .of_skip htwo (Nat.zero_le _) (hgo 2 _ (by decide) htwo)
              · rw [next_within h e hne]
                exact .same _ 1 (Nat.zero_le 1) hone
            · split
              · by_cases hnext : c.next.rest = []
                · have hspaced : (c.within e).next.Spaced := by
                    rw [next_within h e hne]
                    exact spaced_within_of_nil hnext e
                  rcases readQuoted_behind_escape hspaced hmark escapes m read with
                    ⟨fault, hfault⟩
                  rw [hfault]
                  exact .fails _ _
                · exact (Tracks.bind (tracks_readEscape h e hne hnext) fun codes k hk hlen =>
                    hgo k _ hk hlen).weaken
              · split
                · rename_i hx
                  exact (Tracks.bind (tracks_readQuotedBlanks h e hrest hx) fun blanks k hk hlen =>
                    hgo k _ hk hlen).weaken
                · rw [next_within h e hne]
                  exact .of_skip hone (Nat.zero_le 1) (hgo 1 _ (Nat.le_refl 1) hone)

end

end Yaml
end TrafficGraph

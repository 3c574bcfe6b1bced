import TrafficGraph.Proofs.Yaml.Lexing

/-!
# Token streams of longer documents

A text with nothing but spacing behind it, and whole lines in front of it, has the tokens of
the longer document.  The invariant of the two readings is that the lexer of the longer one is
that of the shorter one at a place further on, until the latter is at the end of its text.
-/

namespace TrafficGraph
namespace Yaml

open Cursor

namespace Lexer

/-!
# Gaps
-/

theorem skipGap_succ (n : Nat) (s : Lexer) :
    skipGap (n + 1) s =
      match s.cursor.skipSpaces.skipComment.break? with
      | some (_, after) =>
        skipGap n { s with cursor := after, keyAllowed := s.keyAllowed || !s.inFlow }
      | none => s.moveTo s.cursor.skipSpaces.skipComment := rfl

theorem skipGap_eq (n : Nat) (s : Lexer) :
    ∃ c allowed, s.cursor.skipSpaces.skipComment.Reaches c ∧
      skipGap (n + 1) s = { s with cursor := c, keyAllowed := allowed } := by
  induction n generalizing s with
  | zero =>
      rw [skipGap_succ]
      split
      · rename_i x after hbreak
        exact ⟨after, _, .of_break? hbreak, rfl⟩
      · exact ⟨_, s.keyAllowed, .refl _, rfl⟩
  | succ n ih =>
      rw [skipGap_succ]
      split
      · rename_i x after hbreak
        rcases ih { s with cursor := after, keyAllowed := s.keyAllowed || !s.inFlow } with
          ⟨c, allowed, hreaches, heq⟩
        have hafter := (Reaches.gap after).trans hreaches
        exact ⟨c, allowed, (Reaches.of_break? hbreak).trans hafter, heq⟩
      · exact ⟨_, s.keyAllowed, .refl _, rfl⟩

theorem skipGap_of_nil {s : Lexer} (h : s.cursor.rest = []) (n : Nat) : skipGap n s = s := by
  cases n with
  | zero => rfl
  | succ n =>
      rcases exists_skip_of_gap s.cursor with ⟨k, hgap, _⟩
      rw [skipGap_succ, hgap, skip_of_nil h, break?_of_nil h]
      rfl

theorem reaches_skipGap (n : Nat) (s : Lexer) : s.cursor.Reaches (skipGap n s).cursor := by
  cases n with
  | zero => exact .refl _
  | succ n =>
      rcases skipGap_eq n s with ⟨c, allowed, hreaches, heq⟩
      rw [heq]
      exact (Reaches.gap s.cursor).trans hreaches

theorem keys_skipGap (n : Nat) (s : Lexer) : (skipGap n s).keys = s.keys := by
  cases n with
  | zero => rfl
  | succ n =>
      rcases skipGap_eq n s with ⟨c, allowed, _, heq⟩
      rw [heq]

theorem rest_skipGap_of_spaced {n : Nat} {s : Lexer}
    (h : s.cursor.skipSpaces.skipComment.Spaced) (hn : s.cursor.rest.length < n) :
    (skipGap n s).cursor.rest = [] := by
  induction n generalizing s with
  | zero => cases hn
  | succ n ih =>
      rcases exists_skip_of_gap s.cursor with ⟨k, hgap, hk⟩
      rw [skipGap_succ]
      split
      · rename_i x after hbreak
        rcases exists_skip_of_break? hbreak with ⟨j, rfl, hj, _⟩
        refine ih (h.of_reaches (.trans (.skip _ (j + 1)) (Reaches.gap _))) ?_
        · rw [hgap, rest_skip, List.length_drop] at hj
          rw [hgap, rest_skip, rest_skip, List.length_drop, List.length_drop]
          omega
      · rename_i hnone
        show s.cursor.skipSpaces.skipComment.rest = []
        cases hrest : s.cursor.skipSpaces.skipComment.rest with
        | nil => rfl
        | cons x more =>
            have hspace : x ≠ ' ' := by
              rintro rfl
              have hat := isAt_space_gap s.cursor
              rw [isAt, peek, hrest] at hat
              cases hat
            have hx : isSpacing x = true := h x (hrest ▸ List.mem_cons_self)
            rw [isSpacing, Bool.or_eq_true, beq_iff_eq] at hx
            exact absurd hnone (break?_ne_none_of_isBreak hrest (hx.resolve_left hspace))

/-- A gap is skipped alike, or the text ends with it. -/
theorem skipGap_within {n m : Nat} {s : Lexer} (h : s.cursor.Solid) (e : Setting)
    (hn : s.cursor.rest.length < n) (hm : (s.within e).cursor.rest.length < m) :
    (skipGap n s).cursor.rest ≠ [] ∧ (skipGap n s).cursor.Solid ∧
        skipGap m (s.within e) = (skipGap n s).within e ∨
      Ended e (skipGap n s) (skipGap m (s.within e)) ∧
        (skipGap m (s.within e)).cursor.rest = [] := by
  induction n generalizing s m with
  | zero => cases hn
  | succ n ih =>
      cases m with
      | zero => cases hm
      | succ m =>
          rcases gap_within h e with ⟨k, hk, hshort, hne, hlong⟩ | ⟨hshort, k, hk, hlong⟩
          · have hsolid := h.skip k
            change (s.within e).cursor.skipSpaces.skipComment = _ at hlong
            rw [skipGap_succ, skipGap_succ, hshort, hlong, break?_within hsolid e hne]
            cases hbreak : (s.cursor.skip k).break? with
            | none => exact Or.inl ⟨hne, hsolid, rfl⟩
            | some found =>
                rcases found with ⟨x, after⟩
                rcases exists_skip_of_break? hbreak with ⟨j, rfl, hj, _⟩
                rw [rest_skip, List.length_drop] at hj
                have hless : ((s.cursor.skip k).skip (j + 1)).rest.length =
                    s.cursor.rest.length - k - (j + 1) := by
                  rw [rest_skip, rest_skip, List.length_drop, List.length_drop]
                have hlong : (s.within e).cursor.rest.length =
                    s.cursor.rest.length + e.back.length := List.length_append
                refine ih
                  (s := { s with cursor := (s.cursor.skip k).skip (j + 1), keyAllowed := _ })
                  (hsolid.skip (j + 1)) (hless.trans_lt (by omega)) ?_
                show (((s.cursor.skip k).skip (j + 1)).rest ++ e.back).length < m
                rw [List.length_append]
                omega
          · right
            have hnil : (s.cursor.skip s.cursor.rest.length).rest = [] := by
              rw [rest_skip, List.drop_length]
            have hend : skipGap (n + 1) s = s.moveTo (s.cursor.skip s.cursor.rest.length) := by
              rw [skipGap_succ, hshort, break?_of_nil hnil]
            rcases skipGap_eq m (s.within e) with ⟨c, allowed, hreaches, hlongEnd⟩
            change (s.within e).cursor.skipSpaces.skipComment = _ at hlong
            have hspaced : (s.within e).cursor.skipSpaces.skipComment.Spaced := by
              rw [hlong]
              exact (Ended.of_skip h hk s).spaced
            refine ⟨?_, rest_skipGap_of_spaced hspaced hm⟩
            rw [hlong] at hreaches
            rw [hend, hlongEnd]
            exact ((Ended.of_skip h hk s).moveTo hreaches).allow s.keyAllowed allowed

/-!
# The end
-/

def runOn (n : Nat) (s : Lexer) : List Token × Option Fault :=
  match s.dropStale with
  | .error fault => (s.tokens.reverse, some fault)
  | .ok s =>
    let s := s.unwindTo (s.cursor.column : Int)
    match s.cursor.rest with
    | [] =>
      match s.leave with
      | .error fault => (s.tokens.reverse, some fault)
      | .ok s => ((s.push .streamEnd).tokens.reverse, none)
    | x :: _ =>
      match s.readToken x with
      | .error fault => (s.tokens.reverse, some fault)
      | .ok s => run n s

theorem run_succ (n : Nat) (s : Lexer) : run (n + 1) s = runOn n (skipGap s.cursor.fuel s) := rfl

/-- The stream ends well if no key that is required is missing. -/
def NoneMissing (s : Lexer) : Prop :=
  ∀ k ∈ s.keys, k.required = true -> s.isStale k = false ∧ (k.depth == s.depth) = false

theorem runOn_of_nil {n : Nat} {s : Lexer} {ts : List Token} (h : s.cursor.rest = []) :
    runOn n s = (ts, none) ↔
      s.NoneMissing ∧ ts = (.streamEnd :: (s.unwindTo (-1)).tokens).reverse := by
  unfold runOn
  cases hstale : s.dropStale with
  | error fault =>
      constructor
      · intro hrun
        cases hrun
      · rintro ⟨hnone, _⟩
        have hok := (dropWhere_eq_ok_iff (s := s) (p := s.isStale)).mpr
          ⟨fun k hk hrequired => (hnone k hk hrequired).1, rfl⟩
        rw [dropStale_eq, hok] at hstale
        cases hstale
  | ok t =>
      rw [dropStale_eq, dropWhere_eq_ok_iff] at hstale
      rcases hstale with ⟨hfresh, rfl⟩
      generalize ht : ({ s with keys := s.keys.filter fun k => !s.isStale k } : Lexer) = t
      have hcursor : t.cursor = s.cursor := by rw [← ht]
      rcases t.unwindTo_keeps (t.cursor.column : Int) with ⟨hplace, _, _, _⟩
      rcases t.unwindTo_keeps (-1) with ⟨_, hkeys, hdepth, _⟩
      have htokens : (t.unwindTo (-1)).tokens = (s.unwindTo (-1)).tokens :=
        tokens_unwindTo_congr (-1) (by rw [← ht]) (by rw [← ht]) (by rw [← ht]) (by rw [← ht])
      have hnone : s.NoneMissing ↔
          ∀ k ∈ (t.unwindTo (-1)).keys, k.required = true ->
            (k.depth == (t.unwindTo (-1)).depth) = false := by
        rw [hkeys, hdepth, ← ht]
        constructor
        · intro hall k hk hrequired
          exact (hall k (List.mem_filter.mp hk).1 hrequired).2
        · intro hall k hk hrequired
          have hstale := hfresh k hk hrequired
          exact ⟨hstale, hall k (List.mem_filter.mpr ⟨hk, by rw [hstale]; rfl⟩) hrequired⟩
      dsimp only
      rw [hplace, hcursor, h]
      dsimp only
      rw [leave, ← hcursor, unwindTo_unwindTo (by omega), dropKey_eq, hnone, ← htokens]
      cases hdrop : (t.unwindTo (-1)).dropWhere fun k => k.depth == (t.unwindTo (-1)).depth with
      | error fault =>
          constructor
          · intro hrun
            cases hrun
          · rintro ⟨hall, _⟩
            rw [dropWhere_eq_ok_iff.mpr ⟨hall, rfl⟩] at hdrop
            cases hdrop
      | ok u =>
          rw [dropWhere_eq_ok_iff] at hdrop
          rcases hdrop with ⟨hall, rfl⟩
          constructor
          · intro hrun
            cases hrun
            exact ⟨hall, rfl⟩
          · rintro ⟨_, rfl⟩
            rfl

/-- Whether no key is noted on a line further down. -/
def Timely (s : Lexer) : Prop := ∀ k ∈ s.keys, k.line ≤ s.cursor.line

theorem runOn_of_ended {e : Setting} {s t : Lexer} (h : Ended e s t) (hs : s.Timely)
    (ht : t.cursor.rest = []) {n m : Nat} {ts : List Token} (hrun : runOn m t = (ts, none)) :
    runOn n s = (ts, none) := by
  rw [runOn_of_nil ht] at hrun
  rw [runOn_of_nil h.rest]
  rcases hrun with ⟨hnone, rfl⟩
  refine ⟨fun k hk hrequired => ?_, ?_⟩
  · have hlong := hnone (k.within e) (h.keys ▸ List.mem_map_of_mem hk) hrequired
    have hline := hs k hk
    have hend := h.line
    have hindex := h.index
    rw [h.depth, isStale_eq_false_iff] at hlong
    rw [isStale_eq_false_iff]
    dsimp only [KeyStart.within] at hlong
    exact ⟨by omega, hlong.2⟩
  · rw [tokens_unwindTo_congr (-1) h.tokens h.depth h.indent h.outer]

/-!
# Runs
-/

def endsInBlock : Nat → Lexer → Bool
  | 0, _ => false
  | fuel + 1, s =>
    match (skipGap s.cursor.fuel s).dropStale with
    | .error _ => false
    | .ok s =>
      let s := s.unwindTo (s.cursor.column : Int)
      match s.cursor.rest with
      | [] => false
      | x :: _ =>
        s.endsWithBlock ||
          match s.readToken x with
          | .error _ => false
          | .ok s => endsInBlock fuel s

theorem Timely.of_reaches {s : Lexer} (h : s.Timely) {t : Lexer}
    (hkeys : ∀ k ∈ t.keys, k ∈ s.keys ∨ k.line = s.cursor.line)
    (hreaches : s.cursor.Reaches t.cursor) : t.Timely := by
  intro k hk
  rcases hkeys k hk with hold | hline
  · exact Nat.le_trans (h k hold) hreaches.line_le
  · exact hline.trans_le hreaches.line_le

theorem Timely.skipGap {s : Lexer} (h : s.Timely) (n : Nat) : (skipGap n s).Timely := by
  refine h.of_reaches (fun k hk => ?_) (reaches_skipGap n s)
  rw [keys_skipGap] at hk
  exact Or.inl hk

theorem Ended.skipGap {e : Setting} {s t : Lexer} (h : Ended e s t) (n : Nat) :
    Ended e s (skipGap n t) := by
  cases n with
  | zero => exact h
  | succ n =>
      rcases skipGap_eq n t with ⟨c, allowed, hreaches, heq⟩
      rw [heq]
      exact (h.moveTo ((Reaches.gap t.cursor).trans hreaches)).allow s.keyAllowed allowed

theorem run_of_ended {e : Setting} {s t : Lexer} (h : Ended e s t) (hs : s.Timely) {n m : Nat}
    (hn : 0 < n) {ts : List Token} (hrun : run m t = (ts, none)) : run n s = (ts, none) := by
  cases m with
  | zero => cases hrun
  | succ m =>
      cases n with
      | zero => cases hn
      | succ n =>
          have hspaced := h.spaced.of_reaches (Reaches.gap t.cursor)
          rw [run_succ] at hrun
          rw [run_succ, skipGap_of_nil h.rest]
          exact runOn_of_ended (h.skipGap t.cursor.fuel) hs
            (rest_skipGap_of_spaced hspaced (Nat.lt_add_of_pos_right (by decide))) hrun

theorem unwindTo_of_dropStale {s t : Lexer} (h : s.dropStale = .ok t) (column : Int) :
    (t.unwindTo column).cursor = s.cursor ∧ ∀ k ∈ (t.unwindTo column).keys, k ∈ s.keys := by
  rw [dropStale_eq, dropWhere_eq_ok_iff] at h
  rcases t.unwindTo_keeps column with ⟨hcursor, hkeys, _⟩
  rw [hcursor, hkeys, h.2]
  exact ⟨rfl, fun k hk => (List.mem_filter.mp hk).1⟩

/-- If the longer document is read to a good end, the text is read to the same end. -/
theorem run_within {n : Nat} {s : Lexer} (h : s.cursor.Solid) (htimely : s.Timely) (e : Setting)
    (hn : s.cursor.rest.length < n) (hblock : endsInBlock n s = false) {m i : Nat}
    (hi : (s.within e).cursor.rest.length < i) {ts : List Token}
    (hrun : runOn m (skipGap i (s.within e)) = (ts, none)) : run n s = (ts, none) := by
  induction n generalizing s m i with
  | zero => cases hn
  | succ n ih =>
      rw [run_succ]
      rw [endsInBlock] at hblock
      have hgap := htimely.skipGap s.cursor.fuel
      have hfuel : s.cursor.rest.length < s.cursor.fuel := Nat.lt_add_of_pos_right (by decide)
      rcases skipGap_within h e hfuel hi with ⟨hne, hsolid, heq⟩ | ⟨hended, hnil⟩
      · rw [heq] at hrun
        have hlength := (reaches_skipGap s.cursor.fuel s).length_le
        generalize skipGap s.cursor.fuel s = u at *
        unfold runOn at hrun ⊢
        rw [dropStale_within] at hrun
        cases hstale : u.dropStale with
        | error fault =>
            rw [hstale] at hrun
            cases hrun
        | ok v =>
            rw [hstale] at hrun hblock
            dsimp only [Except.map] at hrun hblock ⊢
            rcases unwindTo_of_dropStale hstale (v.cursor.column : Int) with ⟨hcursor, hkeys⟩
            have hcolumn : (v.within e).cursor.column = v.cursor.column := rfl
            rw [hcolumn, unwindTo_within] at hrun
            generalize v.unwindTo (v.cursor.column : Int) = w at *
            rcases List.exists_cons_of_ne_nil hne with ⟨x, more, hrest⟩
            rw [← hcursor] at hrest
            have hlong : (w.within e).cursor.rest = x :: (more ++ e.back) := by
              show w.cursor.rest ++ e.back = _
              rw [hrest]
              rfl
            rw [hrest] at hblock ⊢
            rw [hlong] at hrun
            dsimp only at hblock hrun ⊢
            rw [Bool.or_eq_false_iff] at hblock
            have hmoves := moves_readToken (hcursor ▸ hsolid) e
              (hrest ▸ List.cons_ne_nil x more) hrest hblock.1
            have hnext := hblock.2
            have hw : w.Timely := by
              intro k hk
              rw [hcursor]
              exact hgap k (hkeys k hk)
            generalize w.readToken x = short at hmoves hnext ⊢
            generalize (w.within e).readToken x = long at hmoves hrun
            cases hmoves with
            | fails fault => cases hrun
            | same t k hk hlen hplace hkeys =>
                cases m with
                | zero => cases hrun
                | succ m =>
                    have hless : t.cursor.rest.length = w.cursor.rest.length - k := by
                      rw [hplace, rest_skip, List.length_drop]
                    have hsmall : t.cursor.rest.length < n := by
                      rw [hcursor] at hless hlen
                      omega
                    rw [hcursor] at hplace
                    refine ih (hplace ▸ hsolid.skip k) (hw.of_reaches hkeys ⟨k, ?_⟩) hsmall hnext
                      (Nat.lt_add_of_pos_right (by decide)) hrun
                    rw [hplace, hcursor]
            | ends t t' hended hreaches hkeys =>
                have hpos : 0 < u.cursor.rest.length := List.length_pos_iff.mpr hne
                exact run_of_ended hended (hw.of_reaches hkeys hreaches) (by omega) hrun
      · exact runOn_of_ended hended hgap hnil hrun

/-!
# Lines in front
-/

def fresh (c : Cursor) : Lexer :=
  { cursor := c, tokens := [], depth := 0, indent := -1, outer := [], keyAllowed := true,
    keys := [] }

theorem start_eq (cs : List Char) :
    start cs =
      fresh (if (Cursor.start cs).isAt '\uFEFF' then (Cursor.start cs).next else Cursor.start cs) :=
  rfl

theorem fresh_within (c : Cursor) (e : Setting) : (fresh c).within e = fresh (c.within e) := rfl

theorem timely_fresh (c : Cursor) : (fresh c).Timely := by
  intro k hk
  cases hk

theorem exists_break?_of_blankLine {front text : List Char} {c : Cursor}
    (hrest : c.rest = front ++ text) (hne : front ≠ [])
    (hfront : ∀ x ∈ front, isSpacing x = true) (hend : ∀ x ∈ front.getLast?, isBreak x = true)
    (htext : text.head? ≠ some '\n') :
    ∃ x d later, c.skipSpaces.skipComment.break? = some (x, d) ∧ d.rest = later ++ text ∧
      later <:+ front ∧ later.length < front.length := by
  have hdrop : front.dropWhile (· == ' ') ≠ [] := by
    rw [Ne, List.dropWhile_eq_nil_iff]
    intro hall
    have hspace := hall _ (List.getLast_mem hne)
    have hbreak := hend _ (List.getLast?_eq_some_getLast hne)
    rw [eq_of_beq hspace] at hbreak
    cases hbreak
  rcases List.exists_cons_of_ne_nil hdrop with ⟨y, later, hy⟩
  have hsuffix : y :: later <:+ front := hy ▸ List.dropWhile_suffix _
  have hbreak : isBreak y = true := by
    have hspacing := hfront y (hsuffix.subset List.mem_cons_self)
    have hspace := List.head_dropWhile_not (· == ' ') hdrop
    simp only [hy, List.head_cons] at hspace
    rwa [isSpacing, hspace, Bool.false_or] at hspacing
  have hspaces : c.skipSpaces.rest = y :: (later ++ text) := by
    rw [skipSpaces, rest_skipWhile, hrest, List.dropWhile_append, hy]
    rfl
  have hcomment : c.skipSpaces.skipComment = c.skipSpaces := by
    rw [skipComment, if_neg]
    intro hat
    rw [isAt, peek, hspaces, List.getElem?_cons_zero] at hat
    cases eq_of_beq hat
    cases hbreak
  rw [hcomment]
  rcases exists_break?_of_isBreak hspaces hbreak with ⟨x, d, hfound, hafter⟩
  have hlater : later <:+ front := (List.suffix_cons y later).trans hsuffix
  rcases hafter with hafter | ⟨hhead, hafter⟩
  · exact ⟨x, d, later, hfound, hafter, hlater, hsuffix.length_le⟩
  · cases later with
    | nil => exact absurd hhead htext
    | cons z more =>
        have hmore : more <:+ z :: more := List.suffix_cons z more
        exact ⟨x, d, more, hfound, hafter, hmore.trans hlater,
          Nat.lt_of_le_of_lt hmore.length_le hsuffix.length_le⟩

theorem skipGap_fresh {front text : List Char} {c : Cursor} (hrest : c.rest = front ++ text)
    (hfront : ∀ x ∈ front, isSpacing x = true) (hend : ∀ x ∈ front.getLast?, isBreak x = true)
    (htext : text.head? ≠ some '\n') (hcolumn : c.column = 0) {n : Nat} (hn : front.length < n) :
    ∃ d m, d.rest = text ∧ d.column = 0 ∧ n ≤ m + front.length ∧
      skipGap n (fresh c) = skipGap m (fresh d) := by
  induction n generalizing front c with
  | zero => cases hn
  | succ n ih =>
      by_cases hempty : front = []
      · rw [hempty] at hrest
        exact ⟨c, n + 1, hrest, hcolumn, Nat.le_add_right _ _, rfl⟩
      · rcases exists_break?_of_blankLine hrest hempty hfront hend htext with
          ⟨x, d, later, hfound, hd, ⟨before, hbefore⟩, hshorter⟩
        have hlater : ∀ y ∈ later, isSpacing y = true := by
          intro y hy
          exact hfront y (hbefore ▸ List.mem_append_right before hy)
        have hlast : ∀ y ∈ later.getLast?, isBreak y = true := by
          intro y hy
          refine hend y ?_
          rw [← hbefore, List.getLast?_append, hy]
          rfl
        rcases ih hd hlater hlast (column_of_break? hfound) (by omega) with
          ⟨f, m, hf, hfcolumn, hm, heq⟩
        have hstep : skipGap (n + 1) (fresh c) = skipGap n (fresh d) := by
          rw [skipGap_succ]
          show (match c.skipSpaces.skipComment.break? with
            | some (_, after) => skipGap n (fresh after)
            | none => (fresh c).moveTo c.skipSpaces.skipComment) = _
          rw [hfound]
        exact ⟨f, m, hf, hfcolumn, by omega, hstep.trans heq⟩

theorem start_of_not_isAt {cs : List Char} (h : cs.head? ≠ some '\uFEFF') :
    start cs = fresh (Cursor.start cs) := by
  rw [start_eq, if_neg]
  intro hat
  refine h ?_
  rw [List.head?_eq_getElem?]
  exact eq_of_beq hat

theorem start_append {cs : List Char} (h : (Cursor.start cs).Solid) (e : Setting)
    (hlines : e.lines = 0) (hindex : e.index = 0) :
    start (cs ++ e.back) = (start cs).within e := by
  have hcursor : Cursor.start (cs ++ e.back) = (Cursor.start cs).within e := by
    rw [Cursor.within, hlines, hindex]
    rfl
  rw [start_eq, start_eq, hcursor, isAt_within _ e (by decide), fresh_within]
  split
  · rename_i hat
    rw [next_within h e (ne_nil_of_isAt hat)]
  · rfl

theorem reaches_start (cs : List Char) : (Cursor.start cs).Reaches (start cs).cursor := by
  rw [start_eq]
  show (Cursor.start cs).Reaches (if _ then _ else _)
  split
  · exact .skip _ 1
  · exact .refl _

end Lexer

/-!
# Whole texts
-/

/-- Whether a text ends in a block scalar. -/
def endsInBlockScalar (cs : List Char) : Bool :=
  Lexer.endsInBlock (cs.length + 2) (Lexer.start cs)

/-- A text in a longer document, in which blank lines may stand in front of it and spacing
behind it.  It does not end in a block scalar. -/
structure Framed (before text after : List Char) : Prop where
  spacingBefore : ∀ x ∈ before, isSpacing x = true
  wholeLines : ∀ x ∈ before.getLast?, isBreak x = true
  first : before = [] ∨ ∃ x more, text = x :: more ∧ Text.isBlank x = false ∧ x ≠ '\uFEFF'
  last : ∀ x ∈ text.getLast?, Text.isBlank x = false
  spacingAfter : ∀ x ∈ after, isSpacing x = true
  noBlock : endsInBlockScalar text = false

section

variable {before text after : List Char} (h : Framed before text after)

include h

theorem exists_runOn_of_framed {n : Nat} {ts : List Token}
    (hrun : Lexer.run n (Lexer.start (before ++ (text ++ after))) = (ts, none)) :
    ∃ (e : Setting) (m i : Nat), ((Lexer.start text).within e).cursor.rest.length < i ∧
      Lexer.runOn m (Lexer.skipGap i ((Lexer.start text).within e)) = (ts, none) := by
  cases n with
  | zero => cases hrun
  | succ n =>
      rw [Lexer.run_succ] at hrun
      rcases h.first with hbefore | ⟨x, more, htext, hx, hmark⟩
      · let e : Setting := ⟨0, 0, after, h.spacingAfter⟩
        have hafter : Lexer.start (text ++ after) = (Lexer.start text).within e :=
          Lexer.start_append h.last e rfl rfl
        rw [hbefore, List.nil_append, hafter] at hrun
        exact ⟨e, _, _, Nat.lt_add_of_pos_right (by decide), hrun⟩
      · have hhead : (before ++ (text ++ after)).head? ≠ some '\uFEFF' := by
          cases hbefore : before with
          | nil =>
              rw [htext]
              simpa using hmark
          | cons y rest =>
              have hy := h.spacingBefore y (hbefore ▸ List.mem_cons_self)
              simpa using ne_of_isSpacing hy (by decide)
        have hnewline : (text ++ after).head? ≠ some '\n' := by
          rw [htext]
          intro hhead
          cases hhead
          cases hx
        have hstart : Lexer.start text = Lexer.fresh (Cursor.start text) := by
          apply Lexer.start_of_not_isAt
          rw [htext]
          simpa using hmark
        rw [Lexer.start_of_not_isAt hhead] at hrun
        rcases Lexer.skipGap_fresh (c := Cursor.start (before ++ (text ++ after))) rfl
          h.spacingBefore h.wholeLines hnewline rfl
          (n := (Cursor.start (before ++ (text ++ after))).fuel)
          (by simp [Cursor.start, fuel]; omega) with ⟨d, i, hd, hcolumn, hi, heq⟩
        let e : Setting := ⟨d.line, d.index, after, h.spacingAfter⟩
        have hplace : d = (Cursor.start text).within e := by
          rcases d with ⟨rest, line, column, index⟩
          dsimp only at hd hcolumn
          rw [hd, hcolumn, Cursor.within, Cursor.start, Nat.zero_add, Nat.zero_add]
        change Lexer.runOn _ (Lexer.skipGap (Cursor.start _).fuel (Lexer.fresh _)) = _ at hrun
        rw [heq, hplace] at hrun
        rw [hstart]
        refine ⟨e, _, i, ?_, hrun⟩
        show (text ++ after).length < i
        simp only [Cursor.start, fuel, List.length_append] at hi ⊢
        omega

/-- The tokens of the text are those of the longer document. -/
theorem tokens_of_framed {ts : List Token}
    (htokens : tokens (before ++ (text ++ after)) = (ts, none)) : tokens text = (ts, none) := by
  have hreaches := Lexer.reaches_start text
  have hsolid : (Lexer.start text).cursor.Solid := by
    have hcursor : (Cursor.start text).Solid := h.last
    rcases hreaches with ⟨n, hn⟩
    exact hn ▸ hcursor.skip n
  have hlength : (Lexer.start text).cursor.rest.length < text.length + 2 :=
    Nat.lt_of_le_of_lt hreaches.length_le (Nat.lt_add_of_pos_right (by decide))
  unfold tokens at htokens ⊢
  split at htokens
  · rename_i hallowed
    rw [List.all_append, List.all_append, Bool.and_eq_true, Bool.and_eq_true] at hallowed
    rcases exists_runOn_of_framed h htokens with ⟨e, m, i, hi, hrun⟩
    rw [if_pos hallowed.2.1]
    exact Lexer.run_within hsolid (Lexer.timely_fresh _) e hlength h.noBlock hi hrun
  · cases htokens

end

end Yaml
end TrafficGraph

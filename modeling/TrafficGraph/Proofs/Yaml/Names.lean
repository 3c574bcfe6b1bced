import TrafficGraph.Proofs.Yaml.Reading
import TrafficGraph.Yaml.Token.Name

/-!
# Names, tags and directives in a longer document

The names of anchors and the tags take no white space.  A directive takes its line to the
end, but the version or the handle that it states is read like a name.
-/

namespace TrafficGraph
namespace Yaml

open Cursor

/-!
# Characters of names
-/

theorem not_isNameChar_of_isSpacing {x : Char} (h : isSpacing x = true) :
    isNameChar x = false := by
  rcases isSpacing_cases h with rfl | rfl | rfl | rfl | rfl | rfl <;> decide

theorem not_isUriChar_of_isSpacing {x : Char} (h : isSpacing x = true) : isUriChar x = false := by
  rcases isSpacing_cases h with rfl | rfl | rfl | rfl | rfl | rfl <;> decide

theorem hexValue?_of_isSpacing {x : Char} (h : isSpacing x = true) :
    Text.hexValue? x = none := by
  rcases isSpacing_cases h with rfl | rfl | rfl | rfl | rfl | rfl <;> decide

theorem endsAnchor_peek_within (c : Cursor) (e : Setting) (k : Nat) :
    endsAnchor ((c.within e).peek k) = endsAnchor (c.peek k) := by
  rcases c.peek_within e k with heq | ⟨hnone, x, hx, hspacing⟩
  · rw [heq]
  · rw [hnone, hx, endsAnchor, endsWord_of_isSpacing hspacing]
    rfl

/-!
# Names
-/

theorem bind_hexValue?_peek_within (c : Cursor) (e : Setting) (k : Nat) :
    ((c.within e).peek k).bind Text.hexValue? = (c.peek k).bind Text.hexValue? := by
  rcases c.peek_within e k with heq | ⟨hnone, x, hx, hspacing⟩
  · rw [heq]
  · rw [hnone, hx]
    exact hexValue?_of_isSpacing hspacing

theorem readBytes_of_not_isAt {c : Cursor} (h : c.isAt '%' = false) (n : Nat)
    (read : List UInt8) : readBytes (n + 1) read c = .ok (read.reverse, c) := by
  rw [readBytes]
  split
  · rename_i hrest
    simp [isAt, peek, hrest] at h
  · rename_i hrest
    simp [isAt, peek, hrest] at h
  · rfl

theorem readBytes_of_isAt {c : Cursor} (h : c.isAt '%' = true) (n : Nat) (read : List UInt8) :
    readBytes (n + 1) read c =
      match (c.peek 1).bind Text.hexValue?, (c.peek 2).bind Text.hexValue? with
      | some x, some y => readBytes n (UInt8.ofNat (x * 16 + y) :: read) (c.skip 3)
      | _, _ => .error .invalid := by
  rw [readBytes]
  have hhead : c.rest.head? = some '%' := by
    rw [List.head?_eq_getElem?]
    exact eq_of_beq h
  rw [peek, peek]
  rcases hrest : c.rest with _ | ⟨x, _ | ⟨a, _ | ⟨b, rest⟩⟩⟩ <;> rw [hrest] at hhead <;> cases hhead
  · rfl
  · simp
  · rfl

theorem wordHasBang_append (e : Setting) (xs : List Char) :
    wordHasBang (xs ++ e.back) = wordHasBang xs := by
  induction xs with
  | nil =>
      rw [List.nil_append]
      cases hback : e.back with
      | nil => rfl
      | cons x rest =>
          have hx : isSpacing x = true := e.spacing x (hback ▸ List.mem_cons_self)
          have hne : x ≠ '!' := ne_of_isSpacing hx (by decide)
          show (x == '!' || (!endsName (some x) && wordHasBang rest)) = false
          rw [endsName_some, hx]
          simp [hne]
  | cons x rest ih => rw [List.cons_append, wordHasBang, wordHasBang, ih]

section

variable {c : Cursor} (h : c.Solid) (e : Setting)

include h

theorem tracks_readName : Tracks e c 1 (readName c) (readName (c.within e)) := by
  unfold readName
  rw [span_within_of_text h e fun _ => not_isNameChar_of_isSpacing]
  simp only
  split
  · exact .fails _ _
  · rename_i hname
    refine .same _ (c.rest.takeWhile isNameChar).length ?_ (c.length_takeWhile_le _)
    rw [List.isEmpty_iff] at hname
    exact List.length_pos_iff.mpr hname

theorem tracks_readAnchor (hne : c.rest ≠ []) :
    Tracks e c 1 (readAnchor c) (readAnchor (c.within e)) := by
  unfold readAnchor
  rw [next_within h e hne]
  have hone : 1 ≤ c.rest.length := List.length_pos_iff.mpr hne
  refine .of_skip hone (Nat.le_refl 1) (.bind (tracks_readName h.next e).weaken ?_)
  intro name n _ _
  simp only [endsAnchor_peek_within]
  split
  · exact .refl name
  · exact .fails _ _

/-!
# Tags

Both readings of a loop get as much fuel as they can use, which is more in the longer text.
-/

theorem tracks_readBytes {n m : Nat} (hn : c.rest.length < n) (hm : c.rest.length < m)
    (read : List UInt8) :
    Tracks e c (if c.isAt '%' then 1 else 0) (readBytes n read c)
      (readBytes m read (c.within e)) := by
  induction n generalizing c m read with
  | zero => cases hn
  | succ n ih =>
      cases m with
      | zero => cases hm
      | succ m =>
          have hlong : (c.within e).isAt '%' = c.isAt '%' := c.isAt_within e (by decide)
          cases hat : c.isAt '%' with
          | false =>
              rw [readBytes_of_not_isAt hat, readBytes_of_not_isAt (hlong.trans hat)]
              exact .refl _
          | true =>
              rw [readBytes_of_isAt hat, readBytes_of_isAt (hlong.trans hat),
                bind_hexValue?_peek_within, bind_hexValue?_peek_within, if_pos rfl]
              split
              · rename_i x y hx hy
                have hthree : 3 ≤ c.rest.length := by
                  cases hpeek : c.peek 2 with
                  | none => rw [hpeek] at hy; cases hy
                  | some b => exact List.getElem?_eq_some_iff.mp hpeek |>.1
                have hlen : (c.skip 3).rest.length < n := by
                  rw [rest_skip, List.length_drop]
                  omega
                have hlen' : (c.skip 3).rest.length < m := by
                  rw [rest_skip, List.length_drop]
                  omega
                rw [skip_within h e hthree]
                exact .of_skip hthree (by omega) (ih (h.skip 3) hlen hlen' _).weaken
              · exact .fails _ _

theorem tracks_readUriChars {n m : Nat} (hn : c.rest.length < n) (hm : c.rest.length < m)
    (read : List Char) :
    Tracks e c 0 (readUriChars n read c) (readUriChars m read (c.within e)) := by
  induction n generalizing c m read with
  | zero => cases hn
  | succ n ih =>
      cases m with
      | zero => cases hm
      | succ m =>
          have hgo : ∀ (k : Nat) (more : List Char), 1 ≤ k -> k ≤ c.rest.length ->
              Tracks e (c.skip k) 0 (readUriChars n more (c.skip k))
                (readUriChars m more ((c.skip k).within e)) := by
            intro k more hone hk
            apply ih (h.skip k)
            · rw [rest_skip, List.length_drop]
              omega
            · rw [rest_skip, List.length_drop]
              omega
          rw [readUriChars, readUriChars, c.isAt_within e (by decide)]
          split
          · rename_i hat
            have hbytes := tracks_readBytes h e (n := c.fuel) (m := (c.within e).fuel)
              (by unfold fuel; omega) (by unfold fuel within; simp; omega) []
            rw [if_pos hat] at hbytes
            refine (Tracks.bind hbytes ?_).weaken
            intro bytes k hone hk
            simp only
            split
            · exact hgo k _ hone hk
            · exact .fails _ _
          · rw [span_within_of_text h e fun _ => not_isUriChar_of_isSpacing]
            simp only
            split
            · exact .refl read
            · rename_i hrun
              have hone : 1 ≤ (c.rest.takeWhile isUriChar).length := by
                rw [List.isEmpty_iff] at hrun
                exact List.length_pos_iff.mpr hrun
              exact .of_skip (c.length_takeWhile_le _) (Nat.zero_le _)
                (hgo _ _ hone (c.length_takeWhile_le _))

theorem tracks_readUri : Tracks e c 1 (readUri c) (readUri (c.within e)) := by
  have hread := tracks_readUriChars h e (n := c.fuel) (m := (c.within e).fuel) (by
    unfold fuel; omega) (by unfold fuel within; simp; omega) []
  unfold readUri
  generalize readUriChars c.fuel [] c = short at hread ⊢
  generalize readUriChars (c.within e).fuel [] (c.within e) = long at hread ⊢
  cases hread with
  | fails fault => exact .fails _ _
  | same cs n _ hn =>
      have hindex := index_skip hn
      have hlong : ((c.skip n).within e).index = (c.within e).index ↔ n = 0 := by
        simp only [within]
        omega
      have hshort : (c.skip n).index = c.index ↔ n = 0 := by omega
      show Tracks e c 1 (if (c.skip n).index = c.index then _ else _)
        (if ((c.skip n).within e).index = (c.within e).index then _ else _)
      simp only [hlong, hshort]
      split
      · exact .fails _ _
      · exact .same _ n (by omega) hn

theorem tracks_readHandle (hnext : c.next.rest ≠ []) :
    Tracks e c 1 (readHandle c) (readHandle (c.within e)) := by
  have hpos := List.length_pos_iff.mpr hnext
  rw [rest_next, List.length_drop] at hpos
  have hne : c.rest ≠ [] := List.length_pos_iff.mp (by omega)
  have hrun := c.next.length_takeWhile_le isNameChar
  have hspan := span_within_of_text h.next e fun _ => not_isNameChar_of_isSpacing
  have hbang : isSpacing '!' = false := by decide
  rw [rest_next, List.length_drop] at hrun
  unfold readHandle
  rw [next_within h e hne, hspan, span_eq]
  simp only
  generalize hname : c.next.rest.takeWhile isNameChar = name
  rw [rest_next] at hname
  rw [hname] at hrun
  by_cases hat : c.isAt '!' = true
  · rw [if_pos hat, if_pos ((c.isAt_within e hbang).trans hat)]
    by_cases hend : (c.next.skip name.length).isAt '!' = true
    · rw [if_pos hend, if_pos ((isAt_within _ e hbang).trans hend),
        next_within (h.next.skip _) e (ne_nil_of_isAt hend)]
      have hrest := List.length_pos_iff.mpr (ne_nil_of_isAt hend)
      rw [rest_skip, rest_next, List.length_drop, List.length_drop] at hrest
      rw [← skip_one, ← skip_add, ← skip_one, ← skip_add]
      exact .same _ _ (by omega) (by omega)
    · rw [if_neg hend, if_neg (mt (isAt_within _ e hbang).symm.trans hend)]
      cases name with
      | nil =>
          -- the name is empty, so the text behind the mark decides
          simp only [List.length_nil, skip, isAt_within_of_ne _ e hnext]
          split
          · exact .same _ 1 (Nat.le_refl 1) (by omega)
          · exact .fails _ _
      | cons x more => exact .fails _ _
  · rw [if_neg (mt (c.isAt_within e hbang).symm.trans hat)]
    exact .fails _ _

theorem tracks_handle {short long : Except Fault (String × Cursor)}
    (htracks : Tracks e c 1 short long) :
    Tracks e c 1
      (do let (handle, after) ← short
          let (uri, after) ← readUri after
          return ((some handle, uri), after))
      (do let (handle, after) ← long
          let (uri, after) ← readUri after
          return ((some handle, uri), after)) := by
  refine .bind htracks fun handle n _ _ => ?_
  exact .bind (tracks_readUri (h.skip n) e).weaken fun uri k _ _ => .refl _

theorem tracks_readTagParts (hne : c.rest ≠ []) :
    Tracks e c 1 (readTagParts c) (readTagParts (c.within e)) := by
  have hone : 1 ≤ c.rest.length := List.length_pos_iff.mpr hne
  unfold readTagParts
  rw [peek_within_beq c e (by decide), endsWord_peek_within]
  split
  · rename_i hangle
    have htwo : 2 ≤ c.rest.length :=
      (List.getElem?_eq_some_iff.mp (eq_of_beq hangle)).1
    rw [skip_within h e htwo]
    refine .of_skip htwo (by omega) (.bind (tracks_readUri (h.skip 2) e).weaken ?_)
    intro uri n _ hn
    simp only [isAt_within _ e (show isSpacing '>' = false by decide)]
    split
    · rename_i hat
      rw [next_within ((h.skip 2).skip n) e (ne_nil_of_isAt hat)]
      exact .same _ 1 (Nat.zero_le 1) (List.length_pos_iff.mpr (ne_nil_of_isAt hat))
    · exact .fails _ _
  · split
    · rw [next_within h e hne]
      exact .same _ 1 (Nat.le_refl 1) hone
    · rename_i hword
      have hnext : c.next.rest ≠ [] := by
        intro hnil
        have hpeek : c.peek 1 = none := by
          rw [rest_next] at hnil
          rw [peek, List.getElem?_eq_none (List.drop_eq_nil_iff.mp hnil)]
        rw [hpeek] at hword
        exact hword rfl
      have hdrop : (c.within e).rest.drop 1 = c.rest.drop 1 ++ e.back :=
        List.drop_append_of_le_length hone
      rw [hdrop, wordHasBang_append]
      by_cases hbang : wordHasBang (c.rest.drop 1) = true
      · simp only [if_pos hbang]
        exact tracks_handle h e (tracks_readHandle h e hnext)
      · simp only [if_neg hbang, next_within h e hne]
        exact tracks_handle h e (.same "!" 1 (Nat.le_refl 1) hone)

theorem tracks_readTag (hne : c.rest ≠ []) :
    Tracks e c 1 (readTag c) (readTag (c.within e)) := by
  unfold readTag
  refine .bind (tracks_readTagParts h e hne) fun parts n _ _ => ?_
  simp only [endsName_peek_within]
  split
  · exact .refl _
  · exact .fails _ _

end

/-!
# Directives
-/

theorem readUri_of_spaced {c : Cursor} (h : c.Spaced) : readUri c = .error .invalid := by
  have hchars : readUriChars c.fuel [] c = .ok ([], c) := by
    rw [fuel, readUriChars, h.isAt_eq_false (by decide), span_eq,
      h.takeWhile_eq_nil fun _ => not_isUriChar_of_isSpacing]
    rfl
  rw [readUri, hchars]
  show (if c.index = c.index then _ else _) = _
  rw [if_pos rfl]
  rfl

theorem not_isAsciiDigit_of_isSpacing {x : Char} (h : isSpacing x = true) :
    Text.isAsciiDigit x = false := by
  rcases isSpacing_cases h with rfl | rfl | rfl | rfl | rfl | rfl <;> decide

theorem readVersionNumber_of_spaced {c : Cursor} (h : c.Spaced) :
    readVersionNumber c = .error .invalid := by
  rw [readVersionNumber, span_eq, h.takeWhile_eq_nil fun _ => not_isAsciiDigit_of_isSpacing]
  rfl

theorem readHandle_of_spaced_next {c : Cursor} (h : c.next.Spaced) :
    (∃ fault, readHandle c = .error fault) ∨ readHandle c = .ok ("!", c.next) := by
  unfold readHandle
  split
  · rw [span_eq, h.takeWhile_eq_nil fun _ => not_isNameChar_of_isSpacing]
    simp only [List.length_nil, skip, h.isAt_eq_false (show isSpacing '!' = false by decide)]
    split
    · rename_i hat
      cases hat
    · split
      · exact Or.inr rfl
      · exact Or.inl ⟨_, rfl⟩
  · exact Or.inl ⟨_, rfl⟩

def handleStart (handle : String) (c : Cursor) : Except Fault (Token × Cursor) := do
  if c.isAt ' ' then
    let (start, after) ← readUri c.skipSpaces
    if endsName (after.peek 0) then return (.handle handle start, after) else throw .invalid
  else throw .invalid

def readHandleStart (c : Cursor) : Except Fault (Token × Cursor) := do
  let (handle, after) ← readHandle c
  handleStart handle after

theorem readHandleDirective_eq (c : Cursor) :
    readHandleDirective c = readHandleStart c.skipSpaces := rfl

theorem handleStart_of_spaced (handle : String) {c : Cursor} (h : c.Spaced) :
    handleStart handle c = .error .invalid := by
  unfold handleStart
  rw [readUri_of_spaced (c := c.skipSpaces) (h.skip _)]
  split <;> rfl

def endDirective (token : Token) (c : Cursor) : Except Fault (Token × Cursor) := do
  return (token, ← endLine c)

section

variable {c : Cursor} (h : c.Solid) (e : Setting)

include h

theorem tracks_readVersionNumber :
    Tracks e c 0 (readVersionNumber c) (readVersionNumber (c.within e)) := by
  unfold readVersionNumber
  rw [span_within_of_text h e fun _ => not_isAsciiDigit_of_isSpacing]
  simp only
  split
  · exact .fails _ _
  · exact .same _ _ (Nat.zero_le _) (c.length_takeWhile_le _)

theorem tracks_skipSpaces {α : Type} {read : Cursor → Except Fault (α × Cursor)}
    (hspaced : ∀ d : Cursor, d.Spaced -> ∃ fault, read d = .error fault)
    (hread : ∀ d : Cursor, d.Solid -> d.rest ≠ [] -> Tracks e d 0 (read d) (read (d.within e))) :
    Tracks e c 0 (read c.skipSpaces) (read (c.within e).skipSpaces) := by
  by_cases hne : c.rest = []
  · rcases hspaced _ ((spaced_within_of_nil hne e).skip _) with ⟨fault, hfault⟩
    rw [skipSpaces_eq (c.within e), hfault]
    exact .fails _ _
  · have hblank : ∀ x : Char, (x == ' ') = true -> Text.isBlank x = true := by
      intro x hx
      rw [eq_of_beq hx]
      decide
    rw [skipSpaces_within h e hne, skipSpaces_eq]
    exact .of_skip (c.length_takeWhile_le _) (Nat.zero_le _)
      (hread _ (h.skip _) (rest_skipWhile_ne_nil h hblank hne))

theorem tracks_readVersion : Tracks e c 0 (readVersion c) (readVersion (c.within e)) := by
  unfold readVersion
  refine .bind (tracks_skipSpaces h e
    (fun d hd => ⟨_, readVersionNumber_of_spaced hd⟩)
    fun d hd _ => tracks_readVersionNumber hd e) fun major n _ _ => ?_
  simp only [isAt_within _ e (show isSpacing '.' = false by decide)]
  split
  · rename_i hat
    have hne := ne_nil_of_isAt hat
    rw [next_within (h.skip n) e hne]
    refine .of_skip (List.length_pos_iff.mpr hne) (Nat.zero_le 1)
      (.bind (tracks_readVersionNumber (h.skip n).next e) fun minor k _ _ => ?_)
    simp only [endsName_peek_within]
    split
    · exact .refl _
    · exact .fails _ _
  · exact .fails _ _

theorem tracks_handleStart (handle : String) :
    Tracks e c 0 (handleStart handle c) (handleStart handle (c.within e)) := by
  by_cases hne : c.rest = []
  · rw [handleStart_of_spaced handle (spaced_within_of_nil hne e)]
    exact .fails _ _
  · unfold handleStart
    rw [isAt_within_of_ne c e hne]
    split
    · refine .bind (tracks_skipSpaces h e (fun d hd => ⟨_, readUri_of_spaced hd⟩)
        fun d hd _ => (tracks_readUri hd e).weaken) fun start n _ _ => ?_
      simp only [endsName_peek_within]
      split
      · exact .refl _
      · exact .fails _ _
    · exact .fails _ _

theorem tracks_readHandleDirective :
    Tracks e c 0 (readHandleDirective c) (readHandleDirective (c.within e)) := by
  rw [readHandleDirective_eq, readHandleDirective_eq]
  refine tracks_skipSpaces h e (fun d hd => ?_) fun d hd hne => ?_
  · have hat : d.isAt '!' = false := hd.isAt_eq_false (by decide)
    exact ⟨.invalid, by rw [readHandleStart, readHandle, hat]; rfl⟩
  · unfold readHandleStart
    by_cases hnext : d.next.rest = []
    · -- in the longer text the mark may be a handle, but nothing stands behind it
      have hspaced : (d.within e).next.Spaced := by
        rw [next_within hd e hne]
        exact spaced_within_of_nil hnext e
      rcases readHandle_of_spaced_next hspaced with ⟨fault, hfault⟩ | hbang
      · simp only [hfault]
        exact .fails _ _
      · simp only [hbang]
        rw [show (Except.ok ("!", (d.within e).next) >>= fun read =>
          handleStart read.1 read.2) = _ from handleStart_of_spaced "!" hspaced]
        exact .fails _ _
    · exact .bind (tracks_readHandle hd e hnext).weaken fun handle n _ _ =>
        tracks_handleStart (hd.skip n) e handle

theorem follows_endDirective (token : Token) :
    Follows e c 0 (endDirective token c) (endDirective token (c.within e)) := by
  unfold endDirective
  rcases endLine_within h e with ⟨fault, hlong⟩ | ⟨n, hn, hshort, hlong⟩ | ⟨hshort, m, hm, hlong⟩
  · rw [hlong]
    exact .fails _ _
  · rw [hshort, hlong]
    exact .tracks (.same token n (Nat.zero_le n) hn)
  · rw [hshort, hlong]
    exact .ends token m (Nat.zero_le _) hm

theorem follows_remark :
    Follows e c 0 (endDirective .remark (c.skipWhile fun x => !isBreak x))
      (endDirective .remark ((c.within e).skipWhile fun x => !isBreak x)) := by
  rcases skipWhile_within_or h e (fun x => !isBreak x) with hlong | ⟨hshort, m, hm, hlong⟩
  · rw [hlong, skipWhile_eq]
    exact .of_skip h (c.length_takeWhile_le _) (Nat.zero_le _)
      (follows_endDirective (h.skip _) e .remark)
  · have hnil : (c.skip c.rest.length).rest = [] := by rw [rest_skip, List.drop_length]
    rw [hshort, hlong]
    unfold endDirective
    rw [endLine_of_nil hnil]
    cases hend : endLine ((c.within e).skip m) with
    | error fault => exact .fails _ _
    | ok d =>
        rcases exists_skip_of_endLine hend with ⟨k, rfl⟩
        rw [← skip_add]
        exact .ends Token.remark (m + k) (Nat.zero_le _) (Nat.le_add_right_of_le hm)

theorem follows_readDirective (hne : c.rest ≠ []) :
    Follows e c 1 (readDirective c) (readDirective (c.within e)) := by
  have hone : 1 ≤ c.rest.length := List.length_pos_iff.mpr hne
  unfold readDirective
  rw [next_within h e hne]
  refine .of_skip h hone (Nat.le_refl 1)
    (.bind h.next (tracks_readName h.next e).weaken fun name n _ _ => ?_)
  have hsolid : (c.next.skip n).Solid := h.next.skip n
  have hend : ∀ (read : Token × Cursor), (do return (read.1, ← endLine read.2)) =
      endDirective read.1 read.2 := fun _ => rfl
  simp only [endsName_peek_within, hend]
  split
  · split
    · exact .bind hsolid (tracks_readVersion hsolid e) fun token k _ _ =>
        follows_endDirective (hsolid.skip k) e token
    · split
      · exact .bind hsolid (tracks_readHandleDirective hsolid e) fun token k _ _ =>
          follows_endDirective (hsolid.skip k) e token
      · exact follows_remark hsolid e
  · exact .fails _ _

end

end Yaml
end TrafficGraph

import TrafficGraph.Proofs.Yaml.Block
import TrafficGraph.Proofs.Yaml.Lexer
import TrafficGraph.Proofs.Yaml.Names
import TrafficGraph.Proofs.Yaml.Plain
import TrafficGraph.Proofs.Yaml.Quoted

/-!
# Single tokens in a longer document

A lexer prepares for a token, reads it at its place, and notes it.  In a longer document it
reads the same token, unless that is a block scalar which takes the text to its end.
-/

namespace TrafficGraph
namespace Yaml

open Cursor

namespace Lexer

/-!
# Steps
-/

/-- Two lexers of which the first one is at the end of the text, and the second one, in the
longer text, is in the spacing behind it. -/
structure Ended (e : Setting) (s t : Lexer) : Prop where
  rest : s.cursor.rest = []
  spaced : t.cursor.Spaced
  tokens : t.tokens = s.tokens
  depth : t.depth = s.depth
  indent : t.indent = s.indent
  outer : t.outer = s.outer
  keys : t.keys = s.keys.map fun k => k.within e
  line : s.cursor.line + e.lines ≤ t.cursor.line
  index : s.cursor.index + e.index ≤ t.cursor.index

theorem Ended.of_nil {s : Lexer} (h : s.cursor.rest = []) (e : Setting) : Ended e s (s.within e) :=
  ⟨h, spaced_within_of_nil h e, rfl, rfl, rfl, rfl, rfl, Nat.le_refl _, Nat.le_refl _⟩

theorem Ended.moveTo {e : Setting} {s t : Lexer} (h : Ended e s t) {c : Cursor}
    (hreaches : t.cursor.Reaches c) : Ended e s (t.moveTo c) := by
  have hline := Nat.le_trans h.line hreaches.line_le
  have hindex := Nat.le_trans h.index hreaches.index_le
  exact ⟨h.rest, h.spaced.of_reaches hreaches, h.tokens, h.depth, h.indent, h.outer, h.keys, hline,
    hindex⟩

theorem Ended.allow {e : Setting} {s t : Lexer} (h : Ended e s t) (short long : Bool) :
    Ended e { s with keyAllowed := short } { t with keyAllowed := long } :=
  ⟨h.rest, h.spaced, h.tokens, h.depth, h.indent, h.outer, h.keys, h.line, h.index⟩

/-- What reading a token does in a text and in a longer one: the same in both, or it takes the
shorter text to its end, or it fails in the longer one. -/
inductive Moves (e : Setting) (s : Lexer) : Except Fault Lexer → Except Fault Lexer → Prop where
  | same (t : Lexer) (n : Nat) (hn : 1 ≤ n) (hlen : n ≤ s.cursor.rest.length)
      (hcursor : t.cursor = s.cursor.skip n)
      (hkeys : ∀ k ∈ t.keys, k ∈ s.keys ∨ k.line = s.cursor.line) :
      Moves e s (.ok t) (.ok (t.within e))
  | ends (t u : Lexer) (hended : Ended e t u) (hreaches : s.cursor.Reaches t.cursor)
      (hkeys : ∀ k ∈ t.keys, k ∈ s.keys ∨ k.line = s.cursor.line) :
      Moves e s (.ok t) (.ok u)
  | fails (short : Except Fault Lexer) (fault : Fault) : Moves e s short (.error fault)

def readWith {α : Type} (prepare : Lexer → Except Fault Lexer)
    (read : Lexer → Except Fault (α × Cursor)) (note : α → Lexer → Lexer) (s : Lexer) :
    Except Fault Lexer := do
  let s ← prepare s
  let (a, after) ← read s
  return (note a s).moveTo after

theorem Ended.of_skip {e : Setting} {c : Cursor} (h : c.Solid) {m : Nat} (hm : c.rest.length ≤ m)
    (s : Lexer) :
    Ended e (s.moveTo (c.skip c.rest.length)) ((s.within e).moveTo ((c.within e).skip m)) := by
  have hnil : (c.skip c.rest.length).rest = [] := by rw [rest_skip, List.drop_length]
  have hsplit : (c.within e).skip m =
      ((c.skip c.rest.length).within e).skip (m - c.rest.length) := by
    rw [← skip_within h e (Nat.le_refl _), ← skip_add, Nat.add_sub_cancel' hm]
  rw [hsplit]
  exact (Ended.of_nil (s := s.moveTo (c.skip c.rest.length)) hnil e).moveTo (.skip _ _)

theorem moves_readWith {α : Type} {prepare : Lexer → Except Fault Lexer}
    {read : Lexer → Except Fault (α × Cursor)} {note : α → Lexer → Lexer} {e : Setting} {s : Lexer}
    (h : s.cursor.Solid) (hprepare : KeepsPlace prepare)
    (hread : ∀ u, prepare s = .ok u -> Follows e u.cursor 1 (read u) (read (u.within e)))
    (hnote : ∀ a u, note a (u.within e) = (note a u).within e)
    (hkeys : ∀ a u, (note a u).keys = u.keys) :
    Moves e s (readWith prepare read note s) (readWith prepare read note (s.within e)) := by
  unfold readWith
  rw [hprepare.within]
  cases hu : prepare s with
  | error fault => exact .fails _ fault
  | ok u =>
      have hcursor := hprepare.cursor s u hu
      have hold : ∀ a, ∀ k ∈ (note a u).keys, k ∈ s.keys ∨ k.line = s.cursor.line := by
        intro a k hk
        rw [hkeys] at hk
        exact hprepare.keys s u hu k hk
      have hfollows := hread u hu
      show Moves e s (do let (a, after) ← read u; return (note a u).moveTo after)
        (do let (a, after) ← read (u.within e); return (note a (u.within e)).moveTo after)
      generalize read u = short at hfollows ⊢
      generalize read (u.within e) = long at hfollows ⊢
      cases hfollows with
      | tracks htracks =>
          cases htracks with
          | fails fault => exact .fails _ _
          | same a n hn hlen =>
              show Moves e s (.ok _) (.ok ((note a (u.within e)).moveTo _))
              rw [hnote]
              rw [hcursor] at hlen ⊢
              exact .same ((note a u).moveTo (s.cursor.skip n)) n hn hlen rfl (hold a)
      | ends a m hlen hm =>
          show Moves e s (.ok _) (.ok ((note a (u.within e)).moveTo _))
          rw [hnote]
          rw [hcursor] at hm ⊢
          exact .ends _ _ (.of_skip h hm (note a u)) (.skip s.cursor _) (hold a)

def readMark (prepare : Lexer → Except Fault Lexer) (note : Lexer → Lexer) (s : Lexer) :
    Except Fault Lexer :=
  readWith prepare (fun s => .ok ((), s.cursor.next)) (fun _ => note) s

theorem moves_readMark {prepare : Lexer → Except Fault Lexer} {note : Lexer → Lexer}
    {e : Setting} {s : Lexer} (h : s.cursor.Solid) (hne : s.cursor.rest ≠ [])
    (hprepare : KeepsPlace prepare) (hnote : ∀ u, note (u.within e) = (note u).within e)
    (hkeys : ∀ u, (note u).keys = u.keys) :
    Moves e s (readMark prepare note s) (readMark prepare note (s.within e)) := by
  refine moves_readWith h hprepare (fun u hu => ?_) (fun _ => hnote) fun _ => hkeys
  have hcursor := hprepare.cursor s u hu
  rw [← hcursor] at h hne
  show Follows e u.cursor 1 (.ok ((), u.cursor.next)) (.ok ((), (u.cursor.within e).next))
  rw [next_within h e hne]
  exact .tracks (.same () 1 (Nat.le_refl 1) (List.length_pos_iff.mpr hne))

/-!
# Marks
-/

theorem openBracket_eq (s : Lexer) (t : Token) :
    s.openBracket t = readMark noteKey
      (fun s => { s.push t with depth := s.depth + 1, keyAllowed := true }) s := rfl

theorem closeBracket_eq (s : Lexer) (t : Token) :
    s.closeBracket t =
      if s.inFlow then
        readMark dropKey (fun s => { s.push t with depth := s.depth - 1, keyAllowed := false }) s
      else .error .invalid := rfl

theorem readComma_eq (s : Lexer) :
    s.readComma = readMark dropKey (fun s => { s.push .flowEntry with keyAllowed := true }) s := rfl

def prepareEntry (opening : Token) (s : Lexer) : Except Fault Lexer :=
  s.beginEntry opening >>= dropKey

theorem keepsPlace_prepareEntry {opening : Token} (h : opening ≠ .streamEnd) :
    KeepsPlace (prepareEntry opening) := (keepsPlace_beginEntry h).bind keepsPlace_dropKey

theorem readHyphen_eq (s : Lexer) :
    s.readHyphen = readMark (prepareEntry .blockSequenceStart)
      (fun s => { s.push .blockEntry with keyAllowed := true }) s := by
  unfold readHyphen readMark readWith prepareEntry
  cases s.beginEntry .blockSequenceStart <;> rfl

theorem readQuestion_eq (s : Lexer) :
    s.readQuestion = readMark (prepareEntry .blockMappingStart)
      (fun s => { s.push .key with keyAllowed := !s.inFlow }) s := by
  unfold readQuestion readMark readWith prepareEntry
  cases s.beginEntry .blockMappingStart <;> rfl

theorem readColon_eq_readMark (s : Lexer) : s.readColon = readMark takeKey id s := readColon_eq s

theorem readDocumentMark_eq (s : Lexer) (t : Token) :
    s.readDocumentMark t =
      readWith leave (fun s => .ok ((), s.cursor.skip 3)) (fun _ s => s.push t) s := rfl

theorem readDirectiveLine_eq (s : Lexer) :
    s.readDirectiveLine =
      readWith leave (fun s => readDirective s.cursor) (fun t s => s.push t) s := rfl

theorem readNode_eq (s : Lexer) (read : Cursor → Except Fault (Token × Cursor)) :
    s.readNode read =
      readWith noteKey (fun s => read s.cursor)
        (fun t s => { s.push t with keyAllowed := false }) s := rfl

theorem readBlockScalar_eq (s : Lexer) (folded : Bool) :
    s.readBlockScalar folded =
      readWith dropKey (fun s => readBlock folded s.indent s.cursor)
        (fun text s => { s.push (.scalar false (String.ofList text)) with keyAllowed := true })
        s := rfl

/-!
# Nodes
-/

theorem follows_readQuotedScalar {c : Cursor} (h : c.Solid) (e : Setting) (hne : c.rest ≠ [])
    {mark : Char} (hmark : isSpacing mark = false) (escapes : Bool) :
    Follows e c 1 (readQuotedScalar mark escapes c)
      (readQuotedScalar mark escapes (c.within e)) := by
  have hone : 1 ≤ c.rest.length := List.length_pos_iff.mpr hne
  unfold readQuotedScalar
  rw [next_within h e hne]
  refine .tracks (.of_skip (n := 1) hone (Nat.le_refl 1)
    (.bind (tracks_readQuoted h.next e hmark escapes ?_ _ []) fun text n _ _ => .refl _))
  rw [rest_next, List.length_drop, fuel]
  omega

theorem follows_readAlias {c : Cursor} (h : c.Solid) (e : Setting) (hne : c.rest ≠ []) :
    Follows e c 1 (readAlias c) (readAlias (c.within e)) :=
  .tracks (.bind (tracks_readAnchor h e hne) fun _ _ _ _ => .refl _)

theorem follows_readAnchorMark {c : Cursor} (h : c.Solid) (e : Setting) (hne : c.rest ≠ []) :
    Follows e c 1 (readAnchorMark c) (readAnchorMark (c.within e)) :=
  .tracks (.bind (tracks_readAnchor h e hne) fun _ _ _ _ => .refl _)

theorem runLength_pos {inFlow : Bool} {c : Cursor} {x : Char} {more : List Char}
    (hrest : c.rest = x :: more) (h : beginsPlain inFlow x (c.peek 1) = true) :
    1 ≤ runLength inFlow c := by
  have hpeek : c.peek 1 = more.head? := by
    rw [peek, hrest, List.getElem?_cons_succ, List.head?_eq_getElem?]
  have hat : c.isAt '#' = (x == '#') := by
    rw [isAt, peek, hrest, List.getElem?_cons_zero]
    rfl
  rw [hpeek] at h
  rw [runLength, hat, hrest, plainLength]
  rw [beginsPlain, Bool.or_eq_true] at h
  rcases h with hplain | hmark
  · simp [isIndicator] at hplain
    simp [isFlowChar, hplain]
  · simp only [Bool.and_eq_true, Bool.or_eq_true, Bool.not_eq_true', beq_iff_eq] at hmark
    rcases hmark with ⟨hnext, rfl | ⟨hflow, rfl | rfl⟩⟩
    · simp [endsWord, isBreak, isFlowChar]
    · simp [endsWord, isBreak, hflow]
    · subst hflow
      have hkey : endsKey false more.head? = false := by
        unfold endsKey
        rw [hnext]
        rfl
      simp [endsWord, isBreak, hkey]

theorem depth_of_noteKey {s u : Lexer} (h : s.noteKey = .ok u) : u.depth = s.depth := by
  unfold noteKey at h
  split at h
  · rcases exists_of_bind_eq_ok h with ⟨t, hdrop, ht⟩
    cases ht
    rw [dropKey_eq] at hdrop
    rw [(dropWhere_eq_ok_iff.mp hdrop).2]
  · cases h
    rfl

def pushPlain (s : Lexer) (read : List Char × Bool × Cursor) : Lexer :=
  { s.pushAt (.scalar true (String.ofList read.1)) read.2.2 with keyAllowed := read.2.1 }

section

variable {s : Lexer} (h : s.cursor.Solid) (e : Setting) (hne : s.cursor.rest ≠ [])

include h hne

theorem moves_readNode {read : Cursor → Except Fault (Token × Cursor)}
    (hread : ∀ c : Cursor, c.Solid -> c.rest ≠ [] -> Follows e c 1 (read c) (read (c.within e))) :
    Moves e s (s.readNode read) ((s.within e).readNode read) := by
  rw [readNode_eq, readNode_eq]
  refine moves_readWith h keepsPlace_noteKey (fun u hu => ?_) (fun _ _ => rfl) fun _ _ => rfl
  have hcursor := keepsPlace_noteKey.cursor s u hu
  exact hread u.cursor (hcursor ▸ h) (hcursor ▸ hne)

theorem moves_readBlockScalar (folded : Bool)
    (hend : ∀ t, s.readBlockScalar folded = .ok t -> t.cursor.rest ≠ []) :
    Moves e s (s.readBlockScalar folded) ((s.within e).readBlockScalar folded) := by
  rw [readBlockScalar_eq, readBlockScalar_eq]
  refine moves_readWith h keepsPlace_dropKey (fun u hu => ?_) (fun _ _ => rfl) fun _ _ => rfl
  have hcursor := keepsPlace_dropKey.cursor s u hu
  rcases tracks_readBlock (hcursor ▸ h) e (hcursor ▸ hne) folded u.indent with
    htracks | ⟨text, d, hread, hnil⟩
  · exact .tracks htracks
  · have hstep : s.readBlockScalar folded = .ok (({ u.push (.scalar false (String.ofList text)) with
        keyAllowed := true } : Lexer).moveTo d) := by
      rw [readBlockScalar_eq, readWith, hu]
      show (readBlock folded u.indent u.cursor >>= _) = _
      rw [hread]
      rfl
    exact absurd hnil (hend _ hstep)

omit hne in
theorem moves_readPlainScalar {x : Char} {more : List Char} (hrest : s.cursor.rest = x :: more)
    (hbegins : beginsPlain s.inFlow x (s.cursor.peek 1) = true) :
    Moves e s s.readPlainScalar (s.within e).readPlainScalar := by
  unfold readPlainScalar
  rw [keepsPlace_noteKey.within]
  cases hu : s.noteKey with
  | error fault => exact .fails _ fault
  | ok u =>
      have hcursor := keepsPlace_noteKey.cursor s u hu
      have hkeys := keepsPlace_noteKey.keys s u hu
      have hflow : u.inFlow = s.inFlow := by rw [inFlow, inFlow, depth_of_noteKey hu]
      have hplain := followsPlain_readPlain h e s.inFlow (u.indent + 1) (n := s.cursor.fuel)
        (m := (s.cursor.within e).fuel) (Nat.lt_add_of_pos_right (by decide))
        (by simp [fuel, Cursor.within]; omega) [] [] false
      show Moves e s
        (.ok (u.pushPlain (readPlain u.inFlow (u.indent + 1) u.cursor.fuel [] [] false u.cursor)))
        (.ok ((u.within e).pushPlain (readPlain u.inFlow (u.indent + 1) (u.cursor.within e).fuel
          [] [] false (u.cursor.within e))))
      rw [hcursor, hflow]
      have hrun := runLength_pos hrest hbegins
      generalize readPlain s.inFlow (u.indent + 1) s.cursor.fuel [] [] false s.cursor = short
        at hplain ⊢
      generalize readPlain s.inFlow (u.indent + 1) (s.cursor.within e).fuel [] [] false
        (s.cursor.within e) = long at hplain ⊢
      cases hplain with
      | same text left n hn hlen =>
          exact .same { u.pushAt (.scalar true (String.ofList text)) (s.cursor.skip n) with
            keyAllowed := left } n (Nat.le_trans hrun hn) hlen rfl hkeys
      | ends text left leftLong m hleast hm =>
          have hended := Ended.of_skip (e := e) h hm (u.push (.scalar true (String.ofList text)))
          exact .ends _ _ (hended.allow left leftLong) (.skip s.cursor _) hkeys

theorem moves_closeBracket (t : Token) :
    Moves e s (s.closeBracket t) ((s.within e).closeBracket t) := by
  rw [closeBracket_eq, closeBracket_eq]
  show Moves e s (if s.inFlow then _ else _) (if s.inFlow then _ else _)
  split
  · exact moves_readMark h hne keepsPlace_dropKey (fun _ => rfl) fun _ => rfl
  · exact .fails _ _

/-!
# Any token
-/

theorem moves_readDirectiveLine :
    Moves e s s.readDirectiveLine (s.within e).readDirectiveLine := by
  rw [readDirectiveLine_eq, readDirectiveLine_eq]
  refine moves_readWith h keepsPlace_leave (fun u hu => ?_) (fun _ _ => rfl) fun _ _ => rfl
  have hcursor := keepsPlace_leave.cursor s u hu
  exact follows_readDirective (hcursor ▸ h) e (hcursor ▸ hne)

omit hne in
theorem moves_readDocumentMark (hmark : s.cursor.atDocumentMark = true) (t : Token) :
    Moves e s (s.readDocumentMark t) ((s.within e).readDocumentMark t) := by
  rw [readDocumentMark_eq, readDocumentMark_eq]
  refine moves_readWith h keepsPlace_leave (fun u hu => ?_) (fun _ _ => rfl) fun _ _ => rfl
  have hcursor := keepsPlace_leave.cursor s u hu
  rw [← hcursor] at h hmark
  have hthree := u.cursor.length_of_atDocumentMark hmark
  show Follows e u.cursor 1 (.ok ((), u.cursor.skip 3)) (.ok ((), (u.cursor.within e).skip 3))
  rw [skip_within h e hthree]
  exact .tracks (.same () 3 (by decide) hthree)

omit h hne in
theorem Moves.ite {p : Prop} [Decidable p] {a b a' b' : Except Fault Lexer}
    (hpos : p -> Moves e s a a') (hneg : ¬ p -> Moves e s b b') :
    Moves e s (if p then a else b) (if p then a' else b') := by
  split
  · exact hpos ‹_›
  · exact hneg ‹_›

/-- Whether a block scalar begins here and takes the text to its end. -/
def endsWithBlock (s : Lexer) : Bool :=
  !s.inFlow && (s.cursor.isAt '|' || s.cursor.isAt '>') &&
    match s.readBlockScalar (s.cursor.isAt '>') with
    | .ok t => t.cursor.rest.isEmpty
    | .error _ => false

/-- A token is read in the longer text as it is in the text, unless it is a block scalar that
takes the text to its end. -/
theorem moves_readToken {x : Char} {more : List Char} (hrest : s.cursor.rest = x :: more)
    (hblock : s.endsWithBlock = false) :
    Moves e s (s.readToken x) ((s.within e).readToken x) := by
  have hat : ∀ y : Char, s.cursor.isAt y = (x == y) := by
    intro y
    rw [isAt, peek, hrest, List.getElem?_cons_zero]
    rfl
  have hnext : endsWord ((s.within e).cursor.peek 1) = endsWord (s.cursor.peek 1) :=
    endsWord_peek_within s.cursor e 1
  have hmark : (s.within e).cursor.atDocumentMark = s.cursor.atDocumentMark :=
    atDocumentMark_within s.cursor e
  have hplain : beginsPlain (s.within e).inFlow x ((s.within e).cursor.peek 1) =
      beginsPlain s.inFlow x (s.cursor.peek 1) := by
    unfold beginsPlain
    rw [hnext]
    rfl
  have hcolumn : (s.within e).cursor.column = s.cursor.column := rfl
  have hflow : (s.within e).inFlow = s.inFlow := rfl
  have hfolded : ∀ folded, (x == '|' || x == '>') = true -> (x == '>') = folded ->
      (!s.inFlow) = true -> ∀ t, s.readBlockScalar folded = .ok t -> t.cursor.rest ≠ [] := by
    rintro folded hx rfl hflow t hread hnil
    rw [endsWithBlock, hat, hat, hx, hflow, hread] at hblock
    change t.cursor.rest.isEmpty = false at hblock
    rw [hnil] at hblock
    cases hblock
  unfold readToken
  dsimp only
  rw [hnext, hmark, hplain, hcolumn, hflow]
  refine .ite e (fun _ => moves_readDirectiveLine h e hne) fun _ => ?_
  refine .ite e (fun hmark => moves_readDocumentMark h e hmark.2 _) fun _ => ?_
  refine .ite e (fun _ => ?_) fun _ => ?_
  · rw [openBracket_eq, openBracket_eq]
    exact moves_readMark h hne keepsPlace_noteKey (fun _ => rfl) fun _ => rfl
  refine .ite e (fun _ => ?_) fun _ => ?_
  · rw [openBracket_eq, openBracket_eq]
    exact moves_readMark h hne keepsPlace_noteKey (fun _ => rfl) fun _ => rfl
  refine .ite e (fun _ => moves_closeBracket h e hne _) fun _ => ?_
  refine .ite e (fun _ => moves_closeBracket h e hne _) fun _ => ?_
  refine .ite e (fun _ => ?_) fun _ => ?_
  · rw [readComma_eq, readComma_eq]
    exact moves_readMark h hne keepsPlace_dropKey (fun _ => rfl) fun _ => rfl
  refine .ite e (fun _ => ?_) fun _ => ?_
  · rw [readHyphen_eq, readHyphen_eq]
    exact moves_readMark h hne (keepsPlace_prepareEntry Token.noConfusion) (fun _ => rfl)
      fun _ => rfl
  refine .ite e (fun _ => ?_) fun _ => ?_
  · rw [readQuestion_eq, readQuestion_eq]
    exact moves_readMark h hne (keepsPlace_prepareEntry Token.noConfusion) (fun _ => rfl)
      fun _ => rfl
  refine .ite e (fun _ => ?_) fun _ => ?_
  · rw [readColon_eq_readMark, readColon_eq_readMark]
    exact moves_readMark h hne keepsPlace_takeKey (fun _ => rfl) fun _ => rfl
  refine .ite e (fun _ => ?_) fun _ => ?_
  · exact moves_readNode h e hne fun _ hc => follows_readAlias hc e
  refine .ite e (fun _ => ?_) fun _ => ?_
  · exact moves_readNode h e hne fun _ hc => follows_readAnchorMark hc e
  refine .ite e (fun _ => ?_) fun _ => ?_
  · exact moves_readNode h e hne fun _ hc hrest => .tracks (tracks_readTag hc e hrest)
  refine .ite e (fun hbar => ?_) fun _ => ?_
  · rcases hbar with ⟨rfl, hflow⟩
    exact moves_readBlockScalar h e hne false (hfolded false rfl rfl hflow)
  refine .ite e (fun hangle => ?_) fun _ => ?_
  · rcases hangle with ⟨rfl, hflow⟩
    exact moves_readBlockScalar h e hne true (hfolded true rfl rfl hflow)
  refine .ite e (fun _ => ?_) fun _ => ?_
  · exact moves_readNode h e hne fun _ hc hrest =>
      follows_readQuotedScalar hc e hrest (by decide) false
  refine .ite e (fun _ => ?_) fun _ => ?_
  · exact moves_readNode h e hne fun _ hc hrest =>
      follows_readQuotedScalar hc e hrest (by decide) true
  exact .ite e (fun hbegins => moves_readPlainScalar h e hrest hbegins) fun _ => .fails _ _

end

end Lexer

end Yaml
end TrafficGraph

import TrafficGraph.Proofs.Yaml.Descent
import TrafficGraph.Proofs.Yaml.Stream
import TrafficGraph.Yaml.Document

/-!
# Documents that can be read

The end of a text is noted only where its tokens are all read.  As no tree can be read without
that token, a document that can be read has tokens without a fault, and what it stands for
depends on them alone.
-/

namespace TrafficGraph
namespace Yaml

open Cursor

namespace Lexer

/-!
# The end is noted last
-/

/-- Whether a reading, if it succeeds, does not note the end of the text. -/
def GoesOn (s : Lexer) (read : Except Fault Lexer) : Prop :=
  ∀ t, read = .ok t -> .streamEnd ∈ t.tokens -> .streamEnd ∈ s.tokens

theorem GoesOn.error (s : Lexer) (fault : Fault) : s.GoesOn (.error fault) := by
  intro t h
  cases h

theorem GoesOn.ite {s : Lexer} {p : Prop} [Decidable p] {read other : Except Fault Lexer}
    (h : s.GoesOn read) (hother : s.GoesOn other) : s.GoesOn (if p then read else other) := by
  split
  · exact h
  · exact hother

theorem goesOn_readWith {α : Type} {prepare : Lexer → Except Fault Lexer}
    {read : Lexer → Except Fault (α × Cursor)} {note : α → Lexer → Lexer} {s : Lexer}
    (hprepare : KeepsPlace prepare)
    (hnote : ∀ a u c, read u = .ok (a, c) ->
      .streamEnd ∈ (note a u).tokens -> .streamEnd ∈ u.tokens) :
    s.GoesOn (readWith prepare read note s) := by
  intro t h hend
  unfold readWith at h
  rcases exists_of_bind_eq_ok h with ⟨u, hu, hrest⟩
  rcases exists_of_bind_eq_ok hrest with ⟨⟨a, c⟩, hread, ht⟩
  cases ht
  exact hprepare.tokens s u hu (hnote a u c hread hend)

theorem goesOn_readMark {prepare : Lexer → Except Fault Lexer} {note : Lexer → Lexer} {s : Lexer}
    (hprepare : KeepsPlace prepare)
    (hnote : ∀ u, .streamEnd ∈ (note u).tokens -> .streamEnd ∈ u.tokens) :
    s.GoesOn (readMark prepare note s) :=
  goesOn_readWith hprepare fun _ u _ _ => hnote u

theorem mem_of_mem_cons {t : Token} (ht : t ≠ .streamEnd) {ts : List Token}
    (h : .streamEnd ∈ t :: ts) : .streamEnd ∈ ts :=
  (List.mem_cons.mp h).resolve_left ht.symm

theorem goesOn_closeBracket (s : Lexer) {t : Token} (ht : t ≠ .streamEnd) :
    s.GoesOn (s.closeBracket t) := by
  rw [closeBracket_eq]
  exact .ite (goesOn_readMark keepsPlace_dropKey fun _ => mem_of_mem_cons ht) (.error s _)

theorem goesOn_readNode (s : Lexer) {read : Cursor → Except Fault (Token × Cursor)}
    (hread : ∀ c t after, read c = .ok (t, after) -> t ≠ .streamEnd) :
    s.GoesOn (s.readNode read) := by
  rw [readNode_eq]
  refine goesOn_readWith keepsPlace_noteKey fun t u after h => ?_
  exact mem_of_mem_cons (hread u.cursor t after h)

theorem goesOn_readPlainScalar (s : Lexer) : s.GoesOn s.readPlainScalar := by
  intro t h hend
  unfold readPlainScalar at h
  rcases exists_of_bind_eq_ok h with ⟨u, hu, ht⟩
  cases ht
  exact keepsPlace_noteKey.tokens s u hu (mem_of_mem_cons Token.noConfusion hend)

/-!
# Tokens that are not the end
-/

theorem readAlias_ne {c after : Cursor} {t : Token} (h : readAlias c = .ok (t, after)) :
    t ≠ .streamEnd := by
  rcases exists_of_bind_eq_ok h with ⟨⟨name, d⟩, _, ht⟩
  cases ht
  exact Token.noConfusion

theorem readAnchorMark_ne {c after : Cursor} {t : Token} (h : readAnchorMark c = .ok (t, after)) :
    t ≠ .streamEnd := by
  rcases exists_of_bind_eq_ok h with ⟨⟨name, d⟩, _, ht⟩
  cases ht
  exact Token.noConfusion

theorem readQuotedScalar_ne {mark : Char} {escapes : Bool} {c after : Cursor} {t : Token}
    (h : readQuotedScalar mark escapes c = .ok (t, after)) : t ≠ .streamEnd := by
  rcases exists_of_bind_eq_ok h with ⟨⟨text, d⟩, _, ht⟩
  cases ht
  exact Token.noConfusion

theorem readTag_ne {c after : Cursor} {t : Token} (h : readTag c = .ok (t, after)) :
    t ≠ .streamEnd := by
  rcases exists_of_bind_eq_ok h with ⟨⟨⟨handle, suffix⟩, d⟩, _, ht⟩
  dsimp only at ht
  split at ht
  · cases ht
    exact Token.noConfusion
  · cases ht

theorem readVersion_ne {c after : Cursor} {t : Token} (h : readVersion c = .ok (t, after)) :
    t ≠ .streamEnd := by
  rcases exists_of_bind_eq_ok h with ⟨⟨major, d⟩, _, hrest⟩
  dsimp only at hrest
  split at hrest
  · rcases exists_of_bind_eq_ok hrest with ⟨⟨minor, f⟩, _, ht⟩
    dsimp only at ht
    split at ht
    · cases ht
      exact Token.noConfusion
    · cases ht
  · cases hrest

theorem readHandleDirective_ne {c after : Cursor} {t : Token}
    (h : readHandleDirective c = .ok (t, after)) : t ≠ .streamEnd := by
  rcases exists_of_bind_eq_ok h with ⟨⟨handle, d⟩, _, hrest⟩
  dsimp only at hrest
  split at hrest
  · rcases exists_of_bind_eq_ok hrest with ⟨⟨start, f⟩, _, ht⟩
    dsimp only at ht
    split at ht
    · cases ht
      exact Token.noConfusion
    · cases ht
  · cases hrest

theorem ne_of_endLine {read : Except Fault (Token × Cursor)} {t : Token} {after : Cursor}
    (hne : ∀ u d, read = .ok (u, d) -> u ≠ .streamEnd)
    (h : (do let (u, d) ← read; return (u, ← endLine d)) = Except.ok (t, after)) :
    t ≠ .streamEnd := by
  rcases exists_of_bind_eq_ok h with ⟨⟨u, d⟩, hu, hrest⟩
  rcases exists_of_bind_eq_ok hrest with ⟨f, _, ht⟩
  cases ht
  exact hne t d hu

theorem readDirective_ne {c after : Cursor} {t : Token} (h : readDirective c = .ok (t, after)) :
    t ≠ .streamEnd := by
  rcases exists_of_bind_eq_ok h with ⟨⟨name, d⟩, _, hrest⟩
  dsimp only at hrest
  split at hrest
  · split at hrest
    · exact ne_of_endLine (fun _ _ => readVersion_ne) hrest
    · split at hrest
      · exact ne_of_endLine (fun _ _ => readHandleDirective_ne) hrest
      · refine @ne_of_endLine (.ok (.remark, _)) t after (fun u f hu => ?_) hrest
        cases hu
        exact Token.noConfusion
  · cases hrest

/-!
# Any token
-/

theorem goesOn_readToken (s : Lexer) (x : Char) : s.GoesOn (s.readToken x) := by
  have hdocument : ∀ mark : Token, mark ≠ .streamEnd -> s.GoesOn (s.readDocumentMark mark) := by
    intro mark hmark
    rw [readDocumentMark_eq]
    exact goesOn_readWith keepsPlace_leave fun _ _ _ _ => mem_of_mem_cons hmark
  have hopen : ∀ mark : Token, mark ≠ .streamEnd -> s.GoesOn (s.openBracket mark) := by
    intro mark hmark
    rw [openBracket_eq]
    exact goesOn_readMark keepsPlace_noteKey fun _ => mem_of_mem_cons hmark
  have hblock : ∀ folded, s.GoesOn (s.readBlockScalar folded) := by
    intro folded
    rw [readBlockScalar_eq]
    exact goesOn_readWith keepsPlace_dropKey fun _ _ _ _ => mem_of_mem_cons Token.noConfusion
  unfold readToken
  refine .ite ?_ (.ite (hdocument _ (by split <;> exact Token.noConfusion)) ?_)
  · rw [readDirectiveLine_eq]
    exact goesOn_readWith keepsPlace_leave fun _ _ _ h => mem_of_mem_cons (readDirective_ne h)
  refine .ite (hopen _ Token.noConfusion) (.ite (hopen _ Token.noConfusion) ?_)
  refine .ite (s.goesOn_closeBracket Token.noConfusion) ?_
  refine .ite (s.goesOn_closeBracket Token.noConfusion) ?_
  refine .ite ?_ (.ite ?_ (.ite ?_ (.ite ?_ ?_)))
  · rw [readComma_eq]
    exact goesOn_readMark keepsPlace_dropKey fun _ => mem_of_mem_cons Token.noConfusion
  · rw [readHyphen_eq]
    exact goesOn_readMark (keepsPlace_prepareEntry Token.noConfusion)
      fun _ => mem_of_mem_cons Token.noConfusion
  · rw [readQuestion_eq]
    exact goesOn_readMark (keepsPlace_prepareEntry Token.noConfusion)
      fun _ => mem_of_mem_cons Token.noConfusion
  · rw [readColon_eq_readMark]
    exact goesOn_readMark keepsPlace_takeKey fun _ => id
  refine .ite (s.goesOn_readNode fun _ _ _ => readAlias_ne) ?_
  refine .ite (s.goesOn_readNode fun _ _ _ => readAnchorMark_ne) ?_
  refine .ite (s.goesOn_readNode fun _ _ _ => readTag_ne) ?_
  refine .ite (hblock false) (.ite (hblock true) ?_)
  refine .ite (s.goesOn_readNode fun _ _ _ => readQuotedScalar_ne) ?_
  refine .ite (s.goesOn_readNode fun _ _ _ => readQuotedScalar_ne) ?_
  exact .ite s.goesOn_readPlainScalar (.error s _)

theorem tokens_skipGap (n : Nat) (s : Lexer) : (skipGap n s).tokens = s.tokens := by
  cases n with
  | zero => rfl
  | succ n =>
      rcases skipGap_eq n s with ⟨c, allowed, _, heq⟩
      rw [heq]

theorem streamEnd_notMem_of_run {n : Nat} {s : Lexer} (hs : .streamEnd ∉ s.tokens)
    {ts : List Token} {fault : Fault} (h : run n s = (ts, some fault)) : .streamEnd ∉ ts := by
  have hreverse : ∀ {t : Lexer}, (.streamEnd ∈ t.tokens -> .streamEnd ∈ s.tokens) ->
      .streamEnd ∉ t.tokens.reverse := fun ht hend => hs (ht (List.mem_reverse.mp hend))
  induction n generalizing s with
  | zero =>
      cases h
      exact hreverse id
  | succ n ih =>
      rw [run_succ] at h
      have hgap := tokens_skipGap s.cursor.fuel s
      generalize skipGap s.cursor.fuel s = t at h hgap
      unfold runOn at h
      cases hstale : t.dropStale with
      | error found =>
          rw [hstale] at h
          cases h
          exact hreverse (hgap ▸ id)
      | ok u =>
          rw [hstale] at h
          rw [dropStale_eq, dropWhere_eq_ok_iff] at hstale
          have hunwound : .streamEnd ∈ (u.unwindTo (u.cursor.column : Int)).tokens ->
              .streamEnd ∈ s.tokens := by
            intro hend
            have hold := (u.unwindTo_keeps (u.cursor.column : Int)).2.2.2 hend
            rw [hstale.2] at hold
            exact hgap ▸ hold
          dsimp only at h
          generalize u.unwindTo (u.cursor.column : Int) = w at h hunwound
          split at h
          · split at h
            · cases h
              exact hreverse hunwound
            · cases h
          · rename_i x _ _
            split at h
            · cases h
              exact hreverse hunwound
            · rename_i v hv
              have hgoes := w.goesOn_readToken x v hv
              exact ih (fun hend => hs (hunwound (hgoes hend))) h
                fun ht hend => hs (hunwound (hgoes (ht (List.mem_reverse.mp hend))))

end Lexer

theorem streamEnd_notMem_of_tokens {cs : List Char} {ts : List Token} {fault : Fault}
    (h : tokens cs = (ts, some fault)) : .streamEnd ∉ ts := by
  unfold tokens at h
  split at h
  · exact Lexer.streamEnd_notMem_of_run List.not_mem_nil h
  · cases h
    exact List.not_mem_nil

/-!
# Documents
-/

theorem tokens_of_decode {text : String} {v : Value} (h : decode text = .ok v) :
    ∃ ts, tokens text.toList = (ts, none) := by
  unfold decode at h
  rcases htokens : tokens text.toList with ⟨ts, fault⟩
  rw [htokens] at h
  rcases exists_of_bind_eq_ok h with ⟨node, hnode, _⟩
  cases fault with
  | none => exact ⟨ts, rfl⟩
  | some fault =>
      exact absurd (Parser.streamEnd_mem_of_readDocument hnode) (streamEnd_notMem_of_tokens htokens)

/-- A document that can be read stands for the same without blank lines in front of it and
spacing behind it, unless it ends in a block scalar. -/
theorem decode_of_framed {before text after : List Char} (h : Framed before text after) {v : Value}
    (hdecode : decode (String.ofList (before ++ (text ++ after))) = .ok v) :
    decode (String.ofList text) = .ok v := by
  rcases tokens_of_decode hdecode with ⟨ts, htokens⟩
  rw [String.toList_ofList] at htokens
  unfold decode at hdecode ⊢
  rw [String.toList_ofList, htokens] at hdecode
  rw [String.toList_ofList, tokens_of_framed h htokens]
  exact hdecode

end Yaml
end TrafficGraph

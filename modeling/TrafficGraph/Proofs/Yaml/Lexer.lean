import TrafficGraph.Proofs.Yaml.Reading
import TrafficGraph.Yaml.Token.Stream

/-!
# Lexers in a longer document

What a lexer knows about places it only compares, so in a longer document it does the same
with places that are further on.  This is so for whatever it does between two tokens: it
forgets and notes keys, and opens and closes collections.
-/

namespace TrafficGraph
namespace Yaml

open Cursor

/-!
# Lexers of a text inside a longer one
-/

def KeyStart.within (k : KeyStart) (e : Setting) : KeyStart :=
  { k with index := k.index + e.index, line := k.line + e.lines }

namespace Lexer

def within (s : Lexer) (e : Setting) : Lexer :=
  { s with cursor := s.cursor.within e, keys := s.keys.map fun k => k.within e }

def moveTo (s : Lexer) (c : Cursor) : Lexer := { s with cursor := c }

/-!
# Forgetting keys
-/

def dropWhere (s : Lexer) (p : KeyStart → Bool) : Except Fault Lexer :=
  if s.keys.any fun k => p k && k.required then .error .invalid
  else .ok { s with keys := s.keys.filter fun k => !p k }

theorem dropStale_eq (s : Lexer) : s.dropStale = s.dropWhere s.isStale := rfl

theorem dropKey_eq (s : Lexer) : s.dropKey = s.dropWhere fun k => k.depth == s.depth := rfl

theorem dropWhere_within {s : Lexer} {e : Setting} {p q : KeyStart → Bool}
    (h : ∀ k, q (k.within e) = p k) :
    (s.within e).dropWhere q = (s.dropWhere p).map fun t => t.within e := by
  have hany : ((s.within e).keys.any fun k => q k && k.required) =
      s.keys.any fun k => p k && k.required := by
    rw [within, List.any_map]
    exact congrArg s.keys.any (funext fun k => congrArg (· && k.required) (h k))
  have hfilter : (s.within e).keys.filter (fun k => !q k) =
      (s.keys.filter fun k => !p k).map fun k => k.within e := by
    rw [within, List.filter_map]
    exact congrArg (List.map _) (congrArg (s.keys.filter ·) (funext fun k => congrArg (!·) (h k)))
  unfold dropWhere
  rw [hany, hfilter]
  split <;> rfl

theorem isStale_within (s : Lexer) (e : Setting) (k : KeyStart) :
    (s.within e).isStale (k.within e) = s.isStale k := by
  have hline : (k.line + e.lines != s.cursor.line + e.lines) = (k.line != s.cursor.line) := by
    simp [bne]
  have hindex : s.cursor.index + e.index - (k.index + e.index) = s.cursor.index - k.index :=
    Nat.add_sub_add_right _ _ _
  show (k.line + e.lines != s.cursor.line + e.lines ||
    decide (1024 < s.cursor.index + e.index - (k.index + e.index))) = _
  rw [hline, hindex]
  rfl

theorem isStale_eq_false_iff {s : Lexer} {k : KeyStart} :
    s.isStale k = false ↔ k.line = s.cursor.line ∧ s.cursor.index - k.index ≤ 1024 := by
  simp [isStale]

theorem dropStale_within (s : Lexer) (e : Setting) :
    (s.within e).dropStale = s.dropStale.map fun t => t.within e :=
  dropWhere_within (isStale_within s e)

theorem dropWhere_eq_ok_iff {s t : Lexer} {p : KeyStart → Bool} :
    s.dropWhere p = .ok t ↔
      (∀ k ∈ s.keys, k.required = true -> p k = false) ∧
        t = { s with keys := s.keys.filter fun k => !p k } := by
  constructor
  · intro h
    unfold dropWhere at h
    split at h
    · cases h
    · rename_i hnone
      cases h
      refine ⟨fun k hk hrequired => ?_, rfl⟩
      rw [← Bool.not_eq_true]
      intro hp
      exact hnone (List.any_eq_true.mpr ⟨k, hk, by rw [hp, hrequired]; rfl⟩)
  · rintro ⟨hnone, rfl⟩
    rw [dropWhere, if_neg]
    intro hany
    rcases List.any_eq_true.mp hany with ⟨k, hk, hboth⟩
    rw [Bool.and_eq_true] at hboth
    rw [hnone k hk hboth.2] at hboth
    cases hboth.1

/-!
# Operations that keep the place
-/

/-- An operation that does not read, and for which it makes no difference where a text stands.
Keys are noted at the present line only, and the end of the text is not. -/
structure KeepsPlace (f : Lexer → Except Fault Lexer) : Prop where
  within : ∀ s e, f (s.within e) = (f s).map fun t => t.within e
  cursor : ∀ s t, f s = .ok t -> t.cursor = s.cursor
  keys : ∀ s t, f s = .ok t -> ∀ k ∈ t.keys, k ∈ s.keys ∨ k.line = s.cursor.line
  tokens : ∀ s t, f s = .ok t -> .streamEnd ∈ t.tokens -> .streamEnd ∈ s.tokens

namespace KeepsPlace

theorem bind {f g : Lexer → Except Fault Lexer} (hf : KeepsPlace f) (hg : KeepsPlace g) :
    KeepsPlace fun s => f s >>= g where
  within s e := by
    rw [hf.within]
    cases hs : f s with
    | error fault => rfl
    | ok t => exact hg.within t e
  cursor s u h := by
    rcases exists_of_bind_eq_ok h with ⟨t, hs, ht⟩
    exact (hg.cursor t u ht).trans (hf.cursor s t hs)
  keys s u h k hk := by
    rcases exists_of_bind_eq_ok h with ⟨t, hs, ht⟩
    rcases hg.keys t u ht k hk with hkey | hline
    · exact hf.keys s t hs k hkey
    · exact Or.inr (hline.trans (congrArg Cursor.line (hf.cursor s t hs)))
  tokens s u h hend := by
    rcases exists_of_bind_eq_ok h with ⟨t, hs, ht⟩
    exact hf.tokens s t hs (hg.tokens t u ht hend)

theorem of_fun {g : Lexer → Lexer} (hwithin : ∀ s e, g (s.within e) = (g s).within e)
    (hcursor : ∀ s, (g s).cursor = s.cursor)
    (hkeys : ∀ s, ∀ k ∈ (g s).keys, k ∈ s.keys ∨ k.line = s.cursor.line)
    (htokens : ∀ s, .streamEnd ∈ (g s).tokens -> .streamEnd ∈ s.tokens) :
    KeepsPlace fun s => .ok (g s) where
  within s e := congrArg Except.ok (hwithin s e)
  cursor s t h := by
    cases h
    exact hcursor s
  keys s t h := by
    cases h
    exact hkeys s
  tokens s t h := by
    cases h
    exact htokens s

theorem push {t : Token} (ht : t ≠ .streamEnd) (g : Lexer → Bool)
    (hg : ∀ s e, g (s.within e) = g s) :
    KeepsPlace fun s => .ok { s.push t with keyAllowed := g s } := by
  refine of_fun (fun s e => ?_) (fun _ => rfl) (fun _ _ hk => Or.inl hk) fun s hend => ?_
  · rw [hg]
    rfl
  · exact (List.mem_cons.mp hend).resolve_left ht.symm

end KeepsPlace

theorem keepsPlace_dropKey : KeepsPlace dropKey where
  within s e := dropWhere_within fun _ => rfl
  cursor s t h := by rw [(dropWhere_eq_ok_iff.mp h).2]
  keys s t h k hk := by
    rw [(dropWhere_eq_ok_iff.mp h).2] at hk
    exact Or.inl (List.mem_filter.mp hk).1
  tokens s t h hend := by
    rw [(dropWhere_eq_ok_iff.mp h).2] at hend
    exact hend

theorem keepsPlace_noteKey : KeepsPlace noteKey := by
  have hnote : KeepsPlace fun s => .ok { s with keys := s.keyStart :: s.keys } := by
    refine .of_fun (fun s e => rfl) (fun _ => rfl) (fun s k hk => ?_) fun _ hend => hend
    rcases List.mem_cons.mp hk with rfl | hold
    · exact Or.inr rfl
    · exact Or.inl hold
  have hboth := keepsPlace_dropKey.bind hnote
  refine ⟨fun s e => ?_, fun s t h => ?_, fun s t h => ?_, fun s t h => ?_⟩
  · unfold noteKey
    show (if s.keyAllowed = true then _ else _) = _
    split
    · exact hboth.within s e
    · rfl
  · unfold noteKey at h
    split at h
    · exact hboth.cursor s t h
    · cases h
      rfl
  · unfold noteKey at h
    split at h
    · exact hboth.keys s t h
    · cases h
      exact fun k hk => Or.inl hk
  · unfold noteKey at h
    split at h
    · exact hboth.tokens s t h
    · cases h
      exact id

/-!
# Changes of indentation
-/

theorem unwind_within (column : Int) (around : List Int) (s : Lexer) (e : Setting) :
    unwind column around (s.within e) = (unwind column around s).within e := by
  induction around generalizing s with
  | nil => rfl
  | cons indent outer ih =>
      rw [unwind, unwind]
      show (if column < s.indent then _ else _) = _
      split
      · exact ih { s.push .blockEnd with indent := indent, outer := outer }
      · rfl

theorem unwind_keeps (column : Int) (around : List Int) (s : Lexer) :
    (unwind column around s).cursor = s.cursor ∧ (unwind column around s).keys = s.keys ∧
      (unwind column around s).depth = s.depth ∧
      (.streamEnd ∈ (unwind column around s).tokens -> .streamEnd ∈ s.tokens) := by
  induction around generalizing s with
  | nil => exact ⟨rfl, rfl, rfl, id⟩
  | cons indent outer ih =>
      rw [unwind]
      split
      · rcases ih { s.push .blockEnd with indent := indent, outer := outer } with
          ⟨hcursor, hkeys, hdepth, htokens⟩
        refine ⟨hcursor, hkeys, hdepth, fun hend => ?_⟩
        exact (List.mem_cons.mp (htokens hend)).resolve_left Token.noConfusion
      · exact ⟨rfl, rfl, rfl, id⟩

theorem unwind_unwind {column outer : Int} (h : outer ≤ column) (around : List Int) (s : Lexer)
    (hs : s.outer = around) :
    (unwind outer (unwind column around s).outer (unwind column around s)) =
      unwind outer around s := by
  induction around generalizing s with
  | nil =>
      rw [unwind, hs]
  | cons indent rest ih =>
      rw [unwind]
      split
      · rename_i hcolumn
        rw [ih { s.push .blockEnd with indent := indent, outer := rest } rfl]
        rw [unwind.eq_def outer (indent :: rest)]
        dsimp only
        rw [if_pos (by omega)]
      · rw [hs]

theorem unwindTo_within (column : Int) (s : Lexer) (e : Setting) :
    (s.within e).unwindTo column = (s.unwindTo column).within e := by
  unfold unwindTo
  show (if s.inFlow then _ else _) = _
  split
  · rfl
  · exact unwind_within column s.outer s e

theorem unwindTo_keeps (column : Int) (s : Lexer) :
    (s.unwindTo column).cursor = s.cursor ∧ (s.unwindTo column).keys = s.keys ∧
      (s.unwindTo column).depth = s.depth ∧
      (.streamEnd ∈ (s.unwindTo column).tokens -> .streamEnd ∈ s.tokens) := by
  unfold unwindTo
  split
  · exact ⟨rfl, rfl, rfl, id⟩
  · exact unwind_keeps column s.outer s

theorem unwindTo_unwindTo {column outer : Int} (h : outer ≤ column) (s : Lexer) :
    (s.unwindTo column).unwindTo outer = s.unwindTo outer := by
  have hdepth := (s.unwindTo_keeps column).2.2.1
  have hflow : (s.unwindTo column).inFlow = s.inFlow := by rw [inFlow, inFlow, hdepth]
  rw [unwindTo, hflow]
  by_cases hs : s.inFlow = true
  · rw [if_pos hs, unwindTo, unwindTo, if_pos hs, if_pos hs]
  · rw [if_neg hs, unwindTo, unwindTo, if_neg hs, if_neg hs]
    exact unwind_unwind h s.outer s rfl

theorem tokens_unwindTo_congr (column : Int) {s t : Lexer} (htokens : t.tokens = s.tokens)
    (hdepth : t.depth = s.depth) (hindent : t.indent = s.indent) (houter : t.outer = s.outer) :
    (t.unwindTo column).tokens = (s.unwindTo column).tokens := by
  have hunwind : ∀ (around : List Int) (s t : Lexer), t.tokens = s.tokens -> t.indent = s.indent ->
      (unwind column around t).tokens = (unwind column around s).tokens := by
    intro around
    induction around with
    | nil => exact fun _ _ htokens _ => htokens
    | cons indent rest ih =>
        intro s t htokens hindent
        rw [unwind, unwind, hindent]
        split
        · exact ih _ _ (congrArg (Token.blockEnd :: ·) htokens) rfl
        · exact htokens
  have hflow : t.inFlow = s.inFlow := by rw [inFlow, inFlow, hdepth]
  rw [unwindTo, unwindTo, hflow, houter]
  split
  · exact htokens
  · exact hunwind s.outer s t htokens hindent

theorem keepsPlace_unwindTo (column : Int) : KeepsPlace fun s => .ok (s.unwindTo column) := by
  refine .of_fun (unwindTo_within column) (fun s => (s.unwindTo_keeps column).1)
    (fun s k hk => ?_) fun s => (s.unwindTo_keeps column).2.2.2
  rw [(s.unwindTo_keeps column).2.1] at hk
  exact Or.inl hk

theorem keepsPlace_leave : KeepsPlace leave :=
  ((keepsPlace_unwindTo (-1)).bind keepsPlace_dropKey).bind
    (.of_fun (g := fun s => { s with keyAllowed := false }) (fun _ _ => rfl) (fun _ => rfl)
      (fun _ _ hk => Or.inl hk) fun _ hend => hend)

theorem beginEntry_eq_ok {s t : Lexer} {opening : Token} (h : s.beginEntry opening = .ok t) :
    t = s ∨ t = (s.openAt s.cursor.column).push opening := by
  unfold beginEntry at h
  split at h
  · cases h
    exact Or.inl rfl
  · split at h
    · cases h
    · dsimp only at h
      split at h
      · cases h
        exact Or.inr rfl
      · cases h
        exact Or.inl rfl

theorem keepsPlace_beginEntry {opening : Token} (hopening : opening ≠ .streamEnd) :
    KeepsPlace fun s => s.beginEntry opening where
  within s e := by
    unfold beginEntry
    show (if s.inFlow then Except.ok (s.within e)
      else if !s.keyAllowed then Except.error Fault.invalid
      else Except.ok (if s.opensAt s.cursor.column then
        ((s.openAt s.cursor.column).push opening).within e else s.within e)) = _
    split
    · rfl
    · split
      · rfl
      · dsimp only [Except.map]
        split <;> rfl
  cursor s t h := by
    rcases beginEntry_eq_ok h with rfl | rfl <;> rfl
  keys s t h k hk := by
    rcases beginEntry_eq_ok h with rfl | rfl <;> exact Or.inl hk
  tokens s t h hend := by
    rcases beginEntry_eq_ok h with rfl | rfl
    · exact hend
    · exact (List.mem_cons.mp hend).resolve_left hopening.symm

/-!
# Keys that are confirmed
-/

theorem mem_of_mem_insertAt {s : Lexer} {position : Nat} {t u : Token}
    (h : u ∈ (s.insertAt position t).tokens) : u = t ∨ u ∈ s.tokens := by
  rcases List.mem_append.mp h with htake | hdrop
  · exact Or.inr (List.mem_of_mem_take htake)
  · rcases List.mem_cons.mp hdrop with hhere | hdrop
    · exact Or.inl hhere
    · exact Or.inr (List.mem_of_mem_drop hdrop)

def takeKey (s : Lexer) : Except Fault Lexer :=
  match s.keys.find? fun k => k.depth == s.depth with
  | some k => .ok { (s.confirmKey k).push .value with keyAllowed := false }
  | none => do
    let s ← s.beginEntry .blockMappingStart
    let s ← s.dropKey
    return { s.push .value with keyAllowed := !s.inFlow }

theorem readColon_eq (s : Lexer) :
    s.readColon = (do
      let s ← s.takeKey
      return s.moveTo s.cursor.next) := by
  unfold readColon takeKey
  cases s.keys.find? fun k => k.depth == s.depth with
  | some k => rfl
  | none =>
      dsimp only
      cases s.beginEntry .blockMappingStart with
      | error fault => rfl
      | ok t =>
        show t.dropKey >>= _ = (t.dropKey >>= _) >>= _
        cases t.dropKey <;> rfl

def forgetKeys (s : Lexer) : Lexer :=
  { s with keys := s.keys.filter fun other => other.depth != s.depth }

def markKey (k : KeyStart) (s : Lexer) : Lexer :=
  let s := s.insertAt k.position .key
  if !s.inFlow && s.opensAt k.column then
    (s.openAt k.column).insertAt k.position .blockMappingStart
  else s

theorem confirmKey_eq (s : Lexer) (k : KeyStart) : s.confirmKey k = markKey k s.forgetKeys := rfl

theorem forgetKeys_within (s : Lexer) (e : Setting) :
    (s.within e).forgetKeys = s.forgetKeys.within e := by
  have hkeys : (s.within e).keys.filter (fun other => other.depth != s.depth) =
      (s.keys.filter fun other => other.depth != s.depth).map fun k => k.within e :=
    List.filter_map
  exact congrArg (fun keys => { s.within e with keys := keys }) hkeys

theorem markKey_within (k : KeyStart) (s : Lexer) (e : Setting) :
    markKey (k.within e) (s.within e) = (markKey k s).within e := by
  unfold markKey
  show (if !s.inFlow && s.opensAt k.column then _ else _) =
    Lexer.within (if !s.inFlow && s.opensAt k.column then _ else _) e
  split <;> rfl

theorem confirmKey_within (s : Lexer) (k : KeyStart) (e : Setting) :
    (s.within e).confirmKey (k.within e) = (s.confirmKey k).within e := by
  rw [confirmKey_eq, confirmKey_eq, forgetKeys_within, markKey_within]

theorem confirmKey_keeps (s : Lexer) (k : KeyStart) :
    (s.confirmKey k).cursor = s.cursor ∧ (∀ other ∈ (s.confirmKey k).keys, other ∈ s.keys) ∧
      (.streamEnd ∈ (s.confirmKey k).tokens -> .streamEnd ∈ s.tokens) := by
  have hfilter : ∀ other ∈ s.keys.filter (fun other => other.depth != s.depth), other ∈ s.keys :=
    fun _ hother => (List.mem_filter.mp hother).1
  unfold confirmKey
  dsimp only
  split
  · refine ⟨rfl, hfilter, fun hend => ?_⟩
    have hinner := (mem_of_mem_insertAt hend).resolve_left Token.noConfusion
    exact (mem_of_mem_insertAt hinner).resolve_left Token.noConfusion
  · exact ⟨rfl, hfilter, fun hend => (mem_of_mem_insertAt hend).resolve_left Token.noConfusion⟩

theorem keepsPlace_takeKey : KeepsPlace takeKey := by
  have hnew : KeepsPlace fun s => (do
      let s ← s.beginEntry .blockMappingStart
      let s ← s.dropKey
      return { s.push .value with keyAllowed := !s.inFlow }) :=
    ((keepsPlace_beginEntry Token.noConfusion).bind
      (keepsPlace_dropKey.bind (.push Token.noConfusion (fun s => !s.inFlow) fun _ _ => rfl)))
  have hfind : ∀ (s : Lexer) (e : Setting),
      ((s.within e).keys.find? fun k => k.depth == s.depth) =
        (s.keys.find? fun k => k.depth == s.depth).map fun k => k.within e := by
    intro s e
    exact List.find?_map
  refine ⟨fun s e => ?_, fun s t h => ?_, fun s t h => ?_, fun s t h => ?_⟩
  · unfold takeKey
    show (match (s.within e).keys.find? fun k => k.depth == s.depth with
      | some k => Except.ok { ((s.within e).confirmKey k).push .value with keyAllowed := false }
      | none => _) = _
    rw [hfind]
    cases s.keys.find? fun k => k.depth == s.depth with
    | some k =>
        dsimp only [Option.map_some]
        rw [confirmKey_within]
        rfl
    | none => exact hnew.within s e
  · unfold takeKey at h
    split at h
    · rename_i k _
      cases h
      exact (s.confirmKey_keeps k).1
    · exact hnew.cursor s t h
  · unfold takeKey at h
    split at h
    · rename_i k _
      cases h
      exact fun other hother => Or.inl ((s.confirmKey_keeps k).2.1 other hother)
    · exact hnew.keys s t h
  · unfold takeKey at h
    split at h
    · rename_i k _
      cases h
      exact fun hend => (s.confirmKey_keeps k).2.2
        ((List.mem_cons.mp hend).resolve_left Token.noConfusion)
    · exact hnew.tokens s t h

end Lexer

end Yaml
end TrafficGraph

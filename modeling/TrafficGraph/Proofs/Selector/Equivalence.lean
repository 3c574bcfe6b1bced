import TrafficGraph.Proofs.Json.Spelling
import TrafficGraph.Selector.Basic

/-!
# What canonical texts tell

Each part of a canonical text tells where it ends: quoted texts do, and so do fields,
objects and lists of such parts.  A canonical text can therefore be taken apart again,
and selectors with one canonical text differ at most in the order of their labels and of
their requirements.
-/

namespace TrafficGraph

/-!
# Texts that tell where they end
-/

/-- Whether what is written tells where it ends, whatever follows it. -/
def SelfDelimiting {α : Type} (write : α → List Char) : Prop :=
  ∀ a b u v, write a ++ u = write b ++ v -> a = b ∧ u = v

/-- Whether what is written begins with another character than a given one. -/
def BeginsApart {α : Type} (c : Char) (write : α → List Char) : Prop :=
  ∀ a, ∃ first rest, write a = first :: rest ∧ first ≠ c

namespace SelfDelimiting

variable {α : Type} {write : α → List Char}

theorem inj (h : SelfDelimiting write) {a b : α} (hab : write a = write b) : a = b :=
  (h a b [] [] (by rw [hab])).1

theorem quotedText : SelfDelimiting fun s : String => Json.quote s.toList := by
  intro s t u v h
  rcases Json.quote_append_inj h with ⟨hchars, huv⟩
  exact ⟨String.toList_inj.mp hchars, huv⟩

theorem field (name : List Char) (h : SelfDelimiting write) :
    SelfDelimiting fun a => Selector.canonicalField name (write a) := by
  intro a b u v hab
  simp only [Selector.canonicalField, List.append_assoc, List.cons_append] at hab
  have hvalue := (Json.quote_append_inj hab).2
  exact h a b u v (List.cons.inj hvalue).2

/-- The pieces of a joined text can be told if the text ends with another character than
they begin with. -/
theorem joinPieces (h : SelfDelimiting write) {closing : Char} (hcomma : closing ≠ ',')
    (hapart : BeginsApart closing write) {xs ys : List α} {u v : List Char}
    (heq : Text.joinPieces ',' (xs.map write) ++ closing :: u =
      Text.joinPieces ',' (ys.map write) ++ closing :: v) : xs = ys ∧ u = v := by
  have hnone : ∀ {y : α} {rest w : List Char}, closing :: w ≠ write y ++ rest := by
    intro y rest w hclosing
    rcases hapart y with ⟨first, more, hwrite, hne⟩
    rw [hwrite] at hclosing
    exact hne (List.cons.inj hclosing).1.symm
  -- a piece is followed by a comma and the other pieces, or it is the last one
  have hcons : ∀ (x : α) (rest : List α) (w : List Char),
      Text.joinPieces ',' ((x :: rest).map write) ++ closing :: w =
        write x ++ ((if rest = [] then [] else ',' :: Text.joinPieces ',' (rest.map write)) ++
          closing :: w) := by
    intro x rest w
    cases rest with
    | nil => rfl
    | cons y more =>
        rw [List.map_cons, List.map_cons, Text.joinPieces_cons_cons, List.append_assoc,
          if_neg (List.cons_ne_nil y more)]
  induction xs generalizing ys with
  | nil =>
      cases ys with
      | nil => exact ⟨rfl, (List.cons.inj heq).2⟩
      | cons y more =>
          rw [hcons] at heq
          exact absurd heq hnone
  | cons x rest ih =>
      cases ys with
      | nil =>
          rw [hcons] at heq
          exact absurd heq.symm hnone
      | cons y more =>
          rw [hcons, hcons] at heq
          rcases h x y _ _ heq with ⟨rfl, htail⟩
          by_cases hrest : rest = []
          · by_cases hmore : more = []
            · rw [if_pos hrest, if_pos hmore] at htail
              exact ⟨by rw [hrest, hmore], (List.cons.inj htail).2⟩
            · rw [if_pos hrest, if_neg hmore] at htail
              exact absurd (List.cons.inj htail).1 hcomma
          · by_cases hmore : more = []
            · rw [if_neg hrest, if_pos hmore] at htail
              exact absurd (List.cons.inj htail).1.symm hcomma
            · rw [if_neg hrest, if_neg hmore] at htail
              rcases ih (List.cons.inj htail).2 with ⟨hrests, huv⟩
              exact ⟨by rw [hrests], huv⟩

theorem enclose (h : SelfDelimiting write) (opening : Char) {closing : Char}
    (hcomma : closing ≠ ',') (hapart : BeginsApart closing write) :
    SelfDelimiting fun xs : List α => Selector.enclose opening closing (xs.map write) := by
  intro xs ys u v heq
  simp only [Selector.enclose, List.cons_append, List.append_assoc, List.nil_append] at heq
  exact h.joinPieces hcomma hapart (List.cons.inj heq).2

end SelfDelimiting

theorem BeginsApart.quotedText {c : Char} (h : Json.mark ≠ c) :
    BeginsApart c fun s : String => Json.quote s.toList :=
  fun _ => ⟨Json.mark, _, rfl, h⟩

/-!
# Selectors
-/

namespace Selector

/-- Whether two selectors differ at most in the order of their labels and of their
requirements. -/
structure Equivalent (a b : Selector) : Prop where
  labels : Option.Rel (fun first second => first.entries.Perm second.entries) a.labels b.labels
  requirements : Option.Rel List.Perm a.requirements b.requirements

def labelChars (entry : String × String) : List Char :=
  canonicalField entry.1.toList (Json.quote entry.2.toList)

theorem selfDelimiting_labelChars : SelfDelimiting labelChars := by
  rintro ⟨key, value⟩ ⟨key', value'⟩ u v h
  simp only [labelChars, canonicalField, List.append_assoc, List.cons_append] at h
  rcases Json.quote_append_inj h with ⟨hkey, hrest⟩
  rcases Json.quote_append_inj (List.cons.inj hrest).2 with ⟨hvalue, huv⟩
  exact ⟨Prod.ext (String.toList_inj.mp hkey) (String.toList_inj.mp hvalue), huv⟩

theorem selfDelimiting_canonicalRequirement : SelfDelimiting canonicalRequirement := by
  intro r s u v h
  have hvalues : SelfDelimiting fun values : List String =>
      canonicalList (values.map fun value => Json.quote value.toList) :=
    SelfDelimiting.quotedText.enclose '[' (by decide) (BeginsApart.quotedText (by decide))
  simp only [canonicalRequirement, canonicalObject, enclose, Text.joinPieces, List.cons_append,
    List.append_assoc, List.nil_append] at h
  rcases SelfDelimiting.quotedText.field _ _ _ _ _ (List.cons.inj h).2 with ⟨hkey, hrest⟩
  rcases SelfDelimiting.quotedText.field _ _ _ _ _ (List.cons.inj hrest).2 with
    ⟨hoperator, hlast⟩
  rcases hvalues.field _ _ _ _ _ (List.cons.inj hlast).2 with ⟨hlist, hend⟩
  rcases r with ⟨key, operator, values⟩
  rcases s with ⟨key', operator', values'⟩
  rw [Requirement.mk.injEq]
  exact ⟨⟨hkey, hoperator, hlist⟩, (List.cons.inj hend).2⟩

/-! ## The parts of a selector -/

abbrev Part := List Requirement ⊕ List (String × String)

def partChars : Part → List Char
  | .inl rs =>
    canonicalField "matchExpressions".toList (canonicalList (rs.map canonicalRequirement))
  | .inr entries => canonicalField "matchLabels".toList (canonicalObject (entries.map labelChars))

def parts (s : Selector) : List Part :=
  (s.requirements.map fun rs => Sum.inl (Sorting.sort requirementBelow rs)).toList ++
    (s.labels.map fun labels => Sum.inr (Sorting.sort labelBelow labels.entries)).toList

theorem canonicalFields_eq (s : Selector) : canonicalFields s = s.parts.map partChars := by
  rcases s with ⟨labels, requirements⟩
  cases labels <;> cases requirements <;> rfl

theorem filterMap_getLeft?_parts (s : Selector) :
    s.parts.filterMap Sum.getLeft? =
      (s.requirements.map (Sorting.sort requirementBelow)).toList := by
  rcases s with ⟨labels, requirements⟩
  cases labels <;> cases requirements <;> rfl

theorem filterMap_getRight?_parts (s : Selector) :
    s.parts.filterMap Sum.getRight? =
      (s.labels.map fun labels => Sorting.sort labelBelow labels.entries).toList := by
  rcases s with ⟨labels, requirements⟩
  cases labels <;> cases requirements <;> rfl

theorem selfDelimiting_partChars : SelfDelimiting partChars := by
  have hrequirements : SelfDelimiting fun rs : List Requirement =>
      canonicalList (rs.map canonicalRequirement) :=
    selfDelimiting_canonicalRequirement.enclose '[' (by decide)
      fun _ => ⟨'\x7b', _, rfl, by decide⟩
  have hlabels : SelfDelimiting fun entries : List (String × String) =>
      canonicalObject (entries.map labelChars) :=
    selfDelimiting_labelChars.enclose '\x7b' (by decide) fun _ => ⟨Json.mark, _, rfl, by decide⟩
  intro a b u v h
  cases a with
  | inl rs =>
      cases b with
      | inl rs' =>
          rcases hrequirements.field _ _ _ _ _ h with ⟨heq, huv⟩
          exact ⟨by rw [heq], huv⟩
      | inr entries =>
          simp only [partChars, canonicalField, List.append_assoc, List.cons_append] at h
          exact absurd (Json.quote_append_inj h).1 (by decide)
  | inr entries =>
      cases b with
      | inl rs =>
          simp only [partChars, canonicalField, List.append_assoc, List.cons_append] at h
          exact absurd (Json.quote_append_inj h).1 (by decide)
      | inr entries' =>
          rcases hlabels.field _ _ _ _ _ h with ⟨heq, huv⟩
          exact ⟨by rw [heq], huv⟩

theorem parts_eq_of_canonicalChars_eq {a b : Option Selector}
    (h : canonicalChars a = canonicalChars b) :
    (a.getD blank).parts = (b.getD blank).parts := by
  have hobject : SelfDelimiting fun ps : List Part => canonicalObject (ps.map partChars) :=
    selfDelimiting_partChars.enclose '\x7b' (by decide) fun part => by
      cases part with
      | inl rs => exact ⟨Json.mark, _, rfl, by decide⟩
      | inr entries => exact ⟨Json.mark, _, rfl, by decide⟩
  unfold canonicalChars at h
  rw [canonicalFields_eq, canonicalFields_eq] at h
  exact hobject.inj h

theorem perm_of_sort_eq {α : Type} {below : α → α → Bool} {xs ys : List α}
    (h : Sorting.sort below xs = Sorting.sort below ys) : xs.Perm ys :=
  (Sorting.perm_sort below xs).symm.trans (h ▸ Sorting.perm_sort below ys)

theorem eq_of_toList_eq {α : Type} {o p : Option α} (h : o.toList = p.toList) : o = p := by
  cases o <;> cases p <;> simp_all

theorem equivalent_of_canonical_eq {a b : Option Selector} (h : canonical a = canonical b) :
    (a.getD blank).Equivalent (b.getD blank) := by
  have hparts := parts_eq_of_canonicalChars_eq (String.ofList_injective h)
  generalize a.getD blank = s at hparts
  generalize b.getD blank = t at hparts
  rcases s with ⟨labels, requirements⟩
  rcases t with ⟨labels', requirements'⟩
  have hrequirements := congrArg (List.filterMap Sum.getLeft?) hparts
  have hlabels := congrArg (List.filterMap Sum.getRight?) hparts
  rw [filterMap_getLeft?_parts, filterMap_getLeft?_parts] at hrequirements
  rw [filterMap_getRight?_parts, filterMap_getRight?_parts] at hlabels
  replace hrequirements := eq_of_toList_eq hrequirements
  replace hlabels := eq_of_toList_eq hlabels
  constructor
  · cases labels <;> cases labels' <;> simp only [Option.map_some, Option.map_none, reduceCtorEq,
      Option.some_inj] at hlabels
    · exact .none
    · exact .some (perm_of_sort_eq hlabels)
  · cases requirements <;> cases requirements' <;> simp only [Option.map_some, Option.map_none,
      reduceCtorEq, Option.some_inj] at hrequirements
    · exact .none
    · exact .some (perm_of_sort_eq hrequirements)

end Selector
end TrafficGraph

import TrafficGraph.Proofs.Policy.Documents
import TrafficGraph.Proofs.Policy.Refusal
import TrafficGraph.Proofs.Yaml.Acceptance

/-!
# Trimmed documents

A document is trimmed before it is decoded, so what counts is what the trimmed document says.
In a format in which indentation and line breaks count, that is the same if whole lines are
taken off the front of it, nothing but spaces and line breaks are taken off at all, and it does
not end in a block scalar.  In other documents the first line may lose its indentation, and the
last scalar its end.
-/

namespace TrafficGraph

namespace Text

/-!
# What is trimmed
-/

def trimmedFront (cs : List Char) : List Char := cs.takeWhile isBlank

def trimmedBack (cs : List Char) : List Char := ((trimFront cs).reverse.takeWhile isBlank).reverse

theorem trim_append_trimmedBack (cs : List Char) : trim cs ++ trimmedBack cs = trimFront cs := by
  rw [trim, trimBack, trimmedBack, ← List.reverse_append, List.takeWhile_append_dropWhile,
    List.reverse_reverse]

theorem trimmedFront_append (cs : List Char) :
    trimmedFront cs ++ (trim cs ++ trimmedBack cs) = cs := by
  rw [trim_append_trimmedBack, trimmedFront, trimFront, List.takeWhile_append_dropWhile]

theorem isBlank_of_head?_dropWhile {cs : List Char} {x : Char}
    (h : x ∈ (cs.dropWhile isBlank).head?) : isBlank x = false := by
  have hnot := List.head?_dropWhile_not isBlank cs
  rw [h] at hnot
  exact hnot

theorem isBlank_of_head?_trim {cs : List Char} {x : Char} (h : x ∈ (trim cs).head?) :
    isBlank x = false := by
  have hfront : x ∈ (trimFront cs).head? := by
    rw [← trim_append_trimmedBack, List.head?_append, h]
    rfl
  exact isBlank_of_head?_dropWhile hfront

theorem isBlank_of_getLast?_trim {cs : List Char} {x : Char} (h : x ∈ (trim cs).getLast?) :
    isBlank x = false := by
  rw [trim, trimBack, List.getLast?_reverse] at h
  exact isBlank_of_head?_dropWhile h

end Text

namespace Manifest

open Text

/-!
# Margins
-/

/-- What is relied on of a way of decoding documents, some of which end in a block scalar: blank
lines in front of a document do not count, and neither does spacing behind it, unless it ends in
a block scalar, which takes line breaks behind it for its own. -/
structure SkipsMargins (decode : Decoder) (endsInBlock : List Char → Prop) : Prop where
  empty : decode "" = .ok .null
  front : ∀ {before text : List Char} {v : Value}, (∀ x ∈ before, Yaml.isSpacing x = true) →
    (∀ x ∈ before.getLast?, Yaml.isBreak x = true) →
    (∃ x more, text = x :: more ∧ isBlank x = false ∧ x ≠ '\uFEFF') →
    (∀ x ∈ text.getLast?, isBlank x = false) → ¬ endsInBlock text →
    decode (String.ofList (before ++ text)) = .ok v → decode (String.ofList text) = .ok v
  back : ∀ {text after : List Char} {v : Value}, (∀ x ∈ text.getLast?, isBlank x = false) →
    (∀ x ∈ after, Yaml.isSpacing x = true) → ¬ endsInBlock text →
    decode (String.ofList (text ++ after)) = .ok v → decode (String.ofList text) = .ok v

theorem yaml_eq_ok_iff {doc : String} {v : Value} : yaml doc = .ok v ↔ Yaml.decode doc = .ok v := by
  unfold yaml
  cases Yaml.decode doc <;> simp [Except.mapError]

/-- YAML skips the margins of documents. -/
theorem skipsMargins_yaml :
    SkipsMargins yaml fun cs => Yaml.endsInBlockScalar cs = true where
  empty := rfl
  front := by
    intro before text v hbefore hlines hfirst hlast hblock hdecode
    rw [yaml_eq_ok_iff] at hdecode ⊢
    have hframed : Yaml.Framed before text [] :=
      ⟨hbefore, hlines, Or.inr hfirst, hlast, (fun _ hx => nomatch hx), by simpa using hblock⟩
    refine Yaml.decode_of_framed hframed ?_
    rwa [List.append_nil]
  back := by
    intro text after v hlast hafter hblock hdecode
    rw [yaml_eq_ok_iff] at hdecode ⊢
    have hframed : Yaml.Framed [] text after :=
      ⟨(fun _ hx => nomatch hx), (fun _ hx => nomatch hx), Or.inl rfl, hlast, hafter,
        by simpa using hblock⟩
    exact Yaml.decode_of_framed hframed hdecode

/-- Whether nothing that counts is trimmed off a document. -/
structure TrimsSafely (endsInBlock : List Char → Prop) (cs : List Char) : Prop where
  spacing : (trimmedFront cs ++ trimmedBack cs).all Yaml.isSpacing = true
  wholeLines : trim cs = [] ∨ (trimmedFront cs).getLast?.all Yaml.isBreak = true
  /-- A byte order mark behind blank lines would come to the front. -/
  noMark : trimmedFront cs = [] ∨ (trim cs).head? ≠ some '\uFEFF'
  noBlock : ¬ endsInBlock (trim cs)
  noBlockBehind : ¬ endsInBlock (trimmedFront cs ++ trim cs)

namespace TrimsSafely

variable {endsInBlock : List Char → Prop} {cs : List Char}

theorem isSpacing_of_mem (h : TrimsSafely endsInBlock cs) :
    ∀ x ∈ trimmedFront cs ++ trimmedBack cs, Yaml.isSpacing x = true :=
  List.all_eq_true.mp h.spacing

theorem decode_front {decode : Decoder} (h : TrimsSafely endsInBlock cs)
    (hskips : SkipsMargins decode endsInBlock) (hne : trim cs ≠ []) {v : Value}
    (hdecode : decode (String.ofList cs) = .ok v) :
    decode (String.ofList (trimmedFront cs ++ trim cs)) = .ok v := by
  refine hskips.back ?_ (fun x hx => h.isSpacing_of_mem x (List.mem_append_right _ hx))
    h.noBlockBehind ?_
  · intro x hx
    rw [List.getLast?_append, List.getLast?_eq_some_getLast hne, Option.some_or] at hx
    exact isBlank_of_getLast?_trim (List.getLast?_eq_some_getLast hne ▸ hx)
  · rwa [List.append_assoc, trimmedFront_append]

theorem decode_trim {decode : Decoder} (h : TrimsSafely endsInBlock cs)
    (hskips : SkipsMargins decode endsInBlock) (hne : trim cs ≠ []) {v : Value}
    (hdecode : decode (String.ofList cs) = .ok v) :
    decode (String.ofList (trim cs)) = .ok v := by
  have hfront := h.decode_front hskips hne hdecode
  rcases h.noMark with hnone | hmark
  · rwa [hnone, List.nil_append] at hfront
  · rcases List.exists_cons_of_ne_nil hne with ⟨x, more, htrim⟩
    have hhead : x ∈ (trim cs).head? := by
      rw [htrim]
      rfl
    refine hskips.front (fun y hy => h.isSpacing_of_mem y (List.mem_append_left _ hy)) ?_
      ⟨x, more, htrim, isBlank_of_head?_trim hhead, ?_⟩ (fun y => isBlank_of_getLast?_trim)
      h.noBlock hfront
    · intro y hy
      have hlast := h.wholeLines.resolve_left hne
      rwa [hy, Option.all_some] at hlast
    · rintro rfl
      exact hmark hhead

theorem decode_blank {decode : Decoder} (h : TrimsSafely endsInBlock cs)
    (hskips : SkipsMargins decode endsInBlock) (hempty : trim cs = []) {v : Value}
    (hdecode : decode (String.ofList cs) = .ok v) : v = .null := by
  have hsplit := trimmedFront_append cs
  rw [hempty, List.nil_append] at hsplit
  have hnothing : decode (String.ofList []) = .ok v := by
    refine hskips.back (fun _ hx => nomatch hx) h.isSpacing_of_mem (hempty ▸ h.noBlock) ?_
    rwa [List.nil_append, hsplit]
  exact Except.ok.inj (hnothing.symm.trans hskips.empty)

end TrimsSafely

/-!
# Policies of a document
-/

/-- Whether an item stands for a policy: it is a mapping of that kind, or of none. -/
def isPolicy (item : Value) : Bool := item.isMap && (kindOf item).same policyKind

/-- The policies that the items of a document stand for, in order, if all of them can be
written. -/
def policiesOf (v : Value) : Except Fault (List Policy) :=
  (((itemsOf v).filter isPolicy).mapM Policy.read).mapError .conversion

theorem Loading.append_nothing (loading : Loading) : loading.append .nothing = loading := by
  rcases loading with ⟨policies, journal, fault⟩
  cases fault <;> simp [append, nothing]

theorem Loading.result_append (first second : Loading) :
    (first.append second).result = (do return (← first.result) ++ (← second.result)) := by
  rcases first with ⟨policies, journal, fault⟩
  cases fault with
  | some fault => rfl
  | none =>
      rcases second with ⟨policies', journal', fault'⟩
      cases fault' <;> rfl

theorem result_readItem (index : Nat) (item : Value) :
    (readItem index item).result =
      if isPolicy item then ((Policy.read item).map ([·])).mapError .conversion else .ok [] := by
  unfold readItem isPolicy
  cases hmap : item.isMap with
  | false => rfl
  | true =>
      cases hkind : (kindOf item).same policyKind with
      | false => simp [hkind, Loading.result]
      | true =>
          simp only [hkind, Bool.and_self, if_true]
          cases Policy.read item <;> rfl

theorem result_readItems (index : Nat) (items : List Value) :
    (readItems index items).result =
      ((items.filter isPolicy).mapM Policy.read).mapError .conversion := by
  induction items with
  | nil => rfl
  | cons item rest ih =>
      rw [readItems, Loading.result_append, result_readItem, ih, List.filter_cons]
      split
      · rw [List.mapM_cons]
        cases Policy.read item with
        | error fault => rfl
        | ok policy => cases (rest.filter isPolicy).mapM Policy.read <;> rfl
      · cases (rest.filter isPolicy).mapM Policy.read <;> rfl

/-!
# Texts of one document
-/

theorem groups_of_separator_notMem {ls : List (List Char)} (h : separator ∉ ls) :
    groups ls = [ls] := by
  induction ls with
  | nil => rfl
  | cons line rest ih =>
      rw [List.mem_cons, not_or] at h
      exact groups_cons_of_ne (Ne.symm h.1) (ih h.2)

theorem documents_of_separator_notMem {cs : List Char} (h : separator ∉ lines cs) :
    documents cs = [trim cs].filter fun doc => !doc.isEmpty := by
  rw [documents, groups_of_separator_notMem h, List.map_singleton, unlines_lines]

/-- What a text says when it is trimmed: nothing if it is blank, and else the policies of the
document that is left of it. -/
def trimmedResult (decode : Decoder) (cs : List Char) : Except Fault (List Policy) :=
  if trim cs = [] then .ok []
  else
    match decode (String.ofList (trim cs)) with
    | .error refusal => .error (faultOf 0 refusal)
    | .ok v => policiesOf v

theorem result_loadWith_of_separator_notMem (decode : Decoder) {text : String}
    (h : separator ∉ lines text.toList) :
    (loadWith decode text).result = trimmedResult decode text.toList := by
  rw [loadWith, documents_of_separator_notMem h, trimmedResult]
  split
  · rename_i hempty
    rw [hempty]
    rfl
  · rename_i hne
    rw [List.filter_cons_of_pos (by simpa using hne), List.filter_nil, readDocuments,
      readDocuments_nil, Loading.append_nothing, readDocument]
    cases decode (String.ofList (trim text.toList)) with
    | error refusal => rfl
    | ok v => exact result_readItems 0 (itemsOf v)

/-- A text without a separator is read as what it says when it is trimmed.  That is what it says
as it stands if the margins of documents do not count and trimming takes nothing else off. -/
theorem loadWith_eq_policiesOf (decode : Decoder) {text : String}
    (hseparator : separator ∉ lines text.toList) :
    (loadWith decode text).result = trimmedResult decode text.toList ∧
      ∀ endsInBlock v, SkipsMargins decode endsInBlock -> TrimsSafely endsInBlock text.toList ->
        decode text = .ok v -> (loadWith decode text).result = policiesOf v := by
  have hresult := result_loadWith_of_separator_notMem decode hseparator
  refine ⟨hresult, ?_⟩
  intro endsInBlock v hskips htrim hdecode
  rw [← String.ofList_toList (s := text)] at hdecode
  rw [hresult, trimmedResult]
  split
  · rename_i hempty
    rw [htrim.decode_blank hskips hempty hdecode]
    rfl
  · rename_i hne
    rw [htrim.decode_trim hskips hne hdecode]

theorem exists_yaml_of_names {text : String} {names : List String}
    (h : ((yaml text).toOption.bind fun v => (policiesOf v).toOption.map (List.map Policy.name)) =
      some names) :
    ∃ v, yaml text = .ok v ∧ (policiesOf v).map (List.map Policy.name) = .ok names := by
  cases hdecode : yaml text with
  | error refusal =>
      rw [hdecode] at h
      cases h
  | ok v =>
      rw [hdecode] at h
      refine ⟨v, rfl, ?_⟩
      change (policiesOf v).toOption.map (List.map Policy.name) = some names at h
      cases hpolicies : policiesOf v with
      | error fault =>
          rw [hpolicies] at h
          cases h
      | ok ps =>
          rw [hpolicies] at h
          exact congrArg Except.ok (Option.some.inj h)

/-- Blank lines in front, blank lines behind and a block scalar in the middle are no harm. -/
theorem load_looseText :
    let text := "\n  \r\n# ours\nmetadata:\n  note: |+\n    one\n\n  name: web\nspec: \x7b\x7d\n \n"
    let endsInBlock := fun cs => Yaml.endsInBlockScalar cs = true
    separator ∉ lines text.toList ∧ SkipsMargins yaml endsInBlock ∧
      TrimsSafely endsInBlock text.toList ∧
      ∃ v, yaml text = .ok v ∧ (policiesOf v).map (List.map Policy.name) = .ok ["web"] ∧
        (loadWith yaml text).result = policiesOf v := by
  intro text endsInBlock
  have hseparator : separator ∉ lines text.toList := by decide +kernel
  have htrim : TrimsSafely endsInBlock text.toList :=
    ⟨by decide +kernel, by decide +kernel, by decide +kernel, by decide +kernel, by decide +kernel⟩
  have hnames : ((yaml text).toOption.bind fun v =>
      (policiesOf v).toOption.map (List.map Policy.name)) = some ["web"] := by decide +kernel
  rcases exists_yaml_of_names hnames with ⟨v, hdecode, hnames⟩
  exact ⟨hseparator, skipsMargins_yaml, htrim, v, hdecode, hnames,
    (loadWith_eq_policiesOf yaml hseparator).2 endsInBlock v skipsMargins_yaml htrim hdecode⟩

/-- The first line of a document loses its indentation, and the others do not; a block scalar
at the end loses its last line break. -/
theorem load_trimmedText :
    let indented := "  metadata:\n    name: a\n  spec: \x7b\x7d\n"
    let scalar := "metadata:\n  name: |\n    a\n"
    (separator ∉ lines indented.toList ∧
      (∃ v, yaml indented = .ok v ∧ (policiesOf v).map (List.map Policy.name) = .ok ["a"]) ∧
      (load indented).result = .error (.invalidDocument 0 "")) ∧
    separator ∉ lines scalar.toList ∧
      (∃ v, yaml scalar = .ok v ∧ (policiesOf v).map (List.map Policy.name) = .ok ["a\n"]) ∧
      ∃ ps, (load scalar).result = .ok ps ∧ ps.map Policy.name = ["a"] := by
  intro indented scalar
  have hfault : (load indented).fault = some (.invalidDocument 0 "") := by decide +kernel
  have hscalar : (load scalar).fault = none ∧
      (load scalar).policies.map Policy.name = ["a"] := by decide +kernel
  refine ⟨⟨by decide +kernel, exists_yaml_of_names (by decide +kernel),
    Loading.result_eq_error_iff.mpr hfault⟩, by decide +kernel,
    exists_yaml_of_names (by decide +kernel), (load scalar).policies, ?_, hscalar.2⟩
  rw [Loading.result, hscalar.1]

end Manifest
end TrafficGraph

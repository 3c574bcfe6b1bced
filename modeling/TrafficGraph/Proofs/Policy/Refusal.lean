import TrafficGraph.Command.Run
import TrafficGraph.Http.Answer

/-!
# Manifests that are refused

The reading of a manifest ends at the first document that is not decoded, or that holds a policy
with a scalar that cannot be written.  If that one is no valid document, all callers tell its
index: both routes answer that the request cannot be processed, and the command shows a message,
if its console can show it.  If a scalar in it cannot be converted or written, none of them does,
and the fault breaks them off.
-/

namespace TrafficGraph
namespace Manifest

/-!
# The first document that is refused
-/

def itemRefusal? (item : Value) : Option Refusal :=
  if item.isMap && (kindOf item).same policyKind then
    match Policy.read item with
    | .ok _ => none
    | .error fault => some (.conversion fault)
  else none

/-- Why a document is not read to its end: it is not decoded, or one of its items is not
read. -/
def refusal? (decode : Decoder) (doc : List Char) : Option Refusal :=
  match decode (String.ofList doc) with
  | .error refusal => some refusal
  | .ok v => (itemsOf v).findSome? itemRefusal?

/-- Whether the document of an index is the first one of a text that is refused, and for which
reason. -/
def FailsAt (decode : Decoder) (text : String) (index : Nat) (reason : Refusal) : Prop :=
  ∃ before doc after, documents text.toList = before ++ doc :: after ∧ before.length = index ∧
    (∀ d ∈ before, refusal? decode d = none) ∧ refusal? decode doc = some reason

theorem exists_first_refusal (decode : Decoder) (docs : List (List Char)) :
    (∀ doc ∈ docs, refusal? decode doc = none) ∨
      ∃ before doc after reason, docs = before ++ doc :: after ∧
        (∀ d ∈ before, refusal? decode d = none) ∧ refusal? decode doc = some reason := by
  induction docs with
  | nil => exact Or.inl (by simp)
  | cons first rest ih =>
      cases hfirst : refusal? decode first with
      | some reason => exact Or.inr ⟨[], first, rest, reason, rfl, by simp, hfirst⟩
      | none =>
          rcases ih with hrest | ⟨before, doc, after, reason, rfl, hbefore, hdoc⟩
          · exact Or.inl (List.forall_mem_cons.mpr ⟨hfirst, hrest⟩)
          · exact Or.inr ⟨first :: before, doc, after, reason, rfl,
              List.forall_mem_cons.mpr ⟨hfirst, hbefore⟩, hdoc⟩

/-!
# Loading
-/

theorem Loading.fault_append (first second : Loading) :
    (first.append second).fault = first.fault.or second.fault := by
  unfold append
  cases hfault : first.fault <;> simp [hfault]

theorem fault_readItem (index : Nat) (item : Value) :
    (readItem index item).fault = (itemRefusal? item).map (faultOf index) := by
  unfold readItem itemRefusal?
  cases hmap : item.isMap with
  | false => simp
  | true =>
      cases hkind : (kindOf item).same policyKind with
      | false => simp [hkind]
      | true => cases hread : Policy.read item <;> simp [hkind, faultOf]

theorem fault_readItems (index : Nat) (items : List Value) :
    (readItems index items).fault = (items.findSome? itemRefusal?).map (faultOf index) := by
  induction items with
  | nil => rfl
  | cons item rest ih =>
      rw [readItems, Loading.fault_append, fault_readItem, ih, List.findSome?_cons]
      cases itemRefusal? item <;> rfl

theorem fault_readDocument (decode : Decoder) (index : Nat) (doc : List Char) :
    (readDocument decode index doc).fault = (refusal? decode doc).map (faultOf index) := by
  unfold readDocument refusal?
  cases decode (String.ofList doc) with
  | error refusal => rfl
  | ok v => exact fault_readItems index (itemsOf v)

theorem fault_readDocuments_append {decode : Decoder} {before : List (List Char)}
    (h : ∀ d ∈ before, refusal? decode d = none) (start : Nat) (docs : List (List Char)) :
    (readDocuments decode start (before ++ docs)).fault =
      (readDocuments decode (start + before.length) docs).fault := by
  induction before generalizing start with
  | nil => rfl
  | cons doc rest ih =>
      rw [List.forall_mem_cons] at h
      rw [List.cons_append, readDocuments, Loading.fault_append, fault_readDocument, h.1,
        Option.map_none, Option.none_or, List.length_cons, Nat.add_comm rest.length 1,
        ← Nat.add_assoc]
      exact ih h.2 (start + 1)

theorem Loading.result_eq_error_iff {loading : Loading} {fault : Fault} :
    loading.result = .error fault ↔ loading.fault = some fault := by
  unfold result
  cases loading.fault <;> simp

theorem FailsAt.result_eq {decode : Decoder} {text : String} {index : Nat} {reason : Refusal}
    (h : FailsAt decode text index reason) :
    (loadWith decode text).result = .error (faultOf index reason) := by
  rcases h with ⟨before, doc, after, hdocs, rfl, hbefore, hdoc⟩
  rw [Loading.result_eq_error_iff, loadWith, hdocs, fault_readDocuments_append hbefore,
    readDocuments, Loading.fault_append, fault_readDocument, hdoc, Nat.zero_add]
  rfl

theorem loads_or_failsAt (decode : Decoder) (text : String) :
    (∃ policies, (loadWith decode text).result = .ok policies) ∨
      ∃ index reason, FailsAt decode text index reason := by
  rcases exists_first_refusal decode (documents text.toList) with
    hall | ⟨before, doc, after, reason, hdocs, hbefore, hdoc⟩
  · left
    have hfault : (loadWith decode text).fault = none := by
      have hrun := fault_readDocuments_append hall 0 []
      rw [List.append_nil] at hrun
      exact hrun
    refine ⟨(loadWith decode text).policies, ?_⟩
    rw [Loading.result, hfault]
  · exact Or.inr ⟨before.length, reason, before, doc, after, hdocs, rfl, hbefore, hdoc⟩

/-- Whether a text is loaded, or one of its documents is refused as not valid. -/
def LoadsOrRefuses (decode : Decoder) (text : String) : Prop :=
  (∃ policies, (loadWith decode text).result = .ok policies) ∨
    ∃ index message, FailsAt decode text index (.invalid message)

theorem loadsOrRefuses_iff (decode : Decoder) (text : String) :
    LoadsOrRefuses decode text ↔
      ∀ index fault, ¬ FailsAt decode text index (.conversion fault) := by
  constructor
  · rintro hloads index fault hfails
    have hresult := hfails.result_eq
    rcases hloads with ⟨policies, hloads⟩ | ⟨other, message, hrefused⟩
    · cases hloads.symm.trans hresult
    · cases hrefused.result_eq.symm.trans hresult
  · intro h
    rcases loads_or_failsAt decode text with hloads | ⟨index, reason, hfails⟩
    · exact Or.inl hloads
    · cases reason with
      | invalid message => exact Or.inr ⟨index, message, hfails⟩
      | conversion fault => exact absurd hfails (h index fault)

end Manifest

/-!
# Callers

A reply and the outcome of a command depend on how the text is loaded.
-/

namespace Http

/-- Whether a reply is about the policies of a text, or tells which document is not valid. -/
def Reply.Settles (reply : Reply) (decode : Manifest.Decoder) (text : String)
    (document : List Policy → Except Fault Value) : Prop :=
  (∃ policies, (Manifest.loadWith decode text).result = .ok policies ∧
      reply = .ofValue (document policies)) ∨
    ∃ index message, Manifest.FailsAt decode text index (.invalid message) ∧
      reply = .detail Reply.unprocessableStatus (.text (Fault.documentMessage index message))

theorem replyWith_policies (decode : Manifest.Decoder) (deduplicate : Bool) {body text : String}
    (h : (readBody body).bind readManifest = .ok text) :
    replyWith decode deduplicate ⟨"POST", "/api/policies/parse", body⟩ =
      withPolicies decode text policiesDocument := by
  have hroute : routeOf? "/api/policies/parse" = some .policies := by decide +kernel
  have hreply : replyWith decode deduplicate ⟨"POST", "/api/policies/parse", body⟩ =
      replyPolicies decode body := by
    unfold replyWith
    simp only [hroute]
    rfl
  rw [hreply, replyPolicies, h]

theorem replyWith_graph (decode : Manifest.Decoder) (deduplicate : Bool) {body : String}
    {query : GraphQuery} (h : (readBody body).bind readGraphQuery = .ok query) :
    replyWith decode deduplicate ⟨"POST", "/api/graph", body⟩ =
      withPolicies decode query.manifest
        (graphDocument (query.deduplicate.getD deduplicate) query.shown) := by
  have hroute : routeOf? "/api/graph" = some .graph := by decide +kernel
  have hreply : replyWith decode deduplicate ⟨"POST", "/api/graph", body⟩ =
      replyGraph decode deduplicate body := by
    unfold replyWith
    simp only [hroute]
    rfl
  rw [hreply, replyGraph, h]

theorem settles_withPolicies {decode : Manifest.Decoder} {text : String}
    (h : Manifest.LoadsOrRefuses decode text) (document : List Policy → Except Fault Value) :
    (withPolicies decode text document).Settles decode text document := by
  rcases h with ⟨policies, hloads⟩ | ⟨index, message, hfails⟩
  · refine Or.inl ⟨policies, hloads, ?_⟩
    rw [withPolicies, hloads]
  · refine Or.inr ⟨index, message, hfails, ?_⟩
    rw [withPolicies, hfails.result_eq]
    rfl

end Http

/-- Whether a file holds a text, with line ends of any kind. -/
def FileTree.Holds (tree : FileTree) (path text : String) : Prop :=
  ∃ bytes cs, tree.read (Path.ofString path).text = .ok bytes ∧
    Text.Utf8.decode bytes = some cs ∧ String.ofList (Text.unifyLineEnds cs) = text

namespace FileLoading

variable {decode : Manifest.Decoder} {tree : FileTree}

theorem refusal_ofFile {path text : String} (h : tree.Holds path text) :
    (ofFile decode tree path).refusal =
      (Manifest.loadWith decode text).fault.map (refusalOf path) := by
  rcases h with ⟨bytes, cs, hread, hchars, rfl⟩
  unfold ofFile
  simp only [hread, Manifest.loadBytesWith, hchars]

theorem refusal_append_of_none {first : FileLoading} (h : first.refusal = none)
    (second : FileLoading) : (first.append second).refusal = second.refusal := by
  rw [append, h]

theorem append_of_some {first : FileLoading} {outcome : Outcome}
    (h : first.refusal = some outcome) (second : FileLoading) : first.append second = first := by
  rw [append, h]

theorem refusal_ofFiles_append {before : List String}
    (h : ∀ path ∈ before, (ofFile decode tree path).refusal = none) (paths : List String) :
    (ofFiles decode tree (before ++ paths)).refusal = (ofFiles decode tree paths).refusal := by
  induction before with
  | nil => rfl
  | cons path rest ih =>
      rw [List.forall_mem_cons] at h
      rw [List.cons_append, ofFiles, refusal_append_of_none h.1]
      exact ih h.2

theorem refusal_ofFiles_cons {path : String} {outcome : Outcome}
    (h : (ofFile decode tree path).refusal = some outcome) (rest : List String) :
    (ofFiles decode tree (path :: rest)).refusal = some outcome := by
  rw [ofFiles, append_of_some h, h]

end FileLoading

namespace GraphRequest

/-- Whether a command comes to a file: it is one of its files, and those in front of it are in
order. -/
def Reaches (request : GraphRequest) (decode : Manifest.Decoder) (settings : Settings)
    (tree : FileTree) (path : String) : Prop :=
  ∃ before after, request.paths settings tree = before ++ path :: after ∧
    ∀ other ∈ before, (FileLoading.ofFile decode tree other).refusal = none

theorem Reaches.runWith_eq {request : GraphRequest} {decode : Manifest.Decoder}
    {settings : Settings} {tree : FileTree} {path : String}
    (h : request.Reaches decode settings tree path) {outcome : Outcome}
    (hrefusal : (FileLoading.ofFile decode tree path).refusal = some outcome) :
    ∃ journal, request.runWith decode settings tree = outcome.after journal := by
  rcases h with ⟨before, after, hpaths, hbefore⟩
  have hfiles : (FileLoading.ofFiles decode tree (before ++ path :: after)).refusal =
      some outcome := by
    rw [FileLoading.refusal_ofFiles_append hbefore,
      FileLoading.refusal_ofFiles_cons hrefusal]
  refine ⟨(FileLoading.ofFiles decode tree (before ++ path :: after)).journal, ?_⟩
  rw [runWith, hpaths]
  split
  · rename_i hnil
    simp at hnil
  · simp only [hfiles, Option.getD_some]

end GraphRequest

theorem Manifest.FailsAt.refusal_ofFile {decode : Manifest.Decoder} {tree : FileTree}
    {path text : String} {index : Nat} {reason : Refusal}
    (h : Manifest.FailsAt decode text index reason) (hholds : tree.Holds path text) :
    (FileLoading.ofFile decode tree path).refusal =
      some (FileLoading.refusalOf path (faultOf index reason)) := by
  rw [FileLoading.refusal_ofFile hholds, Loading.result_eq_error_iff.mp h.result_eq]
  rfl

theorem Outcome.shownOn_refused (console : Console) (text : Styled) (journal : Journal) :
    let outcome := (Outcome.refused text).after journal
    (console (.line text) = true -> outcome.shownOn console = outcome) ∧
      (console (.line text) = false -> (outcome.shownOn console).fault = some .badMarkup) := by
  intro outcome
  have hall : outcome.console.all console = console (.line text) := Bool.and_true _
  constructor
  · intro hshown
    rw [shownOn, hall, if_pos hshown]
  · intro hshown
    rw [shownOn, hall, if_neg (by simp [hshown])]

/-!
# One way to fail
-/

namespace Manifest

/-- Whether a text fails in one way only: it is loaded, or all who read it tell the index of
the document that is not valid, and none is broken off. -/
structure FailsOneWay (decode : Decoder) (console : Console) (text : String) : Prop where
  loading : (∃ policies, (loadWith decode text).result = .ok policies) ∨
    ∃ index message, FailsAt decode text index (.invalid message) ∧
      (loadWith decode text).result = .error (.invalidDocument index message)
  policiesRoute : ∀ deduplicate body, (Http.readBody body).bind Http.readManifest = .ok text ->
    (Http.replyWith decode deduplicate ⟨"POST", "/api/policies/parse", body⟩).Settles decode text
      Http.policiesDocument
  graphRoute : ∀ deduplicate body query,
    (Http.readBody body).bind Http.readGraphQuery = .ok query -> query.manifest = text ->
    (Http.replyWith decode deduplicate ⟨"POST", "/api/graph", body⟩).Settles decode text
      (Http.graphDocument (query.deduplicate.getD deduplicate) query.shown)
  command : ∀ (request : GraphRequest) settings tree path, tree.Holds path text ->
    request.Reaches decode settings tree path ->
    (∃ policies, (loadWith decode text).result = .ok policies) ∨
      ∃ index message, FailsAt decode text index (.invalid message) ∧
        let outcome := (request.runWith decode settings tree).shownOn console
        outcome.status = 1 ∧ outcome.fault = none ∧
          outcome.console = [.line (FileLoading.refusalLine path index message)]

/-- Whether a console can show that a document of a text is not valid, for every file of it that
a command comes to. -/
def ShowsRefusal (decode : Decoder) (console : Console) (text : String) : Prop :=
  ∀ index message, FailsAt decode text index (.invalid message) ->
    ∀ (request : GraphRequest) settings tree path, tree.Holds path text ->
      request.Reaches decode settings tree path ->
        console (.line (FileLoading.refusalLine path index message)) = true

theorem FailsOneWay.showsRefusal {decode : Decoder} {console : Console} {text : String}
    (h : FailsOneWay decode console text) : ShowsRefusal decode console text := by
  intro index message hfails request settings tree path hholds hreaches
  rcases h.command request settings tree path hholds hreaches with
    ⟨policies, hloads⟩ | ⟨_, _, _, _, hfault, _⟩
  · cases hloads.symm.trans hfails.result_eq
  · rcases hreaches.runWith_eq (hfails.refusal_ofFile hholds) with ⟨journal, hrun⟩
    rw [hrun] at hfault
    have hline := Outcome.shownOn_refused console
      (FileLoading.refusalLine path index message) journal
    cases hshown : console (.line (FileLoading.refusalLine path index message)) with
    | true => rfl
    | false => cases hfault.symm.trans (hline.2 hshown)

/-- A text fails in one way exactly if no scalar that cannot be converted or written is what ends
its reading, and if the console can show its refusal. -/
theorem failsOneWay_iff (decode : Decoder) (console : Console) (text : String) :
    FailsOneWay decode console text ↔
      (∀ index fault, ¬ FailsAt decode text index (.conversion fault)) ∧
        ShowsRefusal decode console text := by
  rw [← loadsOrRefuses_iff]
  constructor
  · intro h
    refine ⟨?_, h.showsRefusal⟩
    rcases h.loading with hloads | ⟨index, message, hfails, _⟩
    · exact Or.inl hloads
    · exact Or.inr ⟨index, message, hfails⟩
  · rintro ⟨h, hshows⟩
    refine { loading := ?_, policiesRoute := ?_, graphRoute := ?_, command := ?_ }
    · rcases h with hloads | ⟨index, message, hfails⟩
      · exact Or.inl hloads
      · exact Or.inr ⟨index, message, hfails, hfails.result_eq⟩
    · intro deduplicate body hbody
      rw [Http.replyWith_policies decode deduplicate hbody]
      exact Http.settles_withPolicies h _
    · rintro deduplicate body query hbody rfl
      rw [Http.replyWith_graph decode deduplicate hbody]
      exact Http.settles_withPolicies h _
    · intro request settings tree path hholds hreaches
      rcases h with hloads | ⟨index, message, hfails⟩
      · exact Or.inl hloads
      · rcases hreaches.runWith_eq (hfails.refusal_ofFile hholds) with ⟨journal, hrun⟩
        have hshown := (Outcome.shownOn_refused console
          (FileLoading.refusalLine path index message) journal).1
          (hshows index message hfails request settings tree path hholds hreaches)
        refine Or.inr ⟨index, message, hfails, ?_⟩
        rw [hrun]
        show (Outcome.shownOn console ((Outcome.refused _).after journal)).status = 1 ∧
          (Outcome.shownOn console ((Outcome.refused _).after journal)).fault = none ∧
          (Outcome.shownOn console ((Outcome.refused _).after journal)).console = _
        rw [hshown]
        exact ⟨rfl, rfl, rfl⟩

def bodyOf (text : String) : String := "\x7b\"yaml_content\": \"" ++ text ++ "\"\x7d"

def treeOf (name text : String) : FileTree :=
  (FileTree.empty []).put [name.toList] (.file (Text.Utf8.encode text.toList))

/-- A name that looks like a date but is none breaks all of them off. -/
theorem load_impossibleDate :
    let text := "name: 2024-13-01"
    let fault := Fault.conversion (.calendar .month)
    (∀ console, ¬ FailsOneWay yaml console text) ∧ (load text).result = .error fault ∧
      (["/api/policies/parse", "/api/graph"].map fun route =>
        (Http.reply true ⟨"POST", route, bodyOf text⟩).status) = [500, 500] ∧
      (Command.run [("HOME", "/")] (treeOf "p.yaml" text)
        (.graph ⟨["p.yaml"], true, .all, false⟩)).fault = some fault := by
  intro text fault
  have hfault : (load text).fault = some fault := by decide +kernel
  have hresult : (load text).result = .error fault := Loading.result_eq_error_iff.mpr hfault
  refine ⟨?_, hresult, by decide +kernel, by decide +kernel⟩
  intro console h
  rcases h.loading with ⟨policies, hloads⟩ | ⟨index, message, _, hrefused⟩
  · cases hresult.symm.trans hloads
  · have hsame : Fault.conversion (.calendar .month) = .invalidDocument index message :=
      Except.error.inj (hresult.symm.trans hrefused)
    cases hsame

end Manifest
end TrafficGraph

import TrafficGraph.Proofs.Policy.Documents
import TrafficGraph.Proofs.Policy.Refusal

/-!
# Manifests one after another

Two manifests with a separator between them are read as the first one and then the second
one, wherever their own lines begin and end.  Only the numbers of the second one's documents
change: they go on where those of the first end.
-/

namespace TrafficGraph

namespace Manifest

def joined (first second : String) : String := first ++ "\n---\n" ++ second

theorem documents_joined (first second : String) :
    documents (joined first second).toList =
      documents first.toList ++ documents second.toList := by
  have htext : (joined first second).toList =
      first.toList ++ '\n' :: (separator ++ '\n' :: second.toList) := by
    rw [joined, String.toList_append, String.toList_append, List.append_assoc]
    rfl
  rw [htext, documents_append_separator]

end Manifest

/-!
# Later documents

What has come of a manifest, told as if some documents had been in front of its own.
-/

def Event.later (count : Nat) : Event → Event
  | .itemSkipped document => .itemSkipped (document + count)
  | .kindSkipped kind document => .kindSkipped kind (document + count)
  | event => event

def Fault.later (count : Nat) : Fault → Fault
  | .invalidDocument index message => .invalidDocument (index + count) message
  | fault => fault

namespace Manifest

def Loading.later (count : Nat) (loading : Loading) : Loading :=
  ⟨loading.policies, loading.journal.map (Event.later count),
    loading.fault.map (Fault.later count)⟩

theorem Loading.later_append (count : Nat) (first second : Loading) :
    (first.append second).later count = (first.later count).append (second.later count) := by
  rcases first with ⟨policies, journal, fault⟩
  cases fault with
  | some fault => rfl
  | none => simp [append, later]

theorem faultOf_later (count index : Nat) (reason : Refusal) :
    (faultOf index reason).later count = faultOf (index + count) reason := by
  cases reason <;> rfl

theorem readItem_later (count index : Nat) (item : Value) :
    (readItem index item).later count = readItem (index + count) item := by
  simp only [readItem]
  split
  · split
    · cases Policy.read item <;> rfl
    · rfl
  · rfl

theorem readItems_later (count index : Nat) (items : List Value) :
    (readItems index items).later count = readItems (index + count) items := by
  induction items with
  | nil => rfl
  | cons item rest ih =>
      rw [readItems, readItems, Loading.later_append, readItem_later, ih]

theorem readDocument_later (decode : Decoder) (count index : Nat) (doc : List Char) :
    (readDocument decode index doc).later count = readDocument decode (index + count) doc := by
  unfold readDocument
  cases decode (String.ofList doc) with
  | error reason => simp [Loading.later, faultOf_later]
  | ok v => exact readItems_later count index (itemsOf v)

theorem readDocuments_later (decode : Decoder) (count index : Nat) (docs : List (List Char)) :
    (readDocuments decode index docs).later count =
      readDocuments decode (index + count) docs := by
  induction docs generalizing index with
  | nil => rfl
  | cons doc rest ih =>
      rw [readDocuments, readDocuments, Loading.later_append, readDocument_later, ih,
        Nat.add_right_comm]

/-!
# Reading on
-/

theorem Loading.append_assoc (first second third : Loading) :
    (first.append second).append third = first.append (second.append third) := by
  rcases first with ⟨policies, journal, fault⟩
  cases fault with
  | some fault => rfl
  | none =>
      rcases second with ⟨policies', journal', fault'⟩
      cases fault' with
      | some fault' => rfl
      | none => simp [append]

theorem readDocuments_append (decode : Decoder) (index : Nat) (before docs : List (List Char)) :
    readDocuments decode index (before ++ docs) =
      (readDocuments decode index before).append
        (readDocuments decode (index + before.length) docs) := by
  induction before generalizing index with
  | nil => rfl
  | cons doc rest ih =>
      rw [List.cons_append, readDocuments, readDocuments, Loading.append_assoc, ih,
        List.length_cons, Nat.add_right_comm, Nat.add_assoc]

theorem Loading.append_of_result_ok {first : Loading} {ps : List Policy}
    (h : first.result = .ok ps) (second : Loading) :
    first.append second = ⟨ps ++ second.policies, first.journal ++ second.journal,
      second.fault⟩ := by
  rcases first with ⟨policies, journal, fault⟩
  cases fault with
  | some fault => cases h
  | none => cases h; rfl

/-- All that comes of two manifests one after another: their policies, the events on the way,
and the fault. -/
theorem loadWith_joined (decode : Decoder) (first second : String) :
    loadWith decode (joined first second) =
      (loadWith decode first).append
        ((loadWith decode second).later (documents first.toList).length) := by
  rw [loadWith, documents_joined, readDocuments_append, ← readDocuments_later]
  rfl

theorem FailsAt.joined_left {decode : Decoder} {first : String} {index : Nat}
    {reason : Refusal} (h : FailsAt decode first index reason) (second : String) :
    FailsAt decode (joined first second) index reason := by
  rcases h with ⟨before, doc, after, hdocs, hlength, hbefore, hdoc⟩
  refine ⟨before, doc, after ++ documents second.toList, ?_, hlength, hbefore, hdoc⟩
  rw [documents_joined, hdocs, List.append_assoc, List.cons_append]

theorem FailsAt.joined_right {decode : Decoder} {first second : String} {index : Nat}
    {reason : Refusal} (hfirst : ∀ d ∈ documents first.toList, refusal? decode d = none)
    (h : FailsAt decode second index reason) :
    FailsAt decode (joined first second) (index + (documents first.toList).length) reason := by
  rcases h with ⟨before, doc, after, hdocs, rfl, hbefore, hdoc⟩
  refine ⟨documents first.toList ++ before, doc, after, ?_, ?_, ?_, hdoc⟩
  · rw [documents_joined, hdocs, List.append_assoc]
  · rw [List.length_append, Nat.add_comm]
  · exact List.forall_mem_append.mpr ⟨hfirst, hbefore⟩

theorem refusal?_eq_none_of_result_ok {decode : Decoder} {text : String} {ps : List Policy}
    (h : (loadWith decode text).result = .ok ps) :
    ∀ d ∈ documents text.toList, refusal? decode d = none := by
  rcases exists_first_refusal decode (documents text.toList) with
    hall | ⟨before, doc, after, reason, hdocs, hbefore, hdoc⟩
  · exact hall
  · have hfails : FailsAt decode text before.length reason :=
      ⟨before, doc, after, hdocs, rfl, hbefore, hdoc⟩
    rw [hfails.result_eq] at h
    cases h

theorem failsAt_of_result_eq {decode : Decoder} {text : String} {index : Nat}
    {message : String}
    (h : (loadWith decode text).result = .error (.invalidDocument index message)) :
    FailsAt decode text index (.invalid message) := by
  rcases loads_or_failsAt decode text with ⟨ps, hloads⟩ | ⟨found, reason, hfails⟩
  · cases h.symm.trans hloads
  · have hfault := Except.error.inj (h.symm.trans hfails.result_eq)
    cases reason with
    | invalid message =>
        cases hfault
        exact hfails
    | conversion fault => cases hfault

/-- Two manifests one after another give the policies of the first and then those of the
second.  If the first one fails, so do they, at the same document and for the same reason; if
only the second one fails, they fail at its document, which is counted after those of the
first. -/
theorem loadWith_joined_result (decode : Decoder) (first second : String) :
    (∀ ps qs, (loadWith decode first).result = .ok ps ->
      (loadWith decode second).result = .ok qs ->
        (loadWith decode (joined first second)).result = .ok (ps ++ qs)) ∧
    (∀ fault, (loadWith decode first).result = .error fault ->
      (loadWith decode (joined first second)).result = .error fault ∧
        ∀ index reason, FailsAt decode first index reason ->
          FailsAt decode (joined first second) index reason) ∧
    ∀ ps index reason, (loadWith decode first).result = .ok ps ->
      FailsAt decode second index reason ->
        FailsAt decode (joined first second) (index + (documents first.toList).length) reason ∧
        (loadWith decode (joined first second)).result =
          .error (faultOf (index + (documents first.toList).length) reason) := by
  refine ⟨?_, ?_, ?_⟩
  · intro ps qs hfirst hsecond
    rw [loadWith_joined, Loading.append_of_result_ok hfirst]
    rcases hloading : loadWith decode second with ⟨policies, journal, fault⟩
    rw [hloading] at hsecond
    cases fault with
    | some fault => cases hsecond
    | none => cases hsecond; rfl
  · intro fault hfirst
    refine ⟨?_, fun index reason h => h.joined_left second⟩
    rw [Loading.result_eq_error_iff] at hfirst ⊢
    rw [loadWith_joined, Loading.append, hfirst]
    exact hfirst
  · intro ps index reason hfirst hsecond
    have hfails := hsecond.joined_right (refusal?_eq_none_of_result_ok hfirst)
    exact ⟨hfails, hfails.result_eq⟩

/-- The first text ends in a separator without a line break and the second one begins with
one, so there are blank documents at the seam. -/
theorem loadWith_joined_result_blank :
    let first := "metadata:\n  name: a\n---\n\n---\n- metadata:\n    name: b\n- 7\n---"
    let second := "---\nmetadata:\n  name: c"
    let faulty := "metadata:\n  name: d\n---\n]"
    (load (joined first second)).result =
        .ok ((load first).policies ++ (load second).policies) ∧
      ((load first).policies ++ (load second).policies).map Policy.name = ["a", "b", "c"] ∧
      (load (joined faulty first)).result = .error (.invalidDocument 1 "") ∧
      FailsAt yaml (joined first faulty) 3 (.invalid "") := by
  intro first second faulty
  have hrun : (load first).fault = none ∧ (load second).fault = none ∧
      (load faulty).fault = some (.invalidDocument 1 "") ∧
      (documents first.toList).length = 2 ∧
      ((load first).policies ++ (load second).policies).map Policy.name = ["a", "b", "c"] := by
    decide +kernel
  rcases hrun with ⟨hfirst, hsecond, hfaulty, hlength, hnames⟩
  have hfirst : (load first).result = .ok (load first).policies := by rw [Loading.result, hfirst]
  have hsecond : (load second).result = .ok (load second).policies := by
    rw [Loading.result, hsecond]
  have hfaulty : (load faulty).result = .error (.invalidDocument 1 "") :=
    Loading.result_eq_error_iff.mpr hfaulty
  refine ⟨(loadWith_joined_result yaml first second).1 _ _ hfirst hsecond, hnames,
    ((loadWith_joined_result yaml faulty first).2.1 _ hfaulty).1, ?_⟩
  have hfails := ((loadWith_joined_result yaml first faulty).2.2 _ 1 (.invalid "") hfirst
    (failsAt_of_result_eq hfaulty)).1
  rw [hlength] at hfails
  exact hfails

end Manifest
end TrafficGraph

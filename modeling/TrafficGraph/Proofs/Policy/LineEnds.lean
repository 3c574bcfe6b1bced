import TrafficGraph.Proofs.Policy.Documents
import TrafficGraph.Proofs.Policy.Refusal
import TrafficGraph.Proofs.Text.Utf8

/-!
# Manifests and line ends

A manifest comes as a text, or as a file, whose line ends are unified first.  If documents
mean the same with whichever line ends, so does the manifest, unless the line end of a
separator begins with a carriage return: the file is split there, but the text is not.
-/

namespace TrafficGraph

/-!
# Refusals without their messages
-/

def Fault.untold : Fault → Fault
  | .invalidDocument index _ => .invalidDocument index ""
  | fault => fault

namespace Manifest

open Text

def Refusal.untold : Refusal → Refusal
  | .invalid _ => .invalid ""
  | .conversion fault => .conversion fault

def untold (decode : Decoder) : Decoder := fun doc => (decode doc).mapError Refusal.untold

/-- Whether a document and the one with unified line ends are decoded alike: to the same value,
or with the same refusal, up to its message. -/
def IgnoresLineEnds (decode : Decoder) : Prop :=
  ∀ cs, Paired cs ->
    untold decode (String.ofList (unifyLineEnds cs)) = untold decode (String.ofList cs)

/-- Two readings that end in the same policies, or both with a document that is not valid. -/
inductive Alike : Except Fault (List Policy) → Except Fault (List Policy) → Prop where
  | loads (ps : List Policy) : Alike (.ok ps) (.ok ps)
  | refused (i j : Nat) (message other : String) :
      Alike (.error (.invalidDocument i message)) (.error (.invalidDocument j other))

/-- Whether a scalar that cannot be converted breaks two readings off. -/
def BothBroken (first second : Except Fault (List Policy)) : Prop :=
  ∃ fault, first = .error (.conversion fault) ∧ second = .error (.conversion fault)

def Loading.untold (loading : Loading) : Loading :=
  { loading with fault := loading.fault.map Fault.untold }

theorem Loading.untold_append (first second : Loading) :
    (first.append second).untold = first.untold.append second.untold := by
  rcases first with ⟨policies, journal, fault⟩
  cases fault <;> rfl

theorem readItem_untold (index : Nat) (item : Value) :
    (readItem index item).untold = readItem index item := by
  simp only [readItem]
  split
  · split
    · cases Policy.read item <;> rfl
    · rfl
  · rfl

theorem readItems_untold (index : Nat) (items : List Value) :
    (readItems index items).untold = readItems index items := by
  induction items with
  | nil => rfl
  | cons item rest ih => rw [readItems, Loading.untold_append, readItem_untold, ih]

theorem readDocument_untold (decode : Decoder) (index : Nat) (doc : List Char) :
    readDocument (untold decode) index doc = (readDocument decode index doc).untold := by
  unfold readDocument Manifest.untold
  cases decode (String.ofList doc) with
  | error refusal => cases refusal <;> rfl
  | ok v => exact (readItems_untold index (itemsOf v)).symm

theorem readDocuments_untold (decode : Decoder) (index : Nat) (docs : List (List Char)) :
    readDocuments (untold decode) index docs = (readDocuments decode index docs).untold := by
  induction docs generalizing index with
  | nil => rfl
  | cons doc rest ih =>
      rw [readDocuments, readDocuments, readDocument_untold, ih, Loading.untold_append]

theorem Loading.result_untold (loading : Loading) :
    loading.untold.result = loading.result.mapError Fault.untold := by
  rcases loading with ⟨policies, journal, fault⟩
  cases fault <;> rfl

theorem alike_or_bothBroken {decode : Decoder} {first second : String}
    (h : (loadWith decode first).untold = (loadWith decode second).untold) :
    Alike (loadWith decode first).result (loadWith decode second).result ∨
      BothBroken (loadWith decode first).result (loadWith decode second).result := by
  have hresult := congrArg Loading.result h
  rw [Loading.result_untold, Loading.result_untold] at hresult
  rcases loads_or_failsAt decode first with ⟨ps, hps⟩ | ⟨i, reason, hi⟩ <;>
    rcases loads_or_failsAt decode second with ⟨qs, hqs⟩ | ⟨j, other, hj⟩
  · rw [hps, hqs] at hresult ⊢
    cases hresult
    exact Or.inl (.loads ps)
  · rw [hps, hj.result_eq] at hresult
    cases hresult
  · rw [hi.result_eq, hqs] at hresult
    cases hresult
  · rw [hi.result_eq, hj.result_eq] at hresult ⊢
    cases reason <;> cases other <;> cases hresult
    · exact Or.inl (.refused _ _ _ _)
    · exact Or.inr ⟨_, rfl, rfl⟩

theorem loadBytesWith_encode (decode : Decoder) (cs : List Char) :
    loadBytesWith decode (Utf8.encode cs) =
      loadWith decode (String.ofList (unifyLineEnds cs)) := by
  rw [loadBytesWith, Utf8.decode_encode]

/-!
# Texts without a returned separator
-/

theorem readDocuments_map_unifyLineEnds {decode : Decoder} (hdecode : IgnoresLineEnds decode)
    {docs : List (List Char)} (h : ∀ doc ∈ docs, Paired doc) (index : Nat) :
    readDocuments (untold decode) index (docs.map unifyLineEnds) =
      readDocuments (untold decode) index docs := by
  induction docs generalizing index with
  | nil => rfl
  | cons doc rest ih =>
      rw [List.forall_mem_cons] at h
      rw [List.map_cons, readDocuments, readDocuments, readDocument, readDocument,
        hdecode doc h.1, ih h.2]

theorem loadWith_unifyLineEnds_untold {decode : Decoder} (hdecode : IgnoresLineEnds decode)
    {text : String} (h : Paired text.toList) (hreturned : returnedSeparator ∉ lines text.toList) :
    (loadWith decode (String.ofList (unifyLineEnds text.toList))).untold =
      (loadWith decode text).untold := by
  rw [loadWith, loadWith, ← readDocuments_untold, ← readDocuments_untold, String.toList_ofList,
    documents_unifyLineEnds h hreturned]
  exact readDocuments_map_unifyLineEnds hdecode (fun _ => paired_of_mem_documents h) 0

/-!
# Texts with a returned separator

Documents that stand for as many policies as they have hyphens tell the file of such a text
from the text.
-/

def decodeHyphens : Decoder :=
  fun doc => .ok (.list (List.replicate (doc.toList.count '-') (.map [])))

theorem count_unifyLineEnds {c : Char} (hreturn : c ≠ '\r') (hnewline : c ≠ '\n') {cs : List Char}
    (h : Paired cs) : (unifyLineEnds cs).count c = cs.count c := by
  induction h with
  | nil => rfl
  | return_newline _ ih =>
      rw [unifyLineEnds_return_newline, List.count_cons_of_ne hnewline.symm,
        List.count_cons_of_ne hreturn.symm, List.count_cons_of_ne hnewline.symm, ih]
  | cons hc _ ih => rw [unifyLineEnds_cons hc, List.count_cons, List.count_cons, ih]

theorem ignoresLineEnds_decodeHyphens : IgnoresLineEnds decodeHyphens := by
  intro cs h
  simp only [untold, decodeHyphens, String.toList_ofList]
  rw [count_unifyLineEnds (by decide) (by decide) h]

theorem readItems_replicate (index count : Nat) :
    (readItems index (List.replicate count (.map []))).fault = none ∧
      (readItems index (List.replicate count (.map []))).policies.length = count := by
  have hread : Policy.read (.map []) = .ok (Policy.ofValue (.map [])) := rfl
  have hitem : readItem index (.map []) = ⟨[Policy.ofValue (.map [])], [], none⟩ := by
    unfold readItem
    rw [hread]
    rfl
  induction count with
  | zero => exact ⟨rfl, rfl⟩
  | succ n ih =>
      rw [List.replicate_succ, readItems, hitem, Loading.append]
      exact ⟨ih.1, by simp [ih.2]⟩

theorem readDocuments_decodeHyphens (index : Nat) (docs : List (List Char)) :
    (readDocuments decodeHyphens index docs).fault = none ∧
      (readDocuments decodeHyphens index docs).policies.length = docs.flatten.count '-' := by
  induction docs generalizing index with
  | nil => exact ⟨rfl, rfl⟩
  | cons doc rest ih =>
      rcases ih (index + 1) with ⟨hfault, hlength⟩
      have hdocument : readDocument decodeHyphens index doc =
          readItems index (List.replicate (doc.count '-') (.map [])) := by
        simp only [readDocument, decodeHyphens, String.toList_ofList]
        rfl
      rcases readItems_replicate index (doc.count '-') with ⟨hnone, hitems⟩
      rw [readDocuments, hdocument]
      refine ⟨?_, ?_⟩
      · rw [Loading.fault_append, hnone, hfault, Option.or_none]
      · rw [Loading.append, hnone, List.flatten_cons, List.count_append, ← hlength]
        exact List.length_append.trans (congrArg (· + _) hitems)

theorem loadWith_decodeHyphens (text : String) :
    ∃ ps, (loadWith decodeHyphens text).result = .ok ps ∧
      ps.length + 3 * (lines text.toList).count separator = text.toList.count '-' := by
  rcases readDocuments_decodeHyphens 0 (documents text.toList) with ⟨hfault, hlength⟩
  refine ⟨(loadWith decodeHyphens text).policies, ?_, ?_⟩
  · rw [Loading.result, loadWith, hfault]
  · rw [loadWith, hlength]
    exact count_documents (by decide) text.toList

theorem count_separator_map_stripReturn (ls : List (List Char)) :
    (ls.map stripReturn).count separator =
      ls.count separator + ls.count returnedSeparator := by
  induction ls with
  | nil => rfl
  | cons line rest ih =>
      rw [List.map_cons]
      by_cases hline : stripReturn line = separator
      · rw [hline, List.count_cons_self, ih]
        rcases stripReturn_eq_separator_iff.mp hline with rfl | rfl
        · rw [List.count_cons_self, List.count_cons_of_ne (by decide)]
          omega
        · rw [List.count_cons_self, List.count_cons_of_ne (by decide)]
          omega
      · rw [List.count_cons_of_ne hline, ih]
        rw [stripReturn_eq_separator_iff, not_or] at hline
        rw [List.count_cons_of_ne hline.1, List.count_cons_of_ne hline.2]

theorem not_alike_decodeHyphens {text : String} (h : Paired text.toList)
    (hreturned : returnedSeparator ∈ lines text.toList) :
    ¬ (Alike (loadBytesWith decodeHyphens (Utf8.encode text.toList)).result
        (loadWith decodeHyphens text).result ∨
      BothBroken (loadBytesWith decodeHyphens (Utf8.encode text.toList)).result
        (loadWith decodeHyphens text).result) := by
  rcases loadWith_decodeHyphens text with ⟨ps, hps, hlength⟩
  rcases loadWith_decodeHyphens (String.ofList (unifyLineEnds text.toList)) with
    ⟨qs, hqs, hlength'⟩
  rw [String.toList_ofList, count_unifyLineEnds (by decide) (by decide) h,
    h.lines_unifyLineEnds, count_separator_map_stripReturn] at hlength'
  have hcount : 0 < (lines text.toList).count returnedSeparator :=
    List.count_pos_iff.mpr hreturned
  rw [loadBytesWith_encode, hps, hqs]
  rintro (halike | ⟨fault, hbroken, _⟩)
  · cases halike
    omega
  · cases hbroken

/-!
# Files and texts
-/

/-- Whatever decodes documents the same with whichever line ends, the file of a text and the
text are read alike exactly if none of the text's separators has a carriage return in its
line end.  A scalar that cannot be converted breaks both readings off then. -/
theorem loadBytesWith_alike_iff {text : String} (h : Paired text.toList) :
    (∀ decode, IgnoresLineEnds decode ->
      Alike (loadBytesWith decode (Utf8.encode text.toList)).result
          (loadWith decode text).result ∨
        BothBroken (loadBytesWith decode (Utf8.encode text.toList)).result
          (loadWith decode text).result) ↔
      returnedSeparator ∉ lines text.toList := by
  constructor
  · intro hall hreturned
    exact not_alike_decodeHyphens h hreturned (hall _ ignoresLineEnds_decodeHyphens)
  · intro hreturned decode hdecode
    rw [loadBytesWith_encode]
    exact alike_or_bothBroken (loadWith_unifyLineEnds_untold hdecode h hreturned)

def unifying (decode : Decoder) : Decoder :=
  fun doc => decode (String.ofList (unifyLineEnds doc.toList))

theorem ignoresLineEnds_unifying (decode : Decoder) : IgnoresLineEnds (unifying decode) := by
  intro cs _
  simp only [untold, unifying, String.toList_ofList]
  rw [unifyLineEnds_idem]

/-- A carriage return in front of a separator's line, and behind that line, does no harm. -/
theorem loadBytesWith_alike_mixedText :
    let text := "metadata:\r\n  name: a\r\n---\nmetadata:\n  name: b\r\n"
    Paired text.toList ∧ returnedSeparator ∉ lines text.toList ∧
      Alike (loadBytesWith (unifying yaml) (Utf8.encode text.toList)).result
        (loadWith (unifying yaml) text).result ∧
      (loadWith (unifying yaml) text).policies.map Policy.name = ["a", "b"] := by
  intro text
  have hrun : Paired text.toList ∧ returnedSeparator ∉ lines text.toList ∧
      (loadWith (unifying yaml) text).fault = none ∧
      (loadWith (unifying yaml) text).policies.map Policy.name = ["a", "b"] := by
    decide +kernel
  rcases hrun with ⟨hpaired, hreturned, hnone, hnames⟩
  refine ⟨hpaired, hreturned, ?_, hnames⟩
  rcases (loadBytesWith_alike_iff hpaired).mpr hreturned _ (ignoresLineEnds_unifying yaml) with
    halike | ⟨fault, _, hbroken⟩
  · exact halike
  · rw [Loading.result_eq_error_iff, hnone] at hbroken
    cases hbroken

/-- The file of a text is split at a separator that the text itself is not split at. -/
theorem load_returnedText :
    let text := "metadata:\r\n  name: a\r\n---\r\nmetadata:\r\n  name: b\r\n"
    Paired text.toList ∧ (load text).result = .error (.invalidDocument 0 "") ∧
      ∃ ps, (loadBytes (Utf8.encode text.toList)).result = .ok ps ∧
        ps.map Policy.name = ["a", "b"] ∧
        ¬ Alike (loadBytes (Utf8.encode text.toList)).result (load text).result := by
  intro text
  let file := loadBytes (Utf8.encode text.toList)
  have hrun : Paired text.toList ∧ (load text).fault = some (.invalidDocument 0 "") ∧
      file.fault = none ∧ file.policies.map Policy.name = ["a", "b"] := by
    decide +kernel
  rcases hrun with ⟨hpaired, hrefused, hfile, hnames⟩
  have hrefused : (load text).result = .error (.invalidDocument 0 "") :=
    Loading.result_eq_error_iff.mpr hrefused
  have hfile : file.result = .ok file.policies := by rw [Loading.result, hfile]
  refine ⟨hpaired, hrefused, file.policies, hfile, hnames, ?_⟩
  intro halike
  rw [hrefused, show (loadBytes _).result = _ from hfile] at halike
  cases halike

end Manifest
end TrafficGraph

import TrafficGraph.Policy.Decode
import TrafficGraph.Policy.Export

/-!
# Policies through their documents

A document leaves out what a policy does not have, and a policy that is read from a document
lacks what is left out there.  So a policy that is written as a document and read again is the
same, as long as its rules and peers are such and it has a name and a namespace.  Whatever is
read from a document is a policy of this shape, whatever the document looks like.  The scalars
of the document of a policy are texts, so there is none among them that cannot be written.
-/

namespace TrafficGraph

/-!
# Fields of records
-/

namespace Value

def fieldOf? (fields : List (String × Value)) (key : String) : Option Value :=
  find? key (record fields).entries

theorem field_record (fields : List (String × Value)) (key : String) :
    (record fields).field key = (fieldOf? fields key).getD .null := rfl

@[simp] theorem fieldOf?_nil (key : String) : fieldOf? [] key = none := rfl

@[simp] theorem fieldOf?_cons (name : String) (v : Value) (rest : List (String × Value))
    (key : String) :
    fieldOf? ((name, v) :: rest) key = if name = key then some v else fieldOf? rest key := by
  by_cases hname : name = key
  · rw [if_pos hname]
    exact (find?_cons_text ..).trans (if_pos (beq_iff_eq.mpr hname))
  · rw [if_neg hname]
    exact (find?_cons_text ..).trans (if_neg (mt beq_iff_eq.mp hname))

@[simp] theorem fieldOf?_append (front back : List (String × Value)) (key : String) :
    fieldOf? (front ++ back) key = (fieldOf? front key).or (fieldOf? back key) := by
  induction front with
  | nil => rfl
  | cons field rest ih =>
      rw [List.cons_append, fieldOf?_cons, fieldOf?_cons, ih]
      split <;> rfl

@[simp] theorem fieldOf?_partField {α : Type} (name : String) (toValue : α → Value)
    (part : Option α) (key : String) :
    fieldOf? (partField name toValue part) key =
      if name = key then part.map toValue else none := by
  cases part <;> simp [partField]

@[simp] theorem fieldOf?_fieldUnlessNull (name : String) (v : Value) (key : String) :
    fieldOf? (fieldUnlessNull name v) key =
      if name = key then (if v.isNull then none else some v) else none := by
  unfold fieldUnlessNull
  split <;> simp

theorem getD_unlessNull (v : Value) : (if v.isNull then none else some v).getD .null = v := by
  cases v <;> rfl

@[simp] theorem scalarText_text (s : String) : (Value.text s).scalarText = s := rfl

theorem maps_list_of_isMap {vs : List Value} (h : ∀ v ∈ vs, v.isMap = true) :
    (Value.list vs).maps = vs :=
  List.filter_eq_self.mpr h

end Value

open Value

theorem read_part {α : Type} {read : Value → Option α} {toValue : α → Value}
    (hread : ∀ a, read (toValue a) = some a) (hnull : read .null = none) (part : Option α) :
    read ((part.map toValue).getD .null) = part := by
  cases part with
  | none => exact hnull
  | some a => exact hread a

def AllShort (scalars : List Value) : Prop := ∀ s ∈ scalars, s.isLong = false

theorem allShort_append {first second : List Value} :
    AllShort (first ++ second) ↔ AllShort first ∧ AllShort second :=
  List.forall_mem_append

theorem allShort_flatMap {α : Type} {scalars : α → List Value} {xs : List α} :
    AllShort (xs.flatMap scalars) ↔ ∀ x ∈ xs, AllShort (scalars x) := by
  unfold AllShort
  simp only [List.mem_flatMap]
  constructor
  · intro h x hx s hs
    exact h s ⟨x, hx, hs⟩
  · rintro h s ⟨x, hx, hs⟩
    exact h x hx s hs

theorem allShort_part {α : Type} {scalars : Value → List Value} {toValue : α → Value}
    (htoValue : ∀ a, AllShort (scalars (toValue a))) (hnull : scalars .null = [])
    (part : Option α) : AllShort (scalars ((part.map toValue).getD .null)) := by
  cases part with
  | none =>
      intro s hs
      rw [Option.map_none, Option.getD_none, hnull] at hs
      cases hs
  | some a => exact htoValue a

/-!
# Selectors
-/

namespace Labels

theorem allShort_toValue (labels : Labels) : AllShort (scalars labels.toValue) := by
  rw [scalars, allShort_flatMap]
  intro entry hentry
  rcases List.mem_map.mp hentry with ⟨field, hfield, rfl⟩
  rcases List.mem_map.mp hfield with ⟨label, _, rfl⟩
  simp [AllShort]

theorem putEntry_of_not_mem {key : String} {entries : List (String × String)}
    (h : key ∉ entries.map Prod.fst) (value : String) :
    putEntry key value entries = entries ++ [(key, value)] := by
  induction entries with
  | nil => rfl
  | cons entry rest ih =>
      rcases entry with ⟨k, v⟩
      rw [List.map_cons, List.mem_cons, not_or] at h
      rw [putEntry, if_neg fun hk => h.1 hk.symm, ih h.2, List.cons_append]

theorem entries_foldl_put (labels : Labels) (entries : List (String × String))
    (h : ((labels.entries ++ entries).map Prod.fst).Nodup) :
    (entries.foldl (fun stored entry => stored.put entry.1 entry.2) labels).entries =
      labels.entries ++ entries := by
  induction entries generalizing labels with
  | nil => simp
  | cons entry rest ih =>
      have hnew : entry.1 ∉ labels.entries.map Prod.fst := by
        rw [List.map_append, List.map_cons] at h
        intro hmem
        exact (List.nodup_append.mp h).2.2 _ hmem _ List.mem_cons_self rfl
      have hput : (labels.put entry.1 entry.2).entries = labels.entries ++ [entry] :=
        putEntry_of_not_mem hnew entry.2
      rw [List.foldl_cons, ih (labels.put entry.1 entry.2) (by rw [hput]; simpa using h), hput]
      simp

theorem ofList_entries (labels : Labels) : ofList labels.entries = labels := by
  have hentries : (ofList labels.entries).entries = labels.entries :=
    entries_foldl_put empty labels.entries labels.nodup
  rcases labels with ⟨entries, hnodup⟩
  exact (Labels.mk.injEq ..).mpr hentries

theorem ofValue?_toValue (labels : Labels) : ofValue? labels.toValue = some labels := by
  have htexts : (labels.toValue.entries.map fun entry =>
      (entry.1.scalarText, entry.2.scalarText)) = labels.entries := by
    simp [toValue, record, Function.comp_def]
  calc ofValue? labels.toValue
      = some (ofList (labels.toValue.entries.map fun entry =>
          (entry.1.scalarText, entry.2.scalarText))) := rfl
    _ = some labels := by rw [htexts, ofList_entries]

end Labels

theorem Requirement.ofValue_toValue (r : Requirement) : Requirement.ofValue r.toValue = r := by
  simp [ofValue, toValue, texts, field_record, Function.comp_def]

theorem Requirement.allShort_toValue (r : Requirement) : AllShort (scalars r.toValue) := by
  simp [AllShort, scalars, toValue, texts, field_record]

theorem Requirement.maps_list_toValue (rs : List Requirement) :
    (Value.list (rs.map toValue)).maps = rs.map toValue := by
  apply maps_list_of_isMap
  intro v hv
  rcases List.mem_map.mp hv with ⟨r, _, rfl⟩
  rfl

theorem Requirement.listOfValue?_toValue (rs : List Requirement) :
    listOfValue? (.list (rs.map toValue)) = some rs := by
  rw [listOfValue?, maps_list_toValue, List.map_map]
  simp [Function.comp_def, ofValue_toValue]

theorem Selector.fields_eq (s : Selector) :
    s.fields = partField "matchLabels" Labels.toValue s.labels ++
      partField "matchExpressions" (fun rs => .list (rs.map Requirement.toValue))
        s.requirements := by
  rcases s with ⟨labels, requirements⟩
  cases labels <;> cases requirements <;> rfl

theorem Selector.ofValue?_toValue (s : Selector) : ofValue? s.toValue = some s := by
  have hlabels : Labels.ofValue? (s.toValue.field "matchLabels") = s.labels := by
    rw [← read_part Labels.ofValue?_toValue rfl s.labels]
    simp [toValue, field_record, fields_eq]
  have hrequirements : Requirement.listOfValue? (s.toValue.field "matchExpressions") =
      s.requirements := by
    rw [← read_part Requirement.listOfValue?_toValue rfl s.requirements]
    simp [toValue, field_record, fields_eq]
  calc ofValue? s.toValue
      = some ⟨Labels.ofValue? (s.toValue.field "matchLabels"),
          Requirement.listOfValue? (s.toValue.field "matchExpressions")⟩ := rfl
    _ = some s := by rw [hlabels, hrequirements]

theorem Selector.allShort_toValue (s : Selector) : AllShort (scalars s.toValue) := by
  have hlabels := allShort_part Labels.allShort_toValue rfl s.labels
  let scalarsOf (v : Value) : List Value := v.maps.flatMap Requirement.scalars
  have hrequirement : ∀ rs : List Requirement,
      AllShort (scalarsOf (.list (rs.map Requirement.toValue))) := by
    intro rs
    show AllShort ((Value.list (rs.map Requirement.toValue)).maps.flatMap Requirement.scalars)
    rw [Requirement.maps_list_toValue, allShort_flatMap]
    intro v hv
    rcases List.mem_map.mp hv with ⟨r, _, rfl⟩
    exact r.allShort_toValue
  have hrequirements := allShort_part hrequirement rfl s.requirements
  rw [scalars, allShort_append]
  simpa [scalarsOf, toValue, field_record, fields_eq] using ⟨hlabels, hrequirements⟩

/-!
# Peers and ports
-/

theorem Port.ofValue_toValue (p : Port) : ofValue p.toValue = p := by
  simp [ofValue, toValue, field_record, getD_unlessNull]

theorem IPBlock.ofValue?_toValue (block : IPBlock) : ofValue? block.toValue = some block := by
  have hcidr : block.toValue.field "cidr" = block.cidr := by
    simp [toValue, fields, field_record]
  have hexceptions : (block.toValue.field "except").items = block.exceptions := by
    unfold toValue fields
    split
    · rename_i hnone
      simp [field_record, List.isEmpty_iff.mp hnone, items]
    · simp [field_record]
  calc ofValue? block.toValue
      = some ⟨block.toValue.field "cidr", (block.toValue.field "except").items⟩ := rfl
    _ = some block := by rw [hcidr, hexceptions]

theorem Peer.ofValue_toValue (p : Peer) : ofValue p.toValue = p := by
  have hpods := read_part Selector.ofValue?_toValue rfl p.podSelector
  have hnamespaces := read_part Selector.ofValue?_toValue rfl p.namespaceSelector
  have hblock := read_part IPBlock.ofValue?_toValue rfl p.ipBlock
  simp [ofValue, toValue, field_record, hpods, hnamespaces, hblock]

theorem Peer.allShort_toValue (p : Peer) : AllShort (scalars p.toValue) := by
  have hpods := allShort_part Selector.allShort_toValue rfl p.podSelector
  have hnamespaces := allShort_part Selector.allShort_toValue rfl p.namespaceSelector
  rw [scalars, allShort_append]
  simpa [toValue, field_record] using ⟨hpods, hnamespaces⟩

/-!
# Rules
-/

/-- Whether a writer gives a mapping for something, from which a reader gets it back, with
scalars that can be written. -/
def WritesBack {α : Type} (write : α → Except Fault Value) (read : Value → α)
    (scalars : Value → List Value) (a : α) : Prop :=
  ∃ v, write a = .ok v ∧ v.isMap = true ∧ read v = a ∧ AllShort (scalars v)

theorem exists_mapM_of_writesBack {α : Type} {write : α → Except Fault Value} {read : Value → α}
    {scalars : Value → List Value} {xs : List α}
    (h : ∀ x ∈ xs, WritesBack write read scalars x) :
    ∃ vs, xs.mapM write = .ok vs ∧ (Value.list vs).maps.map read = xs ∧
      AllShort ((Value.list vs).maps.flatMap scalars) := by
  induction xs with
  | nil => exact ⟨[], rfl, rfl, fun _ hs => nomatch hs⟩
  | cons x rest ih =>
      rw [List.forall_mem_cons] at h
      rcases h.1 with ⟨v, hwrite, hmap, hread, hshort⟩
      rcases ih h.2 with ⟨vs, hwrites, hreads, hshorts⟩
      have hmaps : (Value.list (v :: vs)).maps = v :: (Value.list vs).maps := by
        rw [maps, items_list, List.filter_cons_of_pos hmap]
        rfl
      refine ⟨v :: vs, ?_, ?_, ?_⟩
      · rw [List.mapM_cons, hwrite, hwrites]
        rfl
      · rw [hmaps, List.map_cons, hread, hreads]
      · rw [hmaps, List.flatMap_cons, allShort_append]
        exact ⟨hshort, hshorts⟩

/-- Whether a rule is one that a document can tell: its peers are peers, and it has a list of
ports or none. -/
structure Rule.Declared (rule : Rule) : Prop where
  peers : ∀ entry ∈ rule.peers, ∃ p, entry = .peer p
  ports : rule.ports = .unset ∨ ∃ ports, rule.ports = .listed ports

theorem Rule.declared_ofValue (peersField : String) (v : Value) :
    (Rule.ofValue peersField v).Declared := by
  constructor
  · intro entry hentry
    rcases List.mem_map.mp hentry with ⟨p, _, rfl⟩
    exact ⟨Peer.ofValue p, rfl⟩
  · have hports : (Rule.ofValue peersField v).ports = Ports.ofValue (v.field "ports") := rfl
    rw [hports]
    cases v.field "ports" with
    | list items => exact Or.inr ⟨_, rfl⟩
    | _ => exact Or.inl rfl

theorem Ports.ofValue_list_toValue (ports : List Port) :
    Ports.ofValue (.list (ports.map Port.toValue)) = .listed ports := by
  have hmaps : (Value.list (ports.map Port.toValue)).maps = ports.map Port.toValue := by
    apply maps_list_of_isMap
    intro v hv
    rcases List.mem_map.mp hv with ⟨p, _, rfl⟩
    rfl
  rw [ofValue, hmaps, List.map_map]
  simp [Function.comp_def, Port.ofValue_toValue]

theorem Rule.Declared.writesBack {rule : Rule} (h : rule.Declared) (d : Direction) :
    WritesBack (Rule.toValue d) (Rule.ofValue d.peersField) (Rule.scalars d.peersField) rule := by
  rcases rule with ⟨peers, ports⟩
  have hpeers : ∀ entry ∈ peers,
      WritesBack PeerEntry.toValue (fun v => .peer (Peer.ofValue v)) Peer.scalars entry := by
    intro entry hentry
    rcases h.peers entry hentry with ⟨p, rfl⟩
    exact ⟨p.toValue, rfl, rfl, congrArg PeerEntry.peer p.ofValue_toValue, p.allShort_toValue⟩
  rcases exists_mapM_of_writesBack hpeers with ⟨vs, hwrites, hreads, hshort⟩
  rcases h.ports with hports | ⟨listed, hports⟩
  · cases hports
    refine ⟨.record [(d.peersField, .list vs)], ?_, rfl, ?_, ?_⟩
    · rw [toValue, hwrites]
      rfl
    · cases d <;> simp [ofValue, field_record, Direction.peersField, Ports.ofValue, hreads]
    · simpa [scalars, field_record] using hshort
  · cases hports
    refine ⟨.record [(d.peersField, .list vs), ("ports", .list (listed.map Port.toValue))], ?_,
      rfl, ?_, ?_⟩
    · rw [toValue, hwrites]
      rfl
    · cases d <;>
        simp [ofValue, field_record, Direction.peersField, Ports.ofValue_list_toValue, hreads]
    · simpa [scalars, field_record] using hshort

theorem exists_rulesValue {d : Direction} {rules : List Rule} (h : ∀ rule ∈ rules, rule.Declared) :
    ∃ v, rulesValue d (some (rules.map .rule)) = .ok v ∧
      rulesOfValue d.peersField v = rules.map .rule ∧
      AllShort (v.maps.flatMap (Rule.scalars d.peersField)) := by
  have hrules : ∀ entry ∈ rules.map RuleEntry.rule,
      WritesBack (RuleEntry.toValue d) (fun v => .rule (Rule.ofValue d.peersField v))
        (Rule.scalars d.peersField) entry := by
    intro entry hentry
    rcases List.mem_map.mp hentry with ⟨rule, hrule, rfl⟩
    rcases (h rule hrule).writesBack d with ⟨v, hwrite, hmap, hread, hshort⟩
    exact ⟨v, hwrite, hmap, congrArg RuleEntry.rule hread, hshort⟩
  rcases exists_mapM_of_writesBack hrules with ⟨vs, hwrites, hreads, hshort⟩
  refine ⟨.list vs, ?_, hreads, hshort⟩
  rw [rulesValue, hwrites]
  rfl

/-!
# Policies
-/

theorem typesOfValue_texts (types : List PolicyType) :
    typesOfValue (.texts (types.map PolicyType.name)) = types := by
  induction types with
  | nil => rfl
  | cons t rest ih =>
      have hstep : typesOfValue (.texts ((t :: rest).map PolicyType.name)) =
          t :: typesOfValue (.texts (rest.map PolicyType.name)) :=
        List.filterMap_cons_some t.ofName?_name
      rw [hstep, ih]

/-- Whether a policy is one that a document can tell: it has a name, a namespace and a selector,
and of each direction a list of rules that a document can tell. -/
structure Policy.Declared (policy : Policy) : Prop where
  name : policy.name ≠ ""
  namespaceName : policy.namespaceName ≠ ""
  podSelector : ∃ s, policy.podSelector = some s
  rules : ∀ d, ∃ rules : List Rule, policy.rules d = some (rules.map .rule) ∧
    ∀ rule ∈ rules, rule.Declared

namespace Policy

/-- A policy that a document can tell is written as a document, from which it is read again. -/
theorem Declared.read_toValue {policy : Policy} (h : policy.Declared) :
    ∃ v, policy.toValue = .ok v ∧ Policy.read v = .ok policy := by
  rcases policy with ⟨name, namespaceName, podSelector, ingress, egress, types⟩
  rcases h.podSelector with ⟨selector, hselector⟩
  rcases h.rules .ingress with ⟨ingressRules, hingress, hingressDeclared⟩
  rcases h.rules .egress with ⟨egressRules, hegress, hegressDeclared⟩
  cases hselector
  cases hingress
  cases hegress
  rcases exists_rulesValue (d := .ingress) hingressDeclared with ⟨vin, hwriteIn, hreadIn, hshortIn⟩
  rcases exists_rulesValue (d := .egress) hegressDeclared with
    ⟨vout, hwriteOut, hreadOut, hshortOut⟩
  have hname : orElseText name "unnamed-policy" = name := if_neg h.name
  have hspace : orElseText namespaceName "default" = namespaceName := if_neg h.namespaceName
  have hshort := selector.allShort_toValue
  refine ⟨_, by simp only [toValue, hwriteIn, hwriteOut]; rfl, read_eq_ok_iff.mpr ⟨?_, ?_⟩⟩
  · simp only [Direction.peersField] at hshortIn hshortOut
    show AllShort _
    simp only [scalars, allShort_append]
    refine ⟨⟨⟨?_, ?_⟩, ?_⟩, ?_⟩
    · simp [AllShort, field_record]
    · simpa [field_record] using hshort
    · simpa [field_record] using hshortIn
    · simpa [field_record] using hshortOut
  · simp only [Direction.peersField] at hreadIn hreadOut
    simp [ofValue, field_record, hname, hspace, Selector.ofValue?_toValue, typesOfValue_texts,
      hreadIn, hreadOut]

/-- Whatever a document looks like, a policy is read from it that a document can tell. -/
theorem declared_ofValue (v : Value) : (Policy.ofValue v).Declared := by
  have horElse : ∀ s fallback : String, fallback ≠ "" -> orElseText s fallback ≠ "" := by
    intro s fallback hfallback
    unfold orElseText
    split
    · exact hfallback
    · assumption
  have hrules : ∀ (peersField : String) (w : Value), ∃ rules : List Rule,
      rulesOfValue peersField w = rules.map .rule ∧ ∀ rule ∈ rules, rule.Declared := by
    intro peersField w
    refine ⟨w.maps.map (Rule.ofValue peersField), List.map_map.symm, ?_⟩
    intro rule hrule
    rcases List.mem_map.mp hrule with ⟨r, _, rfl⟩
    exact Rule.declared_ofValue peersField r
  refine
    { name := horElse _ _ (by decide)
      namespaceName := horElse _ _ (by decide)
      podSelector := ⟨_, rfl⟩
      rules := ?_ }
  intro d
  cases d with
  | ingress =>
      rcases hrules "from" ((v.field "spec").field "ingress") with ⟨rules, heq, hdeclared⟩
      exact ⟨rules, congrArg some heq, hdeclared⟩
  | egress =>
      rcases hrules "to" ((v.field "spec").field "egress") with ⟨rules, heq, hdeclared⟩
      exact ⟨rules, congrArg some heq, hdeclared⟩

theorem map_ofValue_of_read {policy p : Policy} {v : Value} (h : policy.toValue = .ok v)
    (hread : Policy.read v = .ok p) : policy.toValue.map Policy.ofValue = .ok p := by
  rw [h, (read_eq_ok_iff.mp hread).2]
  rfl

/-- Writing a policy as a document and reading it again changes nothing: neither for a policy that
a document can tell, nor for what is read from any document. -/
theorem map_ofValue_toValue :
    (∀ policy : Policy, policy.Declared ->
      policy.toValue.map Policy.ofValue = .ok policy ∧
        ∃ v, policy.toValue = .ok v ∧ Policy.read v = .ok policy) ∧
    (∀ v : Value, (Policy.ofValue v).toValue.map Policy.ofValue = .ok (Policy.ofValue v)) ∧
      ∀ (v : Value) (policy : Policy), Policy.read v = .ok policy ->
        ∃ w, policy.toValue = .ok w ∧ Policy.read w = .ok policy := by
  refine ⟨?_, ?_, ?_⟩
  · intro policy h
    rcases h.read_toValue with ⟨v, hwrite, hread⟩
    exact ⟨map_ofValue_of_read hwrite hread, v, hwrite, hread⟩
  · intro v
    rcases (declared_ofValue v).read_toValue with ⟨w, hwrite, hread⟩
    exact map_ofValue_of_read hwrite hread
  · intro v policy h
    rw [(read_eq_ok_iff.mp h).2]
    exact (declared_ofValue v).read_toValue

/-- Parts that are empty come back empty, and parts that are absent come back absent. -/
theorem map_ofValue_toValue_webPolicy :
    let labels := Labels.ofList [("tier", "front"), ("app", "web")]
    let range : IPBlock := ⟨.null, [.int 10, .text "10.1.0.0/16"]⟩
    let ingress : List Rule := [⟨[.peer ⟨some .blank, none, none⟩, .peer ⟨none, none, none⟩],
      .listed []⟩, ⟨[], .unset⟩]
    let egress : List Rule := [⟨[.peer ⟨none, some ⟨some .empty, none⟩, some range⟩],
      .listed [⟨.int 80, .null, .text "TCP"⟩, ⟨.null, .null, .null⟩]⟩]
    let policy : Policy := ⟨"web", "shop", some ⟨some labels, some []⟩, some (ingress.map .rule),
      some (egress.map .rule), [.ingress, .egress, .ingress]⟩
    policy.Declared ∧ policy.toValue.map Policy.ofValue = .ok policy ∧
      ∃ v, policy.toValue = .ok v ∧ Policy.read v = .ok policy := by
  intro labels range ingress egress policy
  have hingress : ∀ rule ∈ ingress, rule.Declared := by
    intro rule hrule
    simp only [ingress, List.mem_cons, List.not_mem_nil, or_false] at hrule
    rcases hrule with rfl | rfl
    · exact ⟨by simp, Or.inr ⟨_, rfl⟩⟩
    · exact ⟨by simp, Or.inl rfl⟩
  have hegress : ∀ rule ∈ egress, rule.Declared := by
    intro rule hrule
    rw [List.mem_singleton.mp hrule]
    exact ⟨by simp, Or.inr ⟨_, rfl⟩⟩
  have hdeclared : policy.Declared := by
    refine
      { name := by decide
        namespaceName := by decide
        podSelector := ⟨_, rfl⟩
        rules := ?_ }
    intro d
    cases d with
    | ingress => exact ⟨ingress, rfl, hingress⟩
    | egress => exact ⟨egress, rfl, hegress⟩
  exact ⟨hdeclared, map_ofValue_toValue.1 policy hdeclared⟩

end Policy
end TrafficGraph

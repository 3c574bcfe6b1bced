import TrafficGraph.Graph.Basic
import TrafficGraph.Proofs.Selector.Canonicity
import TrafficGraph.Proofs.Selector.Nesting

/-!
# What identities tell apart

The parts of an identity stand next to each other with colons between them, and
both namespaces and canonical texts may hold colons.  The identity of an
endpoint tells its parts all the same, because no canonical text ends another
one, and canonical texts tell selectors apart up to order.  The identity of a
link tells its two ends and its direction where one of the ends is the pods of
a policy in a namespace without colons.
-/

namespace TrafficGraph

/-!
# Splitting at a separator
-/

theorem append_cons_inj_of_not_mem_left {α : Type} {c : α} {a b u v : List α} (ha : c ∉ a)
    (hb : c ∉ b) (h : a ++ c :: u = b ++ c :: v) : a = b ∧ u = v := by
  induction a generalizing b with
  | nil =>
      cases b with
      | nil =>
          injection h with _ huv
          exact ⟨rfl, huv⟩
      | cons y ys =>
          injection h with hy _
          exact absurd (hy ▸ List.mem_cons_self) hb
  | cons x xs ih =>
      cases b with
      | nil =>
          injection h with hx _
          exact absurd (hx ▸ List.mem_cons_self) ha
      | cons y ys =>
          injection h with hxy htail
          rw [List.mem_cons, not_or] at ha hb
          rcases ih ha.2 hb.2 htail with ⟨hxs, huv⟩
          exact ⟨by rw [hxy, hxs], huv⟩

theorem append_cons_inj_of_not_mem_right {α : Type} {c : α} {a b u v : List α} (hu : c ∉ u)
    (hv : c ∉ v) (h : a ++ c :: u = b ++ c :: v) : a = b ∧ u = v := by
  have hreverse : u.reverse ++ c :: a.reverse = v.reverse ++ c :: b.reverse := by
    simpa using congrArg List.reverse h
  rcases append_cons_inj_of_not_mem_left (by simpa using hu) (by simpa using hv) hreverse with
    ⟨huv, hab⟩
  exact ⟨List.reverse_inj.mp hab, List.reverse_inj.mp huv⟩

/-- A text without an arrow ends at the first arrow behind it. -/
theorem append_arrow_inj {a b u v : List Char} (ha : ¬ ['-', '>'] <:+: a)
    (hb : ¬ ['-', '>'] <:+: b) (h : a ++ '-' :: '>' :: u = b ++ '-' :: '>' :: v) :
    a = b ∧ u = v := by
  have hproper : ∀ {a b w u v : List Char}, ¬ ['-', '>'] <:+: b -> b = a ++ w ->
      '-' :: '>' :: u = w ++ '-' :: '>' :: v -> w = [] := by
    intro a b w u v hb hab hw
    cases w with
    | nil => rfl
    | cons x rest =>
        cases rest with
        | nil =>
            injection hw with _ hrest
            injection hrest with hcontra _
            cases hcontra
        | cons y rest =>
            injection hw with hx hrest
            injection hrest with hy _
            exact absurd ⟨a, rest, by simp [hab, ← hx, ← hy]⟩ hb
  rcases List.append_eq_append_iff.mp h with ⟨w, hab, hw⟩ | ⟨w, hab, hw⟩
  · have hnil : w = [] := hproper hb hab hw
    subst hnil
    exact ⟨by simpa using hab.symm, by simpa using hw⟩
  · have hnil : w = [] := hproper ha hab hw
    subst hnil
    exact ⟨by simpa using hab, by simpa using hw.symm⟩

theorem append_colon_canonicalChars_inj {a b : Option Selector} {u v : List Char}
    (h : u ++ ':' :: Selector.canonicalChars a = v ++ ':' :: Selector.canonicalChars b) :
    u = v ∧ Selector.canonicalChars a = Selector.canonicalChars b := by
  have hcolon : (u ++ [':']) ++ Selector.canonicalChars a =
      (v ++ [':']) ++ Selector.canonicalChars b := by
    simpa using h
  rcases Selector.append_canonicalChars_inj hcolon with ⟨huv, hab⟩
  exact ⟨(List.append_inj' huv rfl).1, hab⟩

theorem Selector.canonical_eq_iff (a b : Option Selector) :
    canonical a = canonical b ↔ canonicalChars a = canonicalChars b := by
  unfold canonical
  constructor
  · intro h
    simpa using congrArg String.toList h
  · intro h
    rw [h]

theorem Direction.name_inj {d e : Direction} (h : d.name = e.name) : d = e := by
  have hsome : Direction.ofName? d.name = Direction.ofName? e.name := congrArg _ h
  rw [Direction.ofName?_name, Direction.ofName?_name] at hsome
  exact Option.some.inj hsome

theorem Direction.colon_not_mem_name (d : Direction) : ':' ∉ d.name.toList := by
  cases d <;> decide

theorem NodeKind.ofName?_name (k : NodeKind) : NodeKind.ofName? k.name = some k := by
  cases k <;> decide

theorem NodeKind.name_inj {k l : NodeKind} (h : k.name = l.name) : k = l := by
  have hsome : NodeKind.ofName? k.name = NodeKind.ofName? l.name := congrArg _ h
  rw [NodeKind.ofName?_name, NodeKind.ofName?_name] at hsome
  exact Option.some.inj hsome

theorem NodeKind.colon_not_mem_name (k : NodeKind) : ':' ∉ k.name.toList := by
  cases k <;> decide

/-!
# Endpoints

References with one identity agree in everything that the identity is made of.
It begins with the kind of the endpoint.
-/

namespace Reference

def idChars : Reference → List Char
  | .pod ns selector _ => ns.toList ++ ':' :: Selector.canonicalChars selector
  | .namespaces _ selector => Selector.canonicalChars selector
  | .ipBlock _ block => (cidrText block).toList
  | .combined ns spaces pods =>
    (ns.toList ++ ':' :: Selector.canonicalChars spaces) ++ ':' :: Selector.canonicalChars pods
  | .anywhere _ direction => direction.name.toList

theorem toList_sharedId (r : Reference) :
    r.sharedId.toList = r.kind.name.toList ++ ':' :: r.idChars := by
  cases r <;>
    simp [sharedId, idChars, kind, NodeKind.name, Selector.canonical, String.toList_append]

/-- Whether two references say the same about an endpoint, as far as it tells
endpoints apart: selectors by their canonical texts, addresses by theirs. -/
def SameEndpoint : Reference → Reference → Prop
  | .pod ns a _, .pod ms b _ => ns = ms ∧ Selector.canonical a = Selector.canonical b
  | .namespaces _ a, .namespaces _ b => Selector.canonical a = Selector.canonical b
  | .ipBlock _ a, .ipBlock _ b => cidrText a = cidrText b
  | .combined ns spaces pods, .combined ms spaces' pods' =>
    ns = ms ∧ Selector.canonical spaces = Selector.canonical spaces' ∧
      Selector.canonical pods = Selector.canonical pods'
  | .anywhere _ d, .anywhere _ e => d = e
  | _, _ => False

theorem sharedId_eq_of_sameEndpoint {r s : Reference} (h : r.SameEndpoint s) :
    r.sharedId = s.sharedId := by
  cases r <;> cases s <;> simp_all [SameEndpoint, sharedId]

theorem kind_eq_of_append_eq {r s : Reference} {u v : List Char}
    (h : r.sharedId.toList ++ u = s.sharedId.toList ++ v) :
    r.kind = s.kind ∧ r.idChars ++ u = s.idChars ++ v := by
  rw [toList_sharedId, toList_sharedId, List.append_assoc, List.append_assoc, List.cons_append,
    List.cons_append] at h
  rcases append_cons_inj_of_not_mem_left r.kind.colon_not_mem_name s.kind.colon_not_mem_name h with
    ⟨hkind, hchars⟩
  exact ⟨NodeKind.name_inj (String.toList_inj.mp hkind), hchars⟩

theorem sameEndpoint_of_idChars_eq {r s : Reference} (hkind : r.kind = s.kind)
    (h : r.idChars = s.idChars) : r.SameEndpoint s := by
  cases r with
  | pod ns a _ =>
      cases s with
      | pod ms b _ =>
          have hparts := append_colon_canonicalChars_inj h
          exact ⟨String.toList_inj.mp hparts.1, (Selector.canonical_eq_iff a b).mpr hparts.2⟩
      | _ => cases hkind
  | namespaces _ a =>
      cases s with
      | namespaces _ b => exact (Selector.canonical_eq_iff a b).mpr h
      | _ => cases hkind
  | ipBlock _ a =>
      cases s with
      | ipBlock _ b => exact String.toList_inj.mp h
      | _ => cases hkind
  | combined ns spaces pods =>
      cases s with
      | combined ms spaces' pods' =>
          have hpods := append_colon_canonicalChars_inj h
          have hspaces := append_colon_canonicalChars_inj hpods.1
          exact ⟨String.toList_inj.mp hspaces.1,
            (Selector.canonical_eq_iff spaces spaces').mpr hspaces.2,
            (Selector.canonical_eq_iff pods pods').mpr hpods.2⟩
      | _ => cases hkind
  | anywhere _ d =>
      cases s with
      | anywhere _ e => exact Direction.name_inj (String.toList_inj.mp h)
      | _ => cases hkind

/-- References have one identity exactly if they say the same about an endpoint,
whatever the texts in them are. -/
theorem sharedId_eq_iff (r s : Reference) : r.sharedId = s.sharedId ↔ r.SameEndpoint s := by
  constructor
  · intro h
    have hparts : r.kind = s.kind ∧ r.idChars ++ [] = s.idChars ++ [] :=
      kind_eq_of_append_eq (by rw [h])
    exact sameEndpoint_of_idChars_eq hparts.1 (by simpa using hparts.2)
  · exact sharedId_eq_of_sameEndpoint

/-- Whether two references are of one kind and agree in what counts for it: namespaces,
selectors up to the order of labels and of requirements, the text of addresses, or the
direction.  No selector at all counts as one without any part. -/
def Agrees : Reference → Reference → Prop
  | .pod ns a _, .pod ms b _ => ns = ms ∧ (a.getD .blank).Equivalent (b.getD .blank)
  | .namespaces _ a, .namespaces _ b => (a.getD .blank).Equivalent (b.getD .blank)
  | .ipBlock _ a, .ipBlock _ b => cidrText a = cidrText b
  | .combined ns spaces pods, .combined ms spaces' pods' =>
    ns = ms ∧ (spaces.getD .blank).Equivalent (spaces'.getD .blank) ∧
      (pods.getD .blank).Equivalent (pods'.getD .blank)
  | .anywhere _ d, .anywhere _ e => d = e
  | _, _ => False

theorem sameEndpoint_iff_agrees (r s : Reference) : r.SameEndpoint s ↔ r.Agrees s := by
  cases r <;> cases s <;>
    simp only [SameEndpoint, Agrees, Selector.canonical_eq_iff_equivalent]

/-- Where policies share endpoints, references have one identity exactly if they agree,
whatever characters their namespaces hold and whichever policies they come from. -/
theorem id_eq_iff_agrees (r s : Reference) (policy other : String) :
    r.id true policy = s.id true other ↔ r.Agrees s := by
  rw [id_shared, id_shared, sharedId_eq_iff, sameEndpoint_iff_agrees]

end Reference

/-!
# Pods in a namespace without colons

Such an identity ends at a place that can be found from its front, and begins at
a place that can be found from its back.
-/

theorem toList_pod_sharedId (ns : String) (selector : Option Selector) (isTarget : Bool) :
    (Reference.pod ns selector isTarget).sharedId.toList =
      "pod".toList ++ ':' :: (ns.toList ++ ':' :: Selector.canonicalChars selector) :=
  Reference.toList_sharedId _

theorem pod_append_inj {ns ms : String} {a b : Option Selector} {s t : Bool} {u v : List Char}
    (hns : ':' ∉ ns.toList) (hms : ':' ∉ ms.toList)
    (h : (Reference.pod ns a s).sharedId.toList ++ u =
      (Reference.pod ms b t).sharedId.toList ++ v) :
    (Reference.pod ns a s).sharedId = (Reference.pod ms b t).sharedId ∧ u = v := by
  have hparts : ns.toList ++ ':' :: (Selector.canonicalChars a ++ u) =
      ms.toList ++ ':' :: (Selector.canonicalChars b ++ v) := by
    simpa [Reference.idChars] using (Reference.kind_eq_of_append_eq h).2
  rcases append_cons_inj_of_not_mem_left hns hms hparts with ⟨hspace, hrest⟩
  rcases Selector.canonicalChars_append_inj hrest with ⟨hselector, huv⟩
  refine ⟨?_, huv⟩
  apply Reference.sharedId_eq_of_sameEndpoint
  exact ⟨String.toList_inj.mp hspace, (Selector.canonical_eq_iff a b).mpr hselector⟩

theorem append_pod_inj {ns ms : String} {a b : Option Selector} {s t : Bool} {x y : List Char}
    (hns : ':' ∉ ns.toList) (hms : ':' ∉ ms.toList)
    (h : x ++ ':' :: (Reference.pod ns a s).sharedId.toList =
      y ++ ':' :: (Reference.pod ms b t).sharedId.toList) :
    x = y ∧ (Reference.pod ns a s).sharedId = (Reference.pod ms b t).sharedId := by
  rw [toList_pod_sharedId, toList_pod_sharedId] at h
  have hchars : (x ++ ':' :: ("pod".toList ++ ':' :: ns.toList)) ++ ':' ::
        Selector.canonicalChars a =
      (y ++ ':' :: ("pod".toList ++ ':' :: ms.toList)) ++ ':' :: Selector.canonicalChars b := by
    simpa only [List.append_assoc, List.cons_append] using h
  rcases append_colon_canonicalChars_inj hchars with ⟨hfront, hselector⟩
  have hsplit : (x ++ ':' :: "pod".toList) ++ ':' :: ns.toList =
      (y ++ ':' :: "pod".toList) ++ ':' :: ms.toList := by
    simpa only [List.append_assoc, List.cons_append] using hfront
  rcases append_cons_inj_of_not_mem_right hns hms hsplit with ⟨hxy, hspace⟩
  refine ⟨(List.append_inj' hxy rfl).1, ?_⟩
  apply Reference.sharedId_eq_of_sameEndpoint
  exact ⟨String.toList_inj.mp hspace, (Selector.canonical_eq_iff a b).mpr hselector⟩

/-!
# Links

In the first pass one end of every link is the pods of a policy: the target of
traffic that comes in, and the source of traffic that goes out.  Inferred links
have such pods at both ends, and a scope behind them.
-/

theorem toList_linkId (source target : String) (d : Direction) (deduplicate : Bool)
    (policy : String) :
    (linkId source target d deduplicate policy).toList =
      "link:".toList ++ (source.toList ++ ':' :: (target.toList ++ ':' :: (d.name.toList ++
        (policyPart deduplicate policy).toList))) := by
  simp [linkId, String.toList_append]

theorem toList_policyPart_own (policy : String) :
    (policyPart false policy).toList = ':' :: ("policy:".toList ++ policy.toList) := by
  simp [policyPart, String.toList_append]

/-- Whether the end of a link that its direction leads to, seen from the rule, is
the pods of a policy in a namespace without colons. -/
def EndsAtPods (source target : String) : Direction → Prop
  | .ingress => ∃ p : Policy, ':' ∉ p.namespaceName.toList ∧ target = p.podId
  | .egress => ∃ p : Policy, ':' ∉ p.namespaceName.toList ∧ source = p.podId

theorem linkId_shared_inj {source target source' target' : String} {d d' : Direction}
    {policy policy' : String} (hends : EndsAtPods source target d)
    (hends' : EndsAtPods source' target' d')
    (h : linkId source target d true policy = linkId source' target' d' true policy') :
    source = source' ∧ target = target' ∧ d = d' := by
  have hchars := congrArg String.toList h
  rw [toList_linkId, toList_linkId] at hchars
  have hparts : (source.toList ++ ':' :: target.toList) ++ ':' :: d.name.toList =
      (source'.toList ++ ':' :: target'.toList) ++ ':' :: d'.name.toList := by
    simpa [policyPart] using hchars
  rcases append_cons_inj_of_not_mem_right d.colon_not_mem_name d'.colon_not_mem_name hparts with
    ⟨hjoined, hname⟩
  have hd : d = d' := Direction.name_inj (String.toList_inj.mp hname)
  subst hd
  cases d with
  | ingress =>
      rcases hends with ⟨p, hp, rfl⟩
      rcases hends' with ⟨q, hq, rfl⟩
      rcases append_pod_inj hp hq hjoined with ⟨hsource, htarget⟩
      exact ⟨String.toList_inj.mp hsource, htarget, rfl⟩
  | egress =>
      rcases hends with ⟨p, hp, rfl⟩
      rcases hends' with ⟨q, hq, rfl⟩
      rcases pod_append_inj hp hq hjoined with ⟨hsource, htarget⟩
      injection htarget with _ htarget
      exact ⟨hsource, String.toList_inj.mp htarget, rfl⟩

theorem linkId_scoped_inj {p q p' q' : Policy} {d d' : Direction} {scope scope' : String}
    (hp : ':' ∉ p.namespaceName.toList) (hq : ':' ∉ q.namespaceName.toList)
    (hp' : ':' ∉ p'.namespaceName.toList) (hq' : ':' ∉ q'.namespaceName.toList)
    (h : linkId p.podId q.podId d false scope = linkId p'.podId q'.podId d' false scope') :
    p.podId = p'.podId ∧ q.podId = q'.podId ∧ d = d' ∧ scope = scope' := by
  have hchars := congrArg String.toList h
  rw [toList_linkId, toList_linkId] at hchars
  rcases pod_append_inj hp hp' (List.append_cancel_left hchars) with ⟨hsource, hrest⟩
  injection hrest with _ hrest
  rcases pod_append_inj hq hq' hrest with ⟨htarget, htail⟩
  injection htail with _ htail
  rw [toList_policyPart_own, toList_policyPart_own] at htail
  rcases append_cons_inj_of_not_mem_left d.colon_not_mem_name d'.colon_not_mem_name htail with
    ⟨hname, hscope⟩
  exact ⟨hsource, htarget, Direction.name_inj (String.toList_inj.mp hname),
    String.toList_inj.mp (List.append_cancel_left hscope)⟩

theorem exists_pod_of_kind_eq {r : Reference} (h : r.kind = .pod) :
    ∃ selector isTarget, r = .pod r.namespaceName selector isTarget := by
  cases r with
  | pod ns selector isTarget => exact ⟨selector, isTarget, rfl⟩
  | _ => cases h

theorem linkId_shared_ne_scoped {r s : Reference} {p q : Policy} {d e : Direction}
    {policy scope : String} (hr : ':' ∉ r.namespaceName.toList)
    (hs : ':' ∉ s.namespaceName.toList) (hp : ':' ∉ p.namespaceName.toList)
    (hq : ':' ∉ q.namespaceName.toList) :
    linkId r.sharedId s.sharedId d true policy ≠ linkId p.podId q.podId e false scope := by
  intro h
  have hchars := congrArg String.toList h
  rw [toList_linkId, toList_linkId] at hchars
  have hchars := List.append_cancel_left hchars
  -- both ends are pods, since both ends of the inferred link are
  rcases exists_pod_of_kind_eq (Reference.kind_eq_of_append_eq hchars).1 with ⟨a, i, har⟩
  rw [har] at hchars
  rcases pod_append_inj hr hp hchars with ⟨_, hrest⟩
  injection hrest with _ hrest
  rcases exists_pod_of_kind_eq (Reference.kind_eq_of_append_eq hrest).1 with ⟨b, j, hbs⟩
  rw [hbs] at hrest
  rcases pod_append_inj hs hq hrest with ⟨_, htail⟩
  injection htail with _ htail
  rw [toList_policyPart_own] at htail
  -- the direction of the first link would have to hold the scope's colon
  apply d.colon_not_mem_name
  have hname : d.name.toList = e.name.toList ++ ':' :: ("policy:".toList ++ scope.toList) := by
    simpa [policyPart] using htail
  rw [hname]
  exact List.mem_append_right _ List.mem_cons_self

end TrafficGraph

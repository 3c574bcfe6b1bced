import TrafficGraph.Proofs.Graph.Deed
import TrafficGraph.Proofs.Graph.Identity

/-!
# Policies that share no nodes

Where policies are not to share nodes, an identity ends in the name of the policy
that refers to the endpoint.  A policy is told from others by its namespace as
well, which is part of the identities of pods only.  This module says exactly
which references of two policies obtain one identity all the same: either the
policies have one name and the endpoint has no namespace, or one of the names
holds what the other identity has in front of its own name.
-/

namespace TrafficGraph

/-!
# Names behind identities
-/

def policyMark : List Char := [':', 'p', 'o', 'l', 'i', 'c', 'y', ':']

theorem toList_id_own (r : Reference) (policy : String) :
    (r.id false policy).toList = r.sharedId.toList ++ (policyMark ++ policy.toList) := by
  rw [Reference.id, String.toList_append, toList_policyPart_own]
  rfl

/-- A name behind the mark is found at a later place only if it holds the text in
front of that place. -/
theorem policyMark_append_eq {a b t : List Char}
    (h : policyMark ++ a = t ++ (policyMark ++ b)) :
    t = [] ∨ ∃ u, a = u ++ (policyMark.tail ++ b) ∧ t ++ [':'] = policyMark ++ u := by
  rcases List.append_eq_append_iff.mp h with ⟨w, ht, ha⟩ | ⟨w, hmark, hback⟩
  · right
    refine ⟨w ++ [':'], ?_, ?_⟩
    · rw [ha, List.append_assoc]
      rfl
    · rw [ht, List.append_assoc]
  · have hw : w = policyMark.drop t.length := by rw [hmark, List.drop_left]
    have hlength : t.length < 9 := by
      have hsum := congrArg List.length hmark
      rw [List.length_append] at hsum
      have hmarkLength : policyMark.length = 8 := rfl
      omega
    -- the mark overlaps itself in nothing but its colon
    have hoverlap : ∀ n < 9, n = 0 ∨ policyMark.drop n = [] ∨ policyMark.drop n = [':'] ∨
        (policyMark.drop n).headD ':' ≠ ':' := by
      decide
    rcases hoverlap t.length hlength with hzero | hnil | hcolon | hhead
    · exact Or.inl (List.eq_nil_of_length_eq_zero hzero)
    · right
      rw [hw, hnil, List.append_nil] at hmark
      rw [hw, hnil, List.nil_append] at hback
      exact ⟨[':'], hback.symm, by rw [← hmark]⟩
    · right
      rw [hw, hcolon] at hmark hback
      injection hback with _ hrest
      exact ⟨[], hrest.symm, by rw [← hmark, List.append_nil]⟩
    · exfalso
      rw [← hw] at hhead
      cases w with
      | nil => exact hhead rfl
      | cons c w =>
          injection hback with hc _
          exact hhead hc.symm

/-- Whether the name of `p` holds, in front of the mark and the name of `q`, what the
identity of `s` has behind that of `r`. -/
def RunsOver (p q : Policy) (r s : Reference) : Prop :=
  ∃ u, p.name = u ++ "policy:" ++ q.name ∧ s.sharedId ++ ":" = r.sharedId ++ ":policy:" ++ u

theorem runsOver_iff (p q : Policy) (r s : Reference) :
    RunsOver p q r s ↔ ∃ u : List Char, p.name.toList = u ++ (policyMark.tail ++ q.name.toList) ∧
      s.sharedId.toList ++ [':'] = r.sharedId.toList ++ (policyMark ++ u) := by
  have htail : "policy:".toList = policyMark.tail := by decide
  have hmark : ":policy:".toList = policyMark := by decide
  have hcolon : ":".toList = [':'] := by decide
  constructor
  · rintro ⟨u, hname, hid⟩
    refine ⟨u.toList, ?_, ?_⟩
    · rw [hname, String.toList_append, String.toList_append, htail, List.append_assoc]
    · have hchars := congrArg String.toList hid
      rw [String.toList_append, String.toList_append, String.toList_append, hmark, hcolon,
        List.append_assoc] at hchars
      exact hchars
  · rintro ⟨u, hname, hid⟩
    refine ⟨String.ofList u, ?_, ?_⟩
    · apply String.toList_inj.mp
      rw [String.toList_append, String.toList_append, htail, String.toList_ofList,
        List.append_assoc]
      exact hname
    · apply String.toList_inj.mp
      rw [String.toList_append, String.toList_append, String.toList_append, hmark, hcolon,
        String.toList_ofList, List.append_assoc]
      exact hid

theorem id_own_eq_of_runsOver {p q : Policy} {r s : Reference} (h : RunsOver p q r s) :
    r.id false p.name = s.id false q.name := by
  rcases (runsOver_iff p q r s).mp h with ⟨u, hname, hid⟩
  apply String.toList_inj.mp
  calc (r.id false p.name).toList
      = (r.sharedId.toList ++ (policyMark ++ u)) ++ (policyMark.tail ++ q.name.toList) := by
        rw [toList_id_own, hname, List.append_assoc, List.append_assoc]
    _ = (s.sharedId.toList ++ [':']) ++ (policyMark.tail ++ q.name.toList) := by rw [hid]
    _ = (s.id false q.name).toList := by
        rw [toList_id_own, List.append_assoc]
        rfl

/-- References of two policies obtain one identity exactly if the policies have one
name and the references are to one endpoint, or one of the names runs over. -/
theorem id_own_eq_iff (p q : Policy) (r s : Reference) :
    r.id false p.name = s.id false q.name ↔
      p.name = q.name ∧ r.sharedId = s.sharedId ∨ RunsOver p q r s ∨ RunsOver q p s r := by
  have hbehind : ∀ (p q : Policy) (r s : Reference) (t : List Char),
      s.sharedId.toList = r.sharedId.toList ++ t ->
      policyMark ++ p.name.toList = t ++ (policyMark ++ q.name.toList) ->
      p.name = q.name ∧ r.sharedId = s.sharedId ∨ RunsOver p q r s := by
    intro p q r s t hid hname
    rcases policyMark_append_eq hname with rfl | ⟨u, hu, hmark⟩
    · left
      refine ⟨String.toList_inj.mp (List.append_cancel_left hname), String.toList_inj.mp ?_⟩
      rw [hid, List.append_nil]
    · right
      refine (runsOver_iff p q r s).mpr ⟨u, hu, ?_⟩
      rw [hid, List.append_assoc, hmark]
  constructor
  · intro h
    have hchars := congrArg String.toList h
    rw [toList_id_own, toList_id_own] at hchars
    rcases List.append_eq_append_iff.mp hchars with ⟨t, hid, hname⟩ | ⟨t, hid, hname⟩
    · rcases hbehind p q r s t hid hname with hsame | hover
      · exact Or.inl hsame
      · exact Or.inr (Or.inl hover)
    · rcases hbehind q p s r t hid hname with ⟨hnames, hids⟩ | hover
      · exact Or.inl ⟨hnames.symm, hids.symm⟩
      · exact Or.inr (Or.inr hover)
  · rintro (⟨hname, hid⟩ | hover | hover)
    · rw [Reference.id, Reference.id, hname, hid]
    · exact id_own_eq_of_runsOver hover
    · exact (id_own_eq_of_runsOver hover).symm

/-!
# Clashes

The references of a policy are made from its namespace.  Two policies of one name
have different namespaces, so endpoints in a namespace tell them apart.
-/

/-- Whether two references say the same about an endpoint that has no namespace. -/
def Reference.SameWithoutNamespace : Reference → Reference → Prop
  | .namespaces _ a, .namespaces _ b => Selector.canonical a = Selector.canonical b
  | .ipBlock _ a, .ipBlock _ b => cidrText a = cidrText b
  | .anywhere _ d, .anywhere _ e => d = e
  | _, _ => False

theorem Reference.sameWithoutNamespace_iff {r s : Reference}
    (h : r.namespaceName ≠ s.namespaceName) : r.SameWithoutNamespace s ↔ r.SameEndpoint s := by
  cases r <;> cases s <;> simp_all [SameWithoutNamespace, SameEndpoint, namespaceName]

/-- Whether references of two policies are mixed up: an endpoint that has no
namespace, under one name, or a name that runs over. -/
def Clash (p q : Policy) (r s : Reference) : Prop :=
  p.name = q.name ∧ r.SameWithoutNamespace s ∨ RunsOver p q r s ∨ RunsOver q p s r

/-- References of different policies obtain one identity exactly if they clash. -/
theorem id_own_eq_iff_clash {p q : Policy} (hother : p.sameAs q = false) {r s : Reference}
    (hr : r.namespaceName = p.namespaceName) (hs : s.namespaceName = q.namespaceName) :
    r.id false p.name = s.id false q.name ↔ Clash p q r s := by
  rw [id_own_eq_iff, Clash]
  apply or_congr_left
  apply and_congr_right
  intro hname
  have hspaces : r.namespaceName ≠ s.namespaceName := by
    intro heq
    rw [hr, hs] at heq
    simp [Policy.sameAs, hname, heq] at hother
  rw [Reference.sharedId_eq_iff, Reference.sameWithoutNamespace_iff hspaces]

def Deed.Apart (a b : Deed) : Prop :=
  ∀ r ∈ a.references, ∀ s ∈ b.references, ¬ Clash a.policy b.policy r s

theorem Deed.disjoint_ids_iff_apart {b : Build} {policies : List Policy} {first second : Deed}
    (hfirst : first ∈ b.deeds policies) (hsecond : second ∈ b.deeds policies)
    (hother : first.policy.sameAs second.policy = false) :
    (∀ id ∈ first.ids false, id ∉ second.ids false) ↔ first.Apart second := by
  constructor
  · intro hdisjoint r hr s hs hclash
    have hid := (id_own_eq_iff_clash hother (namespaceName_of_mem_references hfirst hr)
      (namespaceName_of_mem_references hsecond hs)).mpr hclash
    apply hdisjoint (r.id false first.policy.name) (List.mem_map_of_mem hr)
    rw [hid]
    exact List.mem_map_of_mem hs
  · intro hapart id hmem hmem'
    rcases List.mem_map.mp hmem with ⟨r, hr, rfl⟩
    rcases List.mem_map.mp hmem' with ⟨s, hs, hid⟩
    apply hapart r hr s hs
    exact (id_own_eq_iff_clash hother (namespaceName_of_mem_references hfirst hr)
      (namespaceName_of_mem_references hsecond hs)).mp hid.symm

/-!
# The nodes of a pass
-/

theorem countP_eq_one_iff_pairwise {α : Type} (f : α → List String) (xs : List α) :
    (∀ id, (∃ x ∈ xs, id ∈ f x) -> xs.countP (fun x => decide (id ∈ f x)) = 1) ↔
      xs.Pairwise fun x y => ∀ id ∈ f x, id ∉ f y := by
  induction xs with
  | nil =>
      simp
  | cons x rest ih =>
      rw [List.pairwise_cons, ← ih]
      constructor
      · intro hone
        have hrest : ∀ id ∈ f x, rest.countP (fun y => decide (id ∈ f y)) = 0 := by
          intro id hid
          have hcount := hone id ⟨x, List.mem_cons_self, hid⟩
          rw [List.countP_cons_of_pos (by simpa using hid)] at hcount
          omega
        constructor
        · intro y hy id hid hidy
          have hnone := List.countP_eq_zero.mp (hrest id hid) y hy
          exact hnone (by simpa using hidy)
        · rintro id ⟨y, hy, hid⟩
          have hcount := hone id ⟨y, List.mem_cons_of_mem x hy, hid⟩
          rw [List.countP_cons_of_neg] at hcount
          · exact hcount
          · intro hidx
            have hnone := List.countP_eq_zero.mp (hrest id (by simpa using hidx)) y hy
            exact hnone (by simpa using hid)
      · rintro ⟨hx, hrest⟩ id ⟨y, hy, hid⟩
        by_cases hidx : id ∈ f x
        · have hnone : rest.countP (fun z => decide (id ∈ f z)) = 0 := by
            apply List.countP_eq_zero.mpr
            intro z hz hidz
            exact hx z hz id hidx (by simpa using hidz)
          rw [List.countP_cons_of_pos (by simpa using hidx), hnone]
        · rw [List.countP_cons_of_neg (by simpa using hidx)]
          apply hrest id
          rcases List.mem_cons.mp hy with rfl | hy
          · exact absurd hid hidx
          · exact ⟨y, hy, hid⟩

theorem nodes_compile_own (policies : List Policy) :
    (Graph.compile false policies).nodes = (Build.ofPolicies false policies).nodes.nodes :=
  Graph.nodes_compile false policies

theorem Build.pairwise_passDeeds {deduplicate : Bool} {policies : List Policy}
    {R : Policy → Policy → Prop} (h : policies.Pairwise R) :
    (passDeeds deduplicate policies).Pairwise fun a b => R a.policy b.policy := by
  have hmap := map_policy_deeds (empty deduplicate) policies
  rw [← hmap, List.pairwise_map] at h
  exact h

/-- Where policies are not to share nodes, different policies obtain different
identities exactly if they are pairwise apart, and this is also exactly when every
node of the graph is one that a single policy has referred to. -/
theorem ownNodes_iff_apart (policies : List Policy)
    (hdistinct : policies.Pairwise fun p q => p.sameAs q = false) :
    let deeds := Build.passDeeds false policies
    let apart := deeds.Pairwise Deed.Apart
    (deeds.Pairwise (fun a b => ∀ id ∈ a.ids false, id ∉ b.ids false) ↔ apart) ∧
      ((∀ node ∈ (Graph.compile false policies).nodes,
        deeds.countP (fun deed => decide (node.id ∈ deed.ids false)) = 1) ↔ apart) := by
  intro deeds apart
  have hdeeds : deeds.Pairwise fun a b => a.policy.sameAs b.policy = false :=
    Build.pairwise_passDeeds hdistinct
  have hdisjoint : deeds.Pairwise (fun a b => ∀ id ∈ a.ids false, id ∉ b.ids false) ↔ apart := by
    constructor
    · intro hdisjoint
      apply (hdeeds.and hdisjoint).imp_of_mem
      rintro a b ha hb ⟨hother, hab⟩
      exact (Deed.disjoint_ids_iff_apart ha hb hother).mp hab
    · intro hapart
      apply (hdeeds.and hapart).imp_of_mem
      rintro a b ha hb ⟨hother, hab⟩
      exact (Deed.disjoint_ids_iff_apart ha hb hother).mpr hab
  refine ⟨hdisjoint, ?_⟩
  rw [← hdisjoint, ← countP_eq_one_iff_pairwise (fun deed => deed.ids false) deeds]
  constructor
  · intro hone id hid
    have hmem : id ∈ (Build.ofPolicies false policies).nodes.ids := Build.mem_ids_ofPolicies.mpr hid
    rcases List.mem_map.mp hmem with ⟨node, hnode, rfl⟩
    rw [← nodes_compile_own] at hnode
    exact hone node hnode
  · intro hone node hnode
    rw [nodes_compile_own] at hnode
    exact hone node.id (Build.mem_ids_ofPolicies.mp (List.mem_map_of_mem hnode))

def teamPolicies : List Policy :=
  let everybody := some [.rule ⟨[], .unset⟩]
  [⟨"open-door", "shop", some .blank, everybody, none, []⟩,
    ⟨"open-gate", "yard", some .blank, everybody, none, []⟩]

theorem apart_teamPolicies :
    (teamPolicies.Pairwise fun p q => p.sameAs q = false) ∧
      (Build.passDeeds false teamPolicies).Pairwise Deed.Apart := by
  have hdistinct : teamPolicies.Pairwise fun p q => p.sameAs q = false := by decide
  refine ⟨hdistinct, (ownNodes_iff_apart teamPolicies hdistinct).1.mp ?_⟩
  decide +kernel

def namesakePolicies : List Policy :=
  let everybody := some [.rule ⟨[], .unset⟩]
  [⟨"allow", "a", some .blank, everybody, none, []⟩,
    ⟨"allow", "b", some .blank, everybody, none, []⟩]

/-- Everybody is one node for both of the policies. -/
theorem shareNode_namesakePolicies :
    (namesakePolicies.Pairwise fun p q => p.sameAs q = false) ∧
      ¬ ((Build.passDeeds false namesakePolicies).Pairwise
        fun a b => ∀ id ∈ a.ids false, id ∉ b.ids false) ∧
      ∃ node ∈ (Graph.compile false namesakePolicies).nodes,
        node.id = "anywhere:ingress:policy:allow" ∧
          (Build.passDeeds false namesakePolicies).countP
            (fun deed => decide (node.id ∈ deed.ids false)) = 2 := by
  decide +kernel

/-!
# Plain names

Names without colons run over nothing, so policies that differ in such names share
no nodes.
-/

theorem RunsOver.colon_mem {p q : Policy} {r s : Reference} (h : RunsOver p q r s) :
    ':' ∈ p.name.toList := by
  rcases (runsOver_iff p q r s).mp h with ⟨u, hname, _⟩
  rw [hname]
  apply List.mem_append_right
  apply List.mem_append_left
  decide

theorem apart_of_plain_names {policies : List Policy}
    (hnames : policies.Pairwise fun p q => p.name ≠ q.name)
    (hplain : ∀ p ∈ policies, ':' ∉ p.name.toList) :
    (Build.passDeeds false policies).Pairwise Deed.Apart := by
  apply (Build.pairwise_passDeeds hnames).imp_of_mem
  rintro a b ha hb hname r _ s _ (⟨heq, _⟩ | hover | hover)
  · exact hname heq
  · exact hplain a.policy (Build.exists_build_of_mem_deeds ha).1 hover.colon_mem
  · exact hplain b.policy (Build.exists_build_of_mem_deeds hb).1 hover.colon_mem

end TrafficGraph

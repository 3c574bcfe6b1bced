import Mathlib.Data.List.Basic
import Mathlib.Data.List.Pairwise
import TrafficGraph.Proofs.Graph.Identity
import TrafficGraph.Proofs.Graph.Integrity
import TrafficGraph.Proofs.Selector.Reach

/-!
# Links between policies

A policy reaches another one in a direction if some peer of one of its rules does.
The inferred links are one for each two policies and each direction in which the
first one reaches the second one, with the ports and the kind of the first peer
that does.  An identity of an inferred link tells the two policies and the
direction, and no link of the first pass has such an identity, so none of them
is taken when its turn comes.
-/

namespace TrafficGraph

/-!
# What is to be inferred
-/

/-- The link that is inferred from a peer of a rule of `owner` that reaches
`target`.  Traffic into the pods of `owner` comes from those of `target`. -/
def crossLink (owner target : Policy) (d : Direction) (ports : Ports) (combined : Bool) : Link :=
  match d with
  | .ingress =>
    { source := target.podId, target := owner.podId, direction := .ingress, ports := ports
      policies := [target.name, owner.name], ruleIndex := none, crossPolicy := true
      combinedSelector := combined, breakdown := none, detailed := false
      label := some (target.name ++ " → " ++ owner.name) }
  | .egress =>
    { source := owner.podId, target := target.podId, direction := .egress, ports := ports
      policies := [owner.name, target.name], ruleIndex := none, crossPolicy := true
      combinedSelector := combined, breakdown := none, detailed := false
      label := some (owner.name ++ " → " ++ target.name) }

def PeerEntry.isPeer : PeerEntry → Bool
  | .peer _ => true
  | _ => false

def RuleEntry.isTyped : RuleEntry → Bool
  | .rule r => r.peers.all PeerEntry.isPeer
  | _ => false

namespace Policy

/-- Whether a policy has a namespace without colons and a name without arrows. -/
structure Plain (policy : Policy) : Prop where
  namespaceName : ':' ∉ policy.namespaceName.toList
  name : ¬ ['-', '>'] <:+: policy.name.toList

/-- Whether all rules of a policy are rules and all of their peers are peers. -/
def Typed (policy : Policy) : Prop :=
  ∀ d, ∀ entry ∈ (policy.rules d).getD [],
    ∃ rule, entry = .rule rule ∧ ∀ peer ∈ rule.peers, ∃ p, peer = .peer p

theorem typed_iff (policy : Policy) :
    policy.Typed ↔
      ∀ d ∈ Direction.all, ((policy.rules d).getD []).all RuleEntry.isTyped = true := by
  constructor
  · intro h d _
    rw [List.all_eq_true]
    intro entry hentry
    rcases h d entry hentry with ⟨rule, rfl, hpeers⟩
    rw [RuleEntry.isTyped, List.all_eq_true]
    intro peer hpeer
    rcases hpeers peer hpeer with ⟨p, rfl⟩
    rfl
  · intro h d entry hentry
    have htyped := List.all_eq_true.mp (h d d.mem_all) entry hentry
    cases entry with
    | absent => cases htyped
    | malformed => cases htyped
    | rule rule =>
        refine ⟨rule, rfl, ?_⟩
        intro peer hpeer
        have hpeer := List.all_eq_true.mp htyped peer hpeer
        cases peer with
        | peer p => exact ⟨p, rfl⟩
        | _ => cases hpeer

instance : DecidablePred Typed := fun policy => decidable_of_iff _ policy.typed_iff.symm

def ruledPeer? (rule : Rule) (entry : PeerEntry) : Option (Rule × Peer) :=
  entry.seenPeer?.map fun p => (rule, p)

def entryPeers : RuleEntry → List (Rule × Peer)
  | .rule rule => rule.peers.filterMap (ruledPeer? rule)
  | .absent => []
  | .malformed => []

def rulePeers (policy : Policy) (d : Direction) : List (Rule × Peer) :=
  ((policy.rules d).getD []).flatMap entryPeers

/-- The link that is inferred between a policy and another one in a direction, if
some peer of its rules reaches the other one: the first such peer counts. -/
def crossLink? (owner target : Policy) (d : Direction) : Option Link :=
  if owner.sameAs target then none
  else
    ((owner.rulePeers d).find? fun peer => decide (peer.2.Reaches owner target)).map fun peer =>
      crossLink owner target d peer.1.ports.orAll peer.2.isCombined

/-- The identity of an inferred link from the pods of a policy to those of another
one. -/
def pairId (first second : Policy) (d : Direction) : String :=
  linkId first.podId second.podId d false (first.name ++ "->" ++ second.name)

def crossId (owner target : Policy) : Direction → String
  | .ingress => target.pairId owner .ingress
  | .egress => owner.pairId target .egress

def inferred? (owner target : Policy) (d : Direction) (peer : Rule × Peer) :
    Option (String × Link) :=
  if owner.sameAs target then none
  else if peer.2.Reaches owner target then
    some (owner.crossId target d, crossLink owner target d peer.1.ports.orAll peer.2.isCombined)
  else none

def crossEntries (owner : Policy) (policies : List Policy) : List (String × Link) :=
  Direction.all.flatMap fun d =>
    (owner.rulePeers d).flatMap fun peer =>
      policies.filterMap fun target => owner.inferred? target d peer

theorem inferred?_eq_some_iff {owner target : Policy} {d : Direction} {peer : Rule × Peer}
    {entry : String × Link} :
    owner.inferred? target d peer = some entry ↔
      (owner.sameAs target = false ∧ peer.2.Reaches owner target) ∧
        entry = (owner.crossId target d,
          crossLink owner target d peer.1.ports.orAll peer.2.isCombined) := by
  unfold inferred?
  cases owner.sameAs target with
  | true => simp
  | false => by_cases hreaches : peer.2.Reaches owner target <;> simp [hreaches, eq_comm]

/-!
# Proposals of typed policies
-/

theorem pairLink_eq (owner target : Policy) (p : Peer) (d : Direction) (ports : Ports) :
    owner.pairLink target p d ports =
      (owner.crossId target d, crossLink owner target d ports p.isCombined) := by
  cases d <;> rfl

theorem propose?_seen {owner target : Policy} {hasNode : String → Bool}
    (hnode : hasNode target.podId = true) (d : Direction) (rule : Rule) {entry : PeerEntry}
    {p : Peer} (hseen : entry.seenPeer? = some p) :
    owner.propose? hasNode d rule.ports.orAll entry target =
      (owner.inferred? target d (rule, p)).map fun entry => .link entry.1 entry.2 := by
  unfold propose? inferred?
  rw [hseen]
  by_cases hsame : owner.sameAs target = true
  · rw [if_pos hsame, if_pos hsame]
    rfl
  · rw [if_neg hsame, if_neg hsame]
    simp only [pairLink_eq]
    by_cases hreaches : p.Reaches owner target
    · have hselects := (p.selects_iff_reaches owner target).mpr hreaches
      simp [hselects, hnode, hreaches]
    · have hselects := mt (p.selects_iff_reaches owner target).mp hreaches
      simp [hselects, hreaches]

theorem proposals_seen {owner : Policy} {policies : List Policy} {hasNode : String → Bool}
    (hnodes : ∀ target ∈ policies, hasNode target.podId = true) (d : Direction) (rule : Rule)
    {entry : PeerEntry} {p : Peer} (hseen : entry.seenPeer? = some p) :
    policies.filterMap (owner.propose? hasNode d rule.ports.orAll entry) =
      (policies.filterMap fun target => owner.inferred? target d (rule, p)).map
        fun entry => .link entry.1 entry.2 := by
  rw [List.map_filterMap]
  apply List.filterMap_congr
  intro target htarget
  exact propose?_seen (hnodes target htarget) d rule hseen

theorem ruleProposals_rule {owner : Policy} {policies : List Policy} {hasNode : String → Bool}
    (hnodes : ∀ target ∈ policies, hasNode target.podId = true) (d : Direction) {rule : Rule}
    (hpeers : ∀ peer ∈ rule.peers, ∃ p, peer = .peer p) :
    owner.ruleProposals policies hasNode d (.rule rule) =
      ((entryPeers (.rule rule)).flatMap fun peer =>
        policies.filterMap fun target => owner.inferred? target d peer).map
        fun entry => .link entry.1 entry.2 := by
  rw [ruleProposals, entryPeers]
  generalize rule.peers = peers at hpeers
  induction peers with
  | nil => rfl
  | cons peer rest ih =>
      rcases hpeers peer List.mem_cons_self with ⟨p, rfl⟩
      have hseen : (PeerEntry.peer p).seenPeer? = some p := rfl
      rw [List.flatMap_cons, proposals_seen hnodes d rule hseen, ih fun other hother =>
        hpeers other (List.mem_cons_of_mem _ hother)]
      have hcons : (PeerEntry.peer p :: rest).filterMap (ruledPeer? rule) =
          (rule, p) :: rest.filterMap (ruledPeer? rule) := rfl
      rw [hcons, List.flatMap_cons, List.map_append]

theorem proposals_eq_crossEntries {owner : Policy} (htyped : owner.Typed)
    {policies : List Policy} {hasNode : String → Bool} (howner : hasNode owner.podId = true)
    (hnodes : ∀ target ∈ policies, hasNode target.podId = true) :
    owner.proposals policies hasNode =
      (owner.crossEntries policies).map fun entry => .link entry.1 entry.2 := by
  rw [proposals, if_pos howner, crossEntries, List.map_flatMap]
  congr 1
  funext d
  rw [rulePeers, List.flatMap_assoc, List.map_flatMap]
  apply List.flatMap_congr
  intro entry hentry
  rcases htyped d entry hentry with ⟨rule, rfl, hpeers⟩
  exact ruleProposals_rule hnodes d hpeers

/-!
# Identities of inferred links
-/

theorem eq_of_sameAs {policies : List Policy}
    (hdistinct : policies.Pairwise fun p q => p.sameAs q = false) {p q : Policy}
    (hp : p ∈ policies) (hq : q ∈ policies) (h : p.sameAs q = true) : p = q := by
  by_contra hne
  have hsymm : Std.Symm fun p q : Policy => p.sameAs q = false :=
    ⟨fun p q hpq => (q.sameAs_comm p).trans hpq⟩
  have hapart := hdistinct.forall hp hq hne
  rw [h] at hapart
  cases hapart

theorem namespaceName_eq_of_podId_eq {p q : Policy} (h : p.podId = q.podId) :
    p.namespaceName = q.namespaceName :=
  ((Reference.sharedId_eq_iff p.podReference q.podReference).mp h).1

theorem sameAs_of_podId_eq {p q : Policy} (hpod : p.podId = q.podId)
    (hname : p.name.toList = q.name.toList) : p.sameAs q = true := by
  unfold sameAs
  rw [namespaceName_eq_of_podId_eq hpod, String.toList_inj.mp hname, beq_self_eq_true,
    beq_self_eq_true]
  rfl

/-- The identity of an inferred link tells its pods, the names of the two policies and
its direction. -/
theorem pairId_parts {p q p' q' : Policy} {d d' : Direction} (hp : p.Plain) (hq : q.Plain)
    (hp' : p'.Plain) (hq' : q'.Plain) (h : p.pairId q d = p'.pairId q' d') :
    (p.podId = p'.podId ∧ q.podId = q'.podId) ∧ (p.name = p'.name ∧ q.name = q'.name) ∧
      d = d' := by
  rcases linkId_scoped_inj hp.namespaceName hq.namespaceName hp'.namespaceName hq'.namespaceName
    h with ⟨hfirst, hsecond, hd, hscope⟩
  have hnames : p.name.toList ++ '-' :: '>' :: q.name.toList =
      p'.name.toList ++ '-' :: '>' :: q'.name.toList := by
    simpa [String.toList_append] using congrArg String.toList hscope
  rcases append_arrow_inj hp.name hp'.name hnames with ⟨hname, hname'⟩
  exact ⟨⟨hfirst, hsecond⟩, ⟨String.toList_inj.mp hname, String.toList_inj.mp hname'⟩, hd⟩

theorem pairId_inj {p q p' q' : Policy} {d d' : Direction} (hp : p.Plain) (hq : q.Plain)
    (hp' : p'.Plain) (hq' : q'.Plain) (h : p.pairId q d = p'.pairId q' d') :
    p.sameAs p' = true ∧ q.sameAs q' = true ∧ d = d' := by
  rcases pairId_parts hp hq hp' hq' h with ⟨⟨hfirst, hsecond⟩, ⟨hname, hname'⟩, hd⟩
  exact ⟨sameAs_of_podId_eq hfirst (congrArg String.toList hname),
    sameAs_of_podId_eq hsecond (congrArg String.toList hname'), hd⟩

theorem crossId_inj {owner target owner' target' : Policy} {d d' : Direction}
    (howner : owner.Plain) (htarget : target.Plain) (howner' : owner'.Plain)
    (htarget' : target'.Plain) (h : owner.crossId target d = owner'.crossId target' d') :
    owner.sameAs owner' = true ∧ target.sameAs target' = true ∧ d = d' := by
  cases d with
  | ingress =>
      cases d' with
      | ingress =>
          rcases pairId_inj htarget howner htarget' howner' h with ⟨hfirst, hsecond, hd⟩
          exact ⟨hsecond, hfirst, hd⟩
      | egress => cases (pairId_inj htarget howner howner' htarget' h).2.2
  | egress =>
      cases d' with
      | ingress => cases (pairId_inj howner htarget htarget' howner' h).2.2
      | egress => exact pairId_inj howner htarget howner' htarget' h

theorem crossId_ne_linkId {owner target : Policy} (howner : owner.Plain) (htarget : target.Plain)
    (d : Direction) {r s : Reference} (hr : ':' ∉ r.namespaceName.toList)
    (hs : ':' ∉ s.namespaceName.toList) (e : Direction) (policy : String) :
    linkId r.sharedId s.sharedId e true policy ≠ owner.crossId target d := by
  cases d with
  | ingress => exact linkId_shared_ne_scoped hr hs htarget.namespaceName howner.namespaceName
  | egress => exact linkId_shared_ne_scoped hr hs howner.namespaceName htarget.namespaceName

/-- Whether a link is inferred from the rules of a policy for a direction and another policy. -/
def Infers (owner target : Policy) (d : Direction) : Prop :=
  owner.sameAs target = false ∧ ∃ peer ∈ owner.rulePeers d, peer.2.Reaches owner target

theorem mem_keys_crossEntries (owner : Policy) (policies : List Policy) (id : String) :
    id ∈ (owner.crossEntries policies).map Prod.fst ↔
      ∃ target ∈ policies, ∃ d, owner.Infers target d ∧ id = owner.crossId target d := by
  constructor
  · intro hid
    rcases List.mem_map.mp hid with ⟨entry, hentry, rfl⟩
    rcases List.mem_flatMap.mp hentry with ⟨d, _, hd⟩
    rcases List.mem_flatMap.mp hd with ⟨peer, hpeer, htargets⟩
    rcases List.mem_filterMap.mp htargets with ⟨target, htarget, hsome⟩
    rcases inferred?_eq_some_iff.mp hsome with ⟨⟨hapart, hreaches⟩, rfl⟩
    exact ⟨target, htarget, d, ⟨hapart, peer, hpeer, hreaches⟩, rfl⟩
  · rintro ⟨target, htarget, d, ⟨hapart, peer, hpeer, hreaches⟩, rfl⟩
    have hentry : (owner.crossId target d,
        crossLink owner target d peer.1.ports.orAll peer.2.isCombined) ∈
          owner.crossEntries policies := by
      refine List.mem_flatMap.mpr ⟨d, d.mem_all, List.mem_flatMap.mpr ⟨peer, hpeer, ?_⟩⟩
      refine List.mem_filterMap.mpr ⟨target, htarget, ?_⟩
      exact inferred?_eq_some_iff.mpr ⟨⟨hapart, hreaches⟩, rfl⟩
    exact List.mem_map.mpr ⟨_, hentry, rfl⟩

/-!
# What has the identity of one link

Of all that the policies give rise to, exactly what the peers of a policy in a
direction give rise to about another one has the identity of the link between
the two in that direction.
-/

theorem exists_of_inferred?_eq_some {owner target : Policy} {d : Direction}
    {peer : Rule × Peer} {entry : String × Link}
    (h : owner.inferred? target d peer = some entry) :
    entry.1 = owner.crossId target d ∧ entry.2.crossPolicy = true := by
  rcases (inferred?_eq_some_iff.mp h).2 with rfl
  cases d <;> exact ⟨rfl, rfl⟩

theorem exists_of_mem_crossEntries {owner : Policy} {policies : List Policy}
    {entry : String × Link} (h : entry ∈ owner.crossEntries policies) :
    ∃ target ∈ policies, ∃ d,
      entry.1 = owner.crossId target d ∧ entry.2.crossPolicy = true := by
  rcases List.mem_flatMap.mp h with ⟨d, _, hd⟩
  rcases List.mem_flatMap.mp hd with ⟨peer, _, hpeer⟩
  rcases List.mem_filterMap.mp hpeer with ⟨target, htarget, hentry⟩
  exact ⟨target, htarget, d, exists_of_inferred?_eq_some hentry⟩

theorem flatMap_eq_of_others_nil {α β : Type} {R : α → α → Prop}
    (hsymm : ∀ x y, R x y -> R y x) {xs : List α} (hpairwise : xs.Pairwise R) {x : α}
    (hx : x ∈ xs) {f : α → List β} (hothers : ∀ y ∈ xs, R y x -> f y = []) :
    xs.flatMap f = f x := by
  rcases List.append_of_mem hx with ⟨front, back, rfl⟩
  rw [List.pairwise_append, List.pairwise_cons] at hpairwise
  have hfront : front.flatMap f = [] := by
    rw [List.flatMap_eq_nil_iff]
    intro y hy
    apply hothers y (List.mem_append_left _ hy)
    exact hpairwise.2.2 y hy x List.mem_cons_self
  have hback : back.flatMap f = [] := by
    rw [List.flatMap_eq_nil_iff]
    intro y hy
    apply hothers y (List.mem_append_right _ (List.mem_cons_of_mem x hy))
    exact hsymm x y (hpairwise.2.1.1 y hy)
  rw [List.flatMap_append, List.flatMap_cons, hfront, hback, List.nil_append, List.append_nil]

section OneLink

variable {policies : List Policy} (hdistinct : policies.Pairwise fun p q => p.sameAs q = false)
  (hplain : ∀ p ∈ policies, p.Plain) {owner target : Policy} (howner : owner ∈ policies)
  (htarget : target ∈ policies)

include hdistinct hplain howner htarget

theorem filter_inferred? (d : Direction) (peer : Rule × Peer) :
    ((policies.filterMap fun other => owner.inferred? other d peer).filter
        fun entry => entry.1 == owner.crossId target d) =
      (owner.inferred? target d peer).toList := by
  rw [List.filterMap_eq_flatMap_toList, List.filter_flatMap]
  rw [flatMap_eq_of_others_nil (fun p q h => (q.sameAs_comm p).trans h) hdistinct htarget]
  · rw [List.filter_eq_self]
    intro entry hentry
    have hid := (exists_of_inferred?_eq_some (Option.mem_toList.mp hentry)).1
    rw [hid]
    exact beq_self_eq_true _
  · intro other hother hne
    rw [List.filter_eq_nil_iff]
    intro entry hentry hid
    have hotherId := (exists_of_inferred?_eq_some (Option.mem_toList.mp hentry)).1
    have hsame := (crossId_inj (hplain owner howner) (hplain other hother) (hplain owner howner)
      (hplain target htarget) (hotherId.symm.trans (eq_of_beq hid))).2.1
    rw [hne] at hsame
    cases hsame

theorem filter_crossEntries (d : Direction) :
    ((policies.flatMap fun other => other.crossEntries policies).filter
        fun entry => entry.1 == owner.crossId target d) =
      (owner.rulePeers d).filterMap (owner.inferred? target d) := by
  -- whatever has the identity comes from this owner and this direction
  have hinj : ∀ other ∈ policies, ∀ e, ∀ third ∈ policies,
      other.crossId third e = owner.crossId target d -> other.sameAs owner = true ∧ e = d := by
    intro other hother e third hthird hid
    rcases crossId_inj (hplain other hother) (hplain third hthird) (hplain owner howner)
      (hplain target htarget) hid with ⟨hsame, _, hd⟩
    exact ⟨hsame, hd⟩
  rw [List.filter_flatMap,
    flatMap_eq_of_others_nil (fun p q h => (q.sameAs_comm p).trans h) hdistinct howner]
  · have hdirections : Direction.all.Pairwise fun e f => e ≠ f := by decide
    have hd : d ∈ Direction.all := by cases d <;> decide
    rw [crossEntries, List.filter_flatMap,
      flatMap_eq_of_others_nil (fun _ _ h => Ne.symm h) hdirections hd]
    · rw [List.filter_flatMap, List.filterMap_eq_flatMap_toList]
      apply List.flatMap_congr
      intro peer _
      exact filter_inferred? hdistinct hplain howner htarget d peer
    · intro e _ hne
      rw [List.filter_eq_nil_iff]
      intro entry hentry hid
      rcases List.mem_flatMap.mp hentry with ⟨peer, _, hpeer⟩
      rcases List.mem_filterMap.mp hpeer with ⟨third, hthird, hthirdEntry⟩
      have hthirdId := (exists_of_inferred?_eq_some hthirdEntry).1
      exact hne (hinj owner howner e third hthird (hthirdId.symm.trans (eq_of_beq hid))).2
  · intro other hother hne
    rw [List.filter_eq_nil_iff]
    intro entry hentry hid
    rcases exists_of_mem_crossEntries hentry with ⟨third, hthird, e, hthirdId, _⟩
    have hsame := (hinj other hother e third hthird (hthirdId.symm.trans (eq_of_beq hid))).1
    rw [hne] at hsame
    cases hsame

end OneLink

def due? (owner target : Policy) (d : Direction) : Option (String × Link) :=
  (owner.crossLink? target d).map fun link => (owner.crossId target d, link)

theorem fst_eq_of_due?_eq_some {owner target : Policy} {d : Direction}
    {entry : String × Link} (h : owner.due? target d = some entry) :
    entry.1 = owner.crossId target d := by
  rcases Option.map_eq_some_iff.mp h with ⟨link, _, rfl⟩
  rfl

/-- The first peer that reaches a policy is the first one that gives rise to a link. -/
theorem head?_crossEntries (owner target : Policy) (d : Direction) :
    ((owner.rulePeers d).filterMap (owner.inferred? target d)).head? =
      owner.due? target d := by
  unfold due? crossLink?
  by_cases hsame : owner.sameAs target = true
  · have hnone : owner.inferred? target d = fun _ => none := by
      funext peer
      rw [inferred?, if_pos hsame]
    rw [if_pos hsame, hnone]
    simp
  · rw [if_neg hsame]
    induction owner.rulePeers d with
    | nil => rfl
    | cons peer rest ih =>
        by_cases hreaches : peer.2.Reaches owner target
        · have hsome : owner.inferred? target d peer =
              some (owner.crossId target d,
                crossLink owner target d peer.1.ports.orAll peer.2.isCombined) := by
            rw [inferred?, if_neg hsame, if_pos hreaches]
          rw [List.filterMap_cons_some hsome, List.find?_cons_of_pos (by simpa using hreaches)]
          rfl
        · have hnone : owner.inferred? target d peer = none := by
            rw [inferred?, if_neg hsame, if_neg hreaches]
          rw [List.filterMap_cons_none hnone, List.find?_cons_of_neg (by simpa using hreaches), ih]

/-- The links to be inferred, with their identities: one for each policy, each
direction and each policy that it reaches in it. -/
def dueEntries (policies : List Policy) : List (String × Link) :=
  policies.flatMap fun owner =>
    Direction.all.flatMap fun d => policies.filterMap fun target => owner.due? target d

theorem mem_dueEntries {policies : List Policy} {entry : String × Link} :
    entry ∈ dueEntries policies ↔
      ∃ owner ∈ policies, ∃ d, ∃ target ∈ policies, owner.due? target d = some entry := by
  have hall : ∀ d : Direction, d ∈ Direction.all := by
    intro d
    cases d <;> decide
  simp only [dueEntries, List.mem_flatMap, List.mem_filterMap, hall, true_and]

section

variable {policies : List Policy} (hdistinct : policies.Pairwise fun p q => p.sameAs q = false)
  (hplain : ∀ p ∈ policies, p.Plain)

include hdistinct hplain

theorem pairwise_dueEntries : (dueEntries policies).Pairwise fun a b => a.1 ≠ b.1 := by
  rw [dueEntries, List.pairwise_flatMap]
  constructor
  · intro owner howner
    rw [List.pairwise_flatMap]
    constructor
    · intro d _
      rw [List.pairwise_filterMap]
      apply hdistinct.imp_of_mem
      intro target target' htarget htarget' hne entry hentry entry' hentry' hid
      rw [fst_eq_of_due?_eq_some hentry, fst_eq_of_due?_eq_some hentry'] at hid
      have hsame := (crossId_inj (hplain owner howner) (hplain target htarget)
        (hplain owner howner) (hplain target' htarget') hid).2.1
      rw [hne] at hsame
      cases hsame
    · have hdirections : Direction.all.Pairwise fun d e => d ≠ e := by decide
      apply hdirections.imp
      intro d e hne entry hentry entry' hentry' hid
      rcases List.mem_filterMap.mp hentry with ⟨target, htarget, hdue⟩
      rcases List.mem_filterMap.mp hentry' with ⟨target', htarget', hdue'⟩
      rw [fst_eq_of_due?_eq_some hdue, fst_eq_of_due?_eq_some hdue'] at hid
      exact hne (crossId_inj (hplain owner howner) (hplain target htarget)
        (hplain owner howner) (hplain target' htarget') hid).2.2
  · apply hdistinct.imp_of_mem
    intro owner owner' howner howner' hne entry hentry entry' hentry' hid
    rcases List.mem_flatMap.mp hentry with ⟨d, _, hd⟩
    rcases List.mem_filterMap.mp hd with ⟨target, htarget, hdue⟩
    rcases List.mem_flatMap.mp hentry' with ⟨d', _, hd'⟩
    rcases List.mem_filterMap.mp hd' with ⟨target', htarget', hdue'⟩
    rw [fst_eq_of_due?_eq_some hdue, fst_eq_of_due?_eq_some hdue'] at hid
    have hsame := (crossId_inj (hplain owner howner) (hplain target htarget)
      (hplain owner' howner') (hplain target' htarget') hid).1
    rw [hne] at hsame
    cases hsame

/-- Of everything that the policies give rise to, what is registered is what is due. -/
theorem mem_registered_iff (entry : String × Link) :
    entry ∈ (policies.flatMap fun owner => owner.crossEntries policies).foldl registerEntry [] ↔
      entry ∈ dueEntries policies := by
  have hfind : ∀ owner ∈ policies, ∀ d, ∀ target ∈ policies,
      (policies.flatMap fun owner => owner.crossEntries policies).find?
          (fun other => other.1 == owner.crossId target d) = owner.due? target d := by
    intro owner howner d target htarget
    rw [← List.head?_filter, filter_crossEntries hdistinct hplain howner htarget,
      head?_crossEntries]
  rw [mem_foldl_registerEntry, mem_dueEntries]
  constructor
  · rintro (hnone | ⟨_, hfirst⟩)
    · cases hnone
    · rcases List.mem_flatMap.mp (List.mem_of_find?_eq_some hfirst) with ⟨owner, howner, hmem⟩
      rcases exists_of_mem_crossEntries hmem with ⟨target, htarget, d, hid, _⟩
      rw [hid, hfind owner howner d target htarget] at hfirst
      exact ⟨owner, howner, d, target, htarget, hfirst⟩
  · rintro ⟨owner, howner, d, target, htarget, hdue⟩
    refine Or.inr ⟨List.not_mem_nil, ?_⟩
    rw [fst_eq_of_due?_eq_some hdue, hfind owner howner d target htarget, hdue]

theorem registered_perm :
    ((policies.flatMap fun owner => owner.crossEntries policies).foldl registerEntry []).Perm
      (dueEntries policies) := by
  have hne : ∀ a b : String × Link, a.1 ≠ b.1 -> a ≠ b := by
    intro a b hkeys hab
    exact hkeys (congrArg Prod.fst hab)
  have hregistered := (LinkBook.Lists.empty.registerAll
    (policies.flatMap fun owner => owner.crossEntries policies)).nodup
  apply (List.perm_ext_iff_of_nodup _ _).mpr
  · exact mem_registered_iff hdistinct hplain
  · exact (List.pairwise_map.mp hregistered).imp (hne _ _)
  · exact (pairwise_dueEntries hdistinct hplain).imp (hne _ _)

end

end Policy

/-!
# The second pass
-/

namespace Inference

theorem book_run_links (entries : List (String × Link)) (s : Inference) :
    (run (entries.map fun entry => .link entry.1 entry.2) s).1.book =
      s.book.registerAll entries := by
  induction entries generalizing s with
  | nil => rfl
  | cons entry rest ih =>
      rw [List.map_cons, run, LinkBook.registerAll, List.foldl_cons]
      rcases hregister : s.book.register entry.1 entry.2 with ⟨fresh, book⟩
      cases fresh with
      | true => exact ih _
      | false => exact ih _

/-- Where no policy stumbles, all that they propose is registered, one after another. -/
theorem book_foldl_addOwner {policies : List Policy} {hasNode : String → Bool}
    (hnodes : ∀ p ∈ policies, hasNode p.podId = true) {owners : List Policy}
    (hsub : owners ⊆ policies) (htyped : ∀ p ∈ policies, p.Typed) (s : Inference) :
    (owners.foldl (addOwner policies hasNode) s).book =
      s.book.registerAll (owners.flatMap fun owner => owner.crossEntries policies) := by
  induction owners generalizing s with
  | nil => rfl
  | cons owner rest ih =>
      have howner : owner ∈ policies := hsub List.mem_cons_self
      have hrest : rest ⊆ policies := fun p hp => hsub (List.mem_cons_of_mem owner hp)
      rw [List.foldl_cons, ih hrest, book_addOwner,
        Policy.proposals_eq_crossEntries (htyped owner howner) (hnodes owner howner) hnodes,
        book_run_links, List.flatMap_cons,
        LinkBook.registerAll_append]

end Inference

/-!
# The links of both passes
-/

theorem Build.contains_podId {policies : List Policy} {p : Policy} (hp : p ∈ policies) :
    (ofPolicies true policies).nodes.contains p.podId = true := by
  rw [NodeStore.contains_eq, decide_eq_true_iff, mem_ids_ofPolicies]
  have hmap := map_policy_deeds (empty true) policies
  rw [← hmap] at hp
  rcases List.mem_map.mp hp with ⟨deed, hdeed, rfl⟩
  refine ⟨deed, hdeed, List.mem_map.mpr ⟨_, podReference_mem_references hdeed, ?_⟩⟩
  exact Reference.id_shared _ _

theorem Deed.exists_sharedLinkId {policies : List Policy} {deed : Deed}
    (hdeed : deed ∈ Build.passDeeds true policies) {o : Offer} (ho : o ∈ deed.offers true) :
    ∃ r s : Reference, r.namespaceName = deed.policy.namespaceName ∧
      s.namespaceName = deed.policy.namespaceName ∧
      o.sharedLinkId = linkId r.sharedId s.sharedId o.direction true o.policy := by
  rcases exists_connect_of_mem_offers ho with ⟨peer, d, ports, ruleIndex, hconnect, rfl⟩
  have hpeer : peer.namespaceName = deed.policy.namespaceName :=
    namespaceName_of_mem_references hdeed (mem_references_of_connect hdeed hconnect)
  cases d with
  | ingress =>
      refine ⟨peer, deed.policy.podReference, hpeer, rfl, ?_⟩
      simp [Offer.sharedLinkId, Policy.offer]
  | egress =>
      refine ⟨deed.policy.podReference, peer, rfl, hpeer, ?_⟩
      simp [Offer.sharedLinkId, Policy.offer]

/-- A first pass lists no inferred links, and it takes none of their identities. -/
theorem Build.exists_lists_ofPolicies {policies : List Policy} (hplain : ∀ p ∈ policies, p.Plain) :
    ∃ entries, (ofPolicies true policies).links.Lists entries ∧
      (∀ entry ∈ entries, entry.2.crossPolicy = false) ∧
      ∀ owner ∈ policies, ∀ target ∈ policies, ∀ d,
        owner.crossId target d ∉ entries.map Prod.fst := by
  rcases exists_collects_addOffers
    ((passDeeds true policies).flatMap fun deed => deed.offers true) with
    ⟨entries, hlists, hcollects⟩
  rw [← links_ofPolicies] at hlists
  refine ⟨entries, hlists, ?_, ?_⟩
  · intro entry hentry
    exact (hcollects.merged entry hentry).crossPolicy_eq
  · intro owner howner target htarget d hid
    rw [hcollects.keys, List.mem_eraseDups] at hid
    rcases List.mem_map.mp hid with ⟨o, ho, hoId⟩
    rcases List.mem_flatMap.mp ho with ⟨deed, hdeed, hmem⟩
    rcases Deed.exists_sharedLinkId hdeed hmem with ⟨r, s, hr, hs, hshared⟩
    have hspace : ':' ∉ deed.policy.namespaceName.toList :=
      (hplain deed.policy (exists_build_of_mem_deeds hdeed).1).namespaceName
    rw [hshared] at hoId
    exact Policy.crossId_ne_linkId (hplain owner howner) (hplain target htarget) d
      (hr ▸ hspace) (hs ▸ hspace) o.direction o.policy hoId

/-- The links of both passes: those of the first one, none of which is inferred, and
behind them whatever the policies give rise to, registered one after another. -/
theorem Graph.exists_links_compile {policies : List Policy} (htyped : ∀ p ∈ policies, p.Typed)
    (hplain : ∀ p ∈ policies, p.Plain) :
    ∃ links, (∀ link ∈ links, link.crossPolicy = false) ∧
      (Graph.compile true policies).links = links ++
        ((policies.flatMap fun owner => owner.crossEntries policies).foldl
          registerEntry []).map Prod.snd := by
  rcases Build.exists_lists_ofPolicies hplain with ⟨entries, hlists, hfirst, hfree⟩
  refine ⟨entries.map Prod.snd, ?_, ?_⟩
  · intro link hlink
    rcases List.mem_map.mp hlink with ⟨entry, hentry, rfl⟩
    exact hfirst entry hentry
  · have hbook : ((Build.ofPolicies true policies).inference policies).book =
        (Build.ofPolicies true policies).links.registerAll
          (policies.flatMap fun owner => owner.crossEntries policies) :=
      Inference.book_foldl_addOwner (fun p hp => Build.contains_podId hp) (List.Subset.refl _)
        htyped _
    have hcompile : (Graph.compile true policies).links =
        ((Build.ofPolicies true policies).inference policies).book.links := by
      rw [Graph.compile,
        Build.linkedGraph_of_deduplicate (Build.deduplicate_ofPolicies true policies)]
    have hnew : ∀ entry ∈ policies.flatMap fun owner => owner.crossEntries policies,
        entry.1 ∉ entries.map Prod.fst := by
      intro entry hentry
      rcases List.mem_flatMap.mp hentry with ⟨owner, howner, hmem⟩
      rcases Policy.exists_of_mem_crossEntries hmem with ⟨target, htarget, d, hid, _⟩
      rw [hid]
      exact hfree owner howner target htarget d
    have hregistered := foldl_registerEntry_append hnew []
    rw [List.append_nil] at hregistered
    rw [hcompile, hbook, (hlists.registerAll _).links_eq, hregistered, List.map_append]

theorem crossPolicy_of_mem_registered {policies : List Policy} {entry : String × Link}
    (h : entry ∈ (policies.flatMap fun owner => owner.crossEntries policies).foldl
      registerEntry []) : entry.2.crossPolicy = true := by
  rcases mem_foldl_registerEntry.mp h with hnil | ⟨_, hfind⟩
  · cases hnil
  · rcases List.mem_flatMap.mp (List.mem_of_find?_eq_some hfind) with ⟨owner, _, hmem⟩
    rcases Policy.exists_of_mem_crossEntries hmem with ⟨_, _, _, _, hcross⟩
    exact hcross

/-- The inferred links of a graph of policies that differ in their names and
namespaces: one for each policy, each direction and each other policy that some
peer of its rules reaches in it, with the ports and the kind of the first such
peer, from the pods where the traffic starts to those where it ends. -/
theorem crossLinks_perm (policies : List Policy) (htyped : ∀ p ∈ policies, p.Typed)
    (hdistinct : policies.Pairwise fun p q => p.sameAs q = false)
    (hplain : ∀ p ∈ policies, p.Plain) :
    ((Graph.compile true policies).links.filter fun link => link.crossPolicy).Perm
      (policies.flatMap fun owner =>
        Direction.all.flatMap fun d => policies.filterMap fun target =>
          owner.crossLink? target d) := by
  rcases Graph.exists_links_compile htyped hplain with ⟨links, hfirst, hlinks⟩
  have hnone : links.filter (fun link => link.crossPolicy) = [] := by
    rw [List.filter_eq_nil_iff]
    intro link hlink
    rw [hfirst link hlink]
    exact Bool.false_ne_true
  have hdue : (Policy.dueEntries policies).map Prod.snd =
      policies.flatMap fun owner => Direction.all.flatMap fun d =>
        policies.filterMap fun target => owner.crossLink? target d := by
    simp [Policy.dueEntries, Policy.due?, List.map_flatMap, List.map_filterMap,
      Function.comp_def]
  rw [hlinks, List.filter_append, hnone, List.nil_append, List.filter_eq_self.mpr, ← hdue]
  · exact (Policy.registered_perm hdistinct hplain).map Prod.snd
  · intro link hlink
    rcases List.mem_map.mp hlink with ⟨entry, hentry, rfl⟩
    exact crossPolicy_of_mem_registered hentry

def tradePolicies : List Policy :=
  let web := some ⟨some (Labels.ofList [("app", "web")]), none⟩
  let client := some ⟨some (Labels.ofList [("app", "client"), ("tier", "front")]), none⟩
  let anyClient := some ⟨some (Labels.ofList [("app", "client")]), none⟩
  [⟨"shop", "market", web,
      some [.rule ⟨[.peer ⟨anyClient, none, none⟩], .unset⟩,
        .rule ⟨[.peer ⟨anyClient, some .blank, none⟩], .listed []⟩], none, []⟩,
    ⟨"clients", "market", client, none, some [.rule ⟨[.peer ⟨web, none, none⟩], .unset⟩], []⟩]

theorem crossLinks_tradePolicies :
    (∀ p ∈ tradePolicies, p.Typed) ∧ (tradePolicies.Pairwise fun p q => p.sameAs q = false) ∧
      (∀ p ∈ tradePolicies, p.Plain) ∧
      (((Graph.compile true tradePolicies).links.filter fun link => link.crossPolicy).map
        fun link => (link.direction, link.policies, link.combinedSelector)).Perm
        [(.ingress, ["clients", "shop"], false), (.egress, ["clients", "shop"], false)] := by
  have htyped : ∀ p ∈ tradePolicies, p.Typed := by decide
  have hdistinct : tradePolicies.Pairwise fun p q => p.sameAs q = false := by decide
  have htexts : ∀ p ∈ tradePolicies,
      ':' ∉ p.namespaceName.toList ∧ ¬ ['-', '>'] <:+: p.name.toList := by
    decide +kernel
  have hplain : ∀ p ∈ tradePolicies, p.Plain := fun p hp => ⟨(htexts p hp).1, (htexts p hp).2⟩
  have hperm := (crossLinks_perm tradePolicies htyped hdistinct hplain).map
    fun link => (link.direction, link.policies, link.combinedSelector)
  refine ⟨htyped, hdistinct, hplain, hperm.trans (List.Perm.of_eq ?_)⟩
  decide +kernel

end TrafficGraph

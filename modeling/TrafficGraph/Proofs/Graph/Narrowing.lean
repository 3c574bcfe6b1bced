import Mathlib.Data.List.Perm.Basic
import TrafficGraph.Graph.Basic

/-!
# Narrowing again and again

A graph can be narrowed by any number of filters, one after the other.  Only three things
can come of it: the graph itself, the graph narrowed once, or nothing.  The two directions
split the links of a graph between them, and a node that neither of them keeps is no end of
any link.
-/

namespace TrafficGraph
namespace Graph

def shown (graph : Graph) (filters : List DirectionFilter) : Graph :=
  filters.foldl (fun narrowed f => f.apply narrowed) graph

/-- Whether some link of a graph has an end of an identity. -/
def Uses (graph : Graph) (id : String) : Prop :=
  ∃ link ∈ graph.links, link.source = id ∨ link.target = id

instance (graph : Graph) (id : String) : Decidable (graph.Uses id) :=
  inferInstanceAs (Decidable (∃ link ∈ graph.links, link.source = id ∨ link.target = id))

/-!
# One direction
-/

section

variable (graph : Graph) (d : Direction)

theorem links_narrow :
    (graph.narrow d).links = graph.links.filter fun link => decide (link.direction = d) :=
  List.filter_congr fun link _ => beq_eq_decide link.direction d

theorem nodes_narrow :
    (graph.narrow d).nodes =
      graph.nodes.filter fun node => decide ((graph.narrow d).Uses node.id) := by
  apply List.filter_congr
  intro node _
  rw [Bool.eq_iff_iff, decide_eq_true_iff, List.any_eq_true]
  simp only [Bool.or_eq_true, beq_iff_eq]
  exact Iff.rfl

variable {graph d}

theorem mem_links_narrow {link : Link} :
    link ∈ (graph.narrow d).links ↔ link ∈ graph.links ∧ link.direction = d := by
  rw [links_narrow, List.mem_filter, decide_eq_true_iff]

theorem mem_nodes_narrow {node : Node} :
    node ∈ (graph.narrow d).nodes ↔ node ∈ graph.nodes ∧ (graph.narrow d).Uses node.id := by
  rw [nodes_narrow, List.mem_filter, decide_eq_true_iff]

theorem uses_narrow_direction {link : Link} (hlink : link ∈ graph.links) {id : String}
    (hends : link.source = id ∨ link.target = id) :
    (graph.narrow link.direction).Uses id :=
  ⟨link, mem_links_narrow.mpr ⟨hlink, rfl⟩, hends⟩

end

/-!
# Two directions
-/

/-- Narrowing to a direction once more drops nothing: all links run in that direction, and
all nodes are their ends. -/
theorem narrow_narrow_self (graph : Graph) (d : Direction) :
    (graph.narrow d).narrow d = graph.narrow d := by
  have hlinks : ((graph.narrow d).narrow d).links = (graph.narrow d).links := by
    rw [links_narrow, List.filter_eq_self]
    intro link hlink
    exact decide_eq_true (mem_links_narrow.mp hlink).2
  have hnodes : ((graph.narrow d).narrow d).nodes = (graph.narrow d).nodes := by
    rw [nodes_narrow, List.filter_eq_self]
    intro node hnode
    rcases (mem_nodes_narrow.mp hnode).2 with ⟨link, hlink, hends⟩
    exact decide_eq_true ⟨link, hlinks ▸ hlink, hends⟩
  show Graph.mk ((graph.narrow d).narrow d).nodes ((graph.narrow d).narrow d).links =
    Graph.mk (graph.narrow d).nodes (graph.narrow d).links
  rw [hnodes, hlinks]

theorem narrow_narrow_of_ne (graph : Graph) {d e : Direction} (h : d ≠ e) :
    (graph.narrow d).narrow e = empty := by
  have hlinks : ((graph.narrow d).narrow e).links = [] := by
    rw [links_narrow, List.filter_eq_nil_iff]
    intro link hlink
    rw [decide_eq_true_iff, (mem_links_narrow.mp hlink).2]
    exact h
  have hnodes : ((graph.narrow d).narrow e).nodes = [] := by
    rw [nodes_narrow, List.filter_eq_nil_iff]
    intro node _
    rw [decide_eq_true_iff]
    rintro ⟨link, hlink, _⟩
    rw [hlinks] at hlink
    cases hlink
  show Graph.mk ((graph.narrow d).narrow e).nodes ((graph.narrow d).narrow e).links =
    Graph.mk [] []
  rw [hnodes, hlinks]

/-!
# Any number of filters
-/

theorem shown_cons_all (graph : Graph) (filters : List DirectionFilter) :
    graph.shown (.all :: filters) = graph.shown filters := rfl

theorem shown_cons_only (graph : Graph) (d : Direction) (filters : List DirectionFilter) :
    graph.shown (.only d :: filters) = (graph.narrow d).shown filters := rfl

theorem shown_empty (filters : List DirectionFilter) : empty.shown filters = empty := by
  induction filters with
  | nil => rfl
  | cons f rest ih => cases f <;> exact ih

theorem shown_of_all (graph : Graph) {filters : List DirectionFilter}
    (h : ∀ f ∈ filters, f = .all) : graph.shown filters = graph := by
  induction filters with
  | nil => rfl
  | cons f rest ih =>
      rw [List.forall_mem_cons] at h
      rw [h.1, shown_cons_all, ih h.2]

theorem shown_narrow_of_same (graph : Graph) {d : Direction} {filters : List DirectionFilter}
    (h : ∀ f ∈ filters, f = .all ∨ f = .only d) :
    (graph.narrow d).shown filters = graph.narrow d := by
  induction filters with
  | nil => rfl
  | cons f rest ih =>
      rw [List.forall_mem_cons] at h
      rcases h.1 with rfl | rfl
      · rw [shown_cons_all, ih h.2]
      · rw [shown_cons_only, narrow_narrow_self, ih h.2]

theorem shown_of_same (graph : Graph) {d : Direction} {filters : List DirectionFilter}
    (hd : .only d ∈ filters) (h : ∀ f ∈ filters, f = .all ∨ f = .only d) :
    graph.shown filters = graph.narrow d := by
  induction filters with
  | nil => cases hd
  | cons f rest ih =>
      rw [List.forall_mem_cons] at h
      rcases h.1 with rfl | rfl
      · rw [shown_cons_all, ih (List.mem_of_ne_of_mem (by simp) hd) h.2]
      · rw [shown_cons_only, shown_narrow_of_same graph h.2]

theorem shown_narrow_of_other (graph : Graph) {d e : Direction} (hne : d ≠ e)
    {filters : List DirectionFilter} (he : .only e ∈ filters) :
    (graph.narrow d).shown filters = empty := by
  induction filters with
  | nil => cases he
  | cons f rest ih =>
      cases f with
      | all => exact ih (List.mem_of_ne_of_mem (by simp) he)
      | only c =>
          rw [shown_cons_only]
          by_cases hc : d = c
          · subst hc
            rw [narrow_narrow_self]
            exact ih (List.mem_of_ne_of_mem (by simp [hne.symm]) he)
          · rw [narrow_narrow_of_ne graph hc, shown_empty]

theorem shown_of_both (graph : Graph) {d e : Direction} (hne : d ≠ e)
    {filters : List DirectionFilter} (hd : .only d ∈ filters) (he : .only e ∈ filters) :
    graph.shown filters = empty := by
  induction filters generalizing graph with
  | nil => cases hd
  | cons f rest ih =>
      cases f with
      | all =>
          exact ih graph (List.mem_of_ne_of_mem (by simp) hd) (List.mem_of_ne_of_mem (by simp) he)
      | only c =>
          rw [shown_cons_only]
          by_cases hc : c = d
          · subst hc
            exact shown_narrow_of_other graph hne (List.mem_of_ne_of_mem (by simp [hne.symm]) he)
          · exact shown_narrow_of_other graph hc
              (List.mem_of_ne_of_mem (by simp [Ne.symm hc]) hd)

/-!
# What narrowing keeps
-/

/-- What comes of a graph when it is narrowed by some filters. -/
structure Narrows (graph : Graph) (filters : List DirectionFilter) : Prop where
  whole : (∀ f ∈ filters, f = .all) -> graph.shown filters = graph
  once : ∀ d, .only d ∈ filters -> (∀ f ∈ filters, f = .all ∨ f = .only d) ->
    graph.shown filters = (DirectionFilter.only d).apply graph
  nothing : .only .ingress ∈ filters -> .only .egress ∈ filters -> graph.shown filters = empty

/-- How the two directions share out a graph. -/
structure Splits (graph : Graph) : Prop where
  links : ∀ d, ((DirectionFilter.only d).apply graph).links =
    graph.links.filter fun link => decide (link.direction = d)
  nodes : ∀ d, let kept := (DirectionFilter.only d).apply graph
    kept.nodes = graph.nodes.filter fun node =>
      decide (∃ link ∈ kept.links, link.source = node.id ∨ link.target = node.id)
  /-- Every link is in one part, as often as it is in the graph. -/
  perm : (((DirectionFilter.only .ingress).apply graph).links ++
    ((DirectionFilter.only .egress).apply graph).links).Perm graph.links
  apart : ((DirectionFilter.only .ingress).apply graph).links.Disjoint
    ((DirectionFilter.only .egress).apply graph).links
  isolated : ∀ node ∈ graph.nodes,
    (∀ d, node ∉ ((DirectionFilter.only d).apply graph).nodes) ->
      ∀ link ∈ graph.links, link.source ≠ node.id ∧ link.target ≠ node.id

theorem links_narrow_perm (graph : Graph) :
    ((graph.narrow .ingress).links ++ (graph.narrow .egress).links).Perm graph.links := by
  have hegress : (graph.narrow .egress).links =
      graph.links.filter fun link => !decide (link.direction = .ingress) := by
    rw [links_narrow]
    apply List.filter_congr
    intro link _
    cases link.direction <;> rfl
  rw [links_narrow, hegress]
  exact List.filter_append_perm _ graph.links

theorem splits (graph : Graph) : graph.Splits :=
  { links := links_narrow graph
    nodes := nodes_narrow graph
    perm := links_narrow_perm graph
    apart := by
      intro link hingress hegress
      have hdirection := (mem_links_narrow.mp hingress).2.symm.trans (mem_links_narrow.mp hegress).2
      cases hdirection
    isolated := by
      intro node hnode hnone link hlink
      have hunused : ¬ (graph.narrow link.direction).Uses node.id := fun huses =>
        hnone link.direction (mem_nodes_narrow.mpr ⟨hnode, huses⟩)
      exact ⟨fun hsource => hunused (uses_narrow_direction hlink (Or.inl hsource)),
        fun htarget => hunused (uses_narrow_direction hlink (Or.inr htarget))⟩ }

/-- Any number of filters leaves the graph as it is, narrows it once, or leaves nothing, and
the two directions split the graph between them. -/
theorem narrows_and_splits (graph : Graph) (filters : List DirectionFilter) :
    graph.Narrows filters ∧ graph.Splits :=
  ⟨{ whole := graph.shown_of_all
     once := fun _ => graph.shown_of_same
     nothing := graph.shown_of_both (by decide) }, graph.splits⟩

end Graph
end TrafficGraph

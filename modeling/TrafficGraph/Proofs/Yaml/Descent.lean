import TrafficGraph.Proofs.Yaml.Reading
import TrafficGraph.Yaml.Node.OfTokens

/-!
# What a document's tree takes

Reading a tree only takes tokens away from the front.  So a document whose tree can be read
holds the token of its end.
-/

namespace TrafficGraph
namespace Yaml
namespace Parser

/-- Whether a reading, if it succeeds, leaves only tokens that were there. -/
def Leaves {α : Type} (p : Parser) (read : Except Fault (α × Parser)) : Prop :=
  ∀ a q, read = .ok (a, q) -> q.tokens ⊆ p.tokens

namespace Leaves

variable {α β : Type} {p q : Parser}

theorem ok (a : α) (h : q.tokens ⊆ p.tokens) : Leaves p (.ok (a, q)) := by
  intro b r hread
  cases hread
  exact h

theorem error (fault : Fault) : Leaves p (.error fault : Except Fault (α × Parser)) := by
  intro b r hread
  cases hread

theorem of_subset {read : Except Fault (α × Parser)} (h : Leaves q read)
    (hsub : q.tokens ⊆ p.tokens) : Leaves p read :=
  fun a r hread => List.Subset.trans (h a r hread) hsub

theorem bind {read : Except Fault (α × Parser)} {go : α × Parser → Except Fault (β × Parser)}
    (h : Leaves p read) (hgo : ∀ a r, r.tokens ⊆ p.tokens -> Leaves p (go (a, r))) :
    Leaves p (read >>= go) := by
  intro b r hread
  rcases exists_of_bind_eq_ok hread with ⟨⟨a, s⟩, hread, hrest⟩
  exact hgo a s (h a s hread) b r hrest

theorem test {test : Except Fault α} {go : α → Except Fault (β × Parser)}
    (h : ∀ a, Leaves p (go a)) : Leaves p (test >>= go) := by
  intro b r hread
  rcases exists_of_bind_eq_ok hread with ⟨a, _, hrest⟩
  exact h a b r hrest

end Leaves

/-!
# Properties of nodes
-/

theorem tokens_next (p : Parser) : p.next.tokens ⊆ p.tokens := List.drop_subset 1 p.tokens

theorem tokens_keep (p : Parser) (props : Properties) (node : Node) :
    (p.keep props node).tokens = p.tokens := by
  unfold keep
  split <;> rfl

theorem leaves_readTag (p : Parser) : Leaves p p.readTag := by
  unfold readTag
  refine .test fun t => ?_
  split
  · exact .test fun tag => .ok _ p.tokens_next
  · exact .ok _ (List.Subset.refl _)

theorem leaves_readAnchor (p : Parser) : Leaves p p.readAnchor := by
  unfold readAnchor
  refine .test fun t => ?_
  split
  · exact .ok _ p.tokens_next
  · exact .ok _ (List.Subset.refl _)

theorem leaves_readProperties (p : Parser) : Leaves p p.readProperties := by
  unfold readProperties
  refine .test fun t => ?_
  split
  · refine .bind p.leaves_readAnchor fun anchor q hq => ?_
    exact .bind (q.leaves_readTag.of_subset hq) fun tag r hr => .ok _ hr
  · refine .bind p.leaves_readTag fun tag q hq => ?_
    dsimp only
    split
    · exact .ok _ hq
    · exact .bind (q.leaves_readAnchor.of_subset hq) fun anchor r hr => .ok _ hr

theorem leaves_readEmpty (p : Parser) (props : Properties) : Leaves p (p.readEmpty props) := by
  unfold readEmpty
  split
  · exact .error _
  · refine .ok _ ?_
    rw [tokens_keep]
    exact List.Subset.refl _

theorem leaves_readComma (p : Parser) {q : Parser} (h : p.readComma = .ok q) :
    q.tokens ⊆ p.tokens := by
  unfold readComma at h
  rcases exists_of_bind_eq_ok h with ⟨t, _, ht⟩
  split at ht
  · cases ht
    exact p.tokens_next
  · cases ht

/-!
# Nodes

The readings of all kinds of nodes go down together.
-/

/-- Whether readings of a depth leave only tokens that were there. -/
structure LeavesAt (n : Nat) : Prop where
  node : ∀ block indentless p, Leaves p (readNode block indentless n p)
  blockSequence : ∀ read p, Leaves p (readBlockSequence n read p)
  indentless : ∀ read p, Leaves p (readIndentless n read p)
  blockMapping : ∀ read p, Leaves p (readBlockMapping n read p)
  blockPlace : ∀ p, Leaves p (readBlockPlace n p)
  blockValue : ∀ p, Leaves p (readBlockValue n p)
  flowSequence : ∀ first read p, Leaves p (readFlowSequence first n read p)
  flowMapping : ∀ first read p, Leaves p (readFlowMapping first n read p)
  flowPair : ∀ closing p, Leaves p (readFlowPair closing n p)
  flowPlace : ∀ closing p, Leaves p (readFlowPlace closing n p)

section

variable {n : Nat} (h : LeavesAt n)

include h

theorem leaves_readNode_succ (block indentless : Bool) (p : Parser) :
    Leaves p (readNode block indentless (n + 1) p) := by
  have hcollection : ∀ {α : Type} (p q : Parser) (props : Properties) (loop : Bool)
      (read : Except Fault (α × Parser)) (node : α → Node), q.tokens ⊆ p.tokens ->
      Leaves (q.keep props (.loop loop)) read -> Leaves p (do
        let (items, r) ← read
        return (node items, r.keep props (node items))) := by
    intro α p q props loop read node hq hread
    refine .bind (hread.of_subset ?_) fun items r hr => .ok _ ?_
    · rw [tokens_keep]
      exact hq
    · rw [tokens_keep]
      exact hr
  rw [readNode]
  refine .test fun t => ?_
  split
  · split
    · exact .ok _ p.tokens_next
    · exact .error _
  · refine .bind p.leaves_readProperties fun props q hq => .test fun token => .test fun _ => ?_
    have hnext : q.next.tokens ⊆ p.tokens := List.Subset.trans q.tokens_next hq
    have hempty : Leaves p (q.readEmpty props) := (q.leaves_readEmpty props).of_subset hq
    split
    · split
      · exact hcollection p q props false _ _ hq (h.indentless [] _)
      · exact hempty
    · refine .ok _ ?_
      rw [tokens_keep]
      exact hnext
    · exact hcollection p q.next props false _ _ hnext (h.flowSequence true [] _)
    · exact hcollection p q.next props true _ _ hnext (h.flowMapping true [] _)
    · split
      · exact hcollection p q.next props false _ _ hnext (h.blockSequence [] _)
      · exact hempty
    · split
      · exact hcollection p q.next props true _ _ hnext (h.blockMapping [] _)
      · exact hempty
    · exact hempty

theorem leaves_readBlockSequence_succ (read : List Node) (p : Parser) :
    Leaves p (readBlockSequence (n + 1) read p) := by
  rw [readBlockSequence]
  refine .test fun t => ?_
  split
  · refine .test fun next => ?_
    split
    · exact (h.blockSequence _ p.next).of_subset p.tokens_next
    · exact (h.blockSequence _ p.next).of_subset p.tokens_next
    · exact .bind ((h.node true false p.next).of_subset p.tokens_next) fun node q hq =>
        (h.blockSequence _ q).of_subset hq
  · exact .ok _ p.tokens_next
  · exact .error _

theorem leaves_readIndentless_succ (read : List Node) (p : Parser) :
    Leaves p (readIndentless (n + 1) read p) := by
  rw [readIndentless]
  refine .test fun t => ?_
  split
  · refine .test fun next => ?_
    split
    · exact (h.indentless _ p.next).of_subset p.tokens_next
    · exact .bind ((h.node true false p.next).of_subset p.tokens_next) fun node q hq =>
        (h.indentless _ q).of_subset hq
  · exact .ok _ (List.Subset.refl _)

theorem leaves_readBlockMapping_succ (read : List (Node × Node)) (p : Parser) :
    Leaves p (readBlockMapping (n + 1) read p) := by
  rw [readBlockMapping]
  refine .test fun t => ?_
  split
  · refine .bind ((h.blockPlace p.next).of_subset p.tokens_next) fun key q hq => ?_
    exact .bind ((h.blockValue q).of_subset hq) fun value r hr => (h.blockMapping _ r).of_subset hr
  · exact .ok _ p.tokens_next
  · exact .error _

theorem leaves_readBlockPlace_succ (p : Parser) : Leaves p (readBlockPlace (n + 1) p) := by
  rw [readBlockPlace]
  refine .test fun t => ?_
  split
  · exact .ok _ (List.Subset.refl _)
  · exact .ok _ (List.Subset.refl _)
  · exact .ok _ (List.Subset.refl _)
  · exact h.node true true p

theorem leaves_readBlockValue_succ (p : Parser) : Leaves p (readBlockValue (n + 1) p) := by
  rw [readBlockValue]
  refine .test fun t => ?_
  split
  · exact (h.blockPlace p.next).of_subset p.tokens_next
  · exact .ok _ (List.Subset.refl _)

theorem leaves_flowItems {p q : Parser} (read : List Node) (hq : q.tokens ⊆ p.tokens) :
    Leaves p (do
      match ← q.peek with
      | .flowSequenceEnd => return (read.reverse, q.next)
      | .key =>
        let (pair, q) ← readFlowPair .flowSequenceEnd n q.next
        readFlowSequence false n (.mapping .mapping [pair] :: read) q
      | _ =>
        let (node, q) ← readNode false false n q
        readFlowSequence false n (node :: read) q) := by
  have hnext : q.next.tokens ⊆ p.tokens := List.Subset.trans q.tokens_next hq
  refine .test fun t => ?_
  split
  · exact .ok _ hnext
  · exact .bind ((h.flowPair _ q.next).of_subset hnext) fun pair r hr =>
      (h.flowSequence _ _ r).of_subset hr
  · exact .bind ((h.node _ _ q).of_subset hq) fun node r hr =>
      (h.flowSequence _ _ r).of_subset hr

theorem leaves_readFlowSequence_succ (first : Bool) (read : List Node) (p : Parser) :
    Leaves p (readFlowSequence first (n + 1) read p) := by
  rw [readFlowSequence]
  refine .test fun t => ?_
  split
  · exact .ok _ p.tokens_next
  · cases first with
    | true => exact leaves_flowItems h read (List.Subset.refl _)
    | false =>
        intro items r hread
        rcases exists_of_bind_eq_ok hread with ⟨q, hcomma, hrest⟩
        exact leaves_flowItems h read (p.leaves_readComma hcomma) items r hrest

theorem leaves_flowPairs {p q : Parser} (read : List (Node × Node)) (hq : q.tokens ⊆ p.tokens) :
    Leaves p (do
      match ← q.peek with
      | .flowMappingEnd => return (read.reverse, q.next)
      | .key =>
        let (pair, q) ← readFlowPair .flowMappingEnd n q.next
        readFlowMapping false n (pair :: read) q
      | _ =>
        let (node, q) ← readNode false false n q
        readFlowMapping false n ((node, .empty) :: read) q) := by
  have hnext : q.next.tokens ⊆ p.tokens := List.Subset.trans q.tokens_next hq
  refine .test fun t => ?_
  split
  · exact .ok _ hnext
  · exact .bind ((h.flowPair _ q.next).of_subset hnext) fun pair r hr =>
      (h.flowMapping _ _ r).of_subset hr
  · exact .bind ((h.node _ _ q).of_subset hq) fun node r hr =>
      (h.flowMapping _ _ r).of_subset hr

theorem leaves_readFlowMapping_succ (first : Bool) (read : List (Node × Node)) (p : Parser) :
    Leaves p (readFlowMapping first (n + 1) read p) := by
  rw [readFlowMapping]
  refine .test fun t => ?_
  split
  · exact .ok _ p.tokens_next
  · cases first with
    | true => exact leaves_flowPairs h read (List.Subset.refl _)
    | false =>
        intro pairs r hread
        rcases exists_of_bind_eq_ok hread with ⟨q, hcomma, hrest⟩
        exact leaves_flowPairs h read (p.leaves_readComma hcomma) pairs r hrest

theorem leaves_flowValue {p q : Parser} (closing : Token) (key : Node)
    (hq : q.tokens ⊆ p.tokens) :
    Leaves p (do
      match ← q.peek with
      | .value =>
        let (value, q) ← readFlowPlace closing n q.next
        return ((key, value), q)
      | _ => return ((key, .empty), q)) := by
  refine .test fun t => ?_
  split
  · exact .bind ((h.flowPlace closing q.next).of_subset (List.Subset.trans q.tokens_next hq))
      fun value r hr => .ok _ hr
  · exact .ok _ hq

theorem leaves_readFlowPair_succ (closing : Token) (p : Parser) :
    Leaves p (readFlowPair closing (n + 1) p) := by
  rw [readFlowPair]
  refine .test fun t => ?_
  split
  · exact leaves_flowValue h closing .empty (List.Subset.refl _)
  · exact .bind (h.flowPlace closing p) fun key q hq => leaves_flowValue h closing key hq

theorem leaves_readFlowPlace_succ (closing : Token) (p : Parser) :
    Leaves p (readFlowPlace closing (n + 1) p) := by
  rw [readFlowPlace]
  refine .test fun t => ?_
  split
  · exact .ok _ (List.Subset.refl _)
  · exact h.node false false p

end

theorem leavesAt (n : Nat) : LeavesAt n := by
  induction n with
  | zero =>
      exact ⟨fun _ _ _ => .error _, fun _ _ => .error _, fun _ _ => .error _, fun _ _ => .error _,
        fun _ => .error _, fun _ => .error _, fun _ _ _ => .error _, fun _ _ _ => .error _,
        fun _ _ => .error _, fun _ _ => .error _⟩
  | succ n ih =>
      exact ⟨leaves_readNode_succ ih, leaves_readBlockSequence_succ ih,
        leaves_readIndentless_succ ih, leaves_readBlockMapping_succ ih,
        leaves_readBlockPlace_succ ih, leaves_readBlockValue_succ ih,
        leaves_readFlowSequence_succ ih, leaves_readFlowMapping_succ ih,
        leaves_readFlowPair_succ ih, leaves_readFlowPlace_succ ih⟩

/-!
# Documents
-/

theorem tokens_readDirectives {versioned : Bool} {ts : List Token} {p q : Parser}
    (h : readDirectives versioned ts p = .ok q) : q.tokens ⊆ ts := by
  fun_induction readDirectives versioned ts p with
  | case1 => cases h
  | case2 versioned major rest p _ ih => exact List.subset_cons_of_subset _ (ih h)
  | case3 => cases h
  | case4 versioned handle start rest p _ ih => exact List.subset_cons_of_subset _ (ih h)
  | case5 versioned rest p ih => exact List.subset_cons_of_subset _ (ih h)
  | case6 =>
      cases h
      exact List.Subset.refl _

theorem leaves_readMarked (p : Parser) : Leaves p p.readMarked := by
  intro node r h
  unfold readMarked at h
  rcases exists_of_bind_eq_ok h with ⟨q, hdirectives, hrest⟩
  have hq := tokens_readDirectives hdirectives
  refine (?_ : Leaves p _) node r hrest
  refine .test fun t => ?_
  split
  · refine .test fun next => ?_
    split
    · exact .ok _ (List.Subset.trans q.tokens_next hq)
    · exact ((leavesAt _).node true false q.next).of_subset (List.Subset.trans q.tokens_next hq)
  · exact .error _

theorem streamEnd_mem_of_ending {p : Parser} {node : Except Fault (Node × Parser)}
    {read : Option Node} (hleaves : Leaves p node)
    (hread : ((do
      let (node, q) ← node
      match q.tokens.dropWhile (· == .documentEnd) with
      | .streamEnd :: _ => return some node
      | [] => throw q.fault
      | _ => throw .invalid : Except Fault (Option Node))) = .ok read) :
    .streamEnd ∈ p.tokens := by
  rcases exists_of_bind_eq_ok hread with ⟨⟨node, q⟩, hnode, hend⟩
  dsimp only at hend
  split at hend
  · rename_i more hdrop
    refine hleaves node q hnode ?_
    exact (List.dropWhile_suffix _).subset (hdrop ▸ List.mem_cons_self)
  · cases hend
  · cases hend

theorem streamEnd_mem_of_readDocument {p : Parser} {read : Option Node}
    (h : p.readDocument = .ok read) : .streamEnd ∈ p.tokens := by
  unfold readDocument at h
  rcases exists_of_bind_eq_ok h with ⟨t, hpeek, hrest⟩
  split at hrest
  · unfold peek at hpeek
    split at hpeek
    · rename_i ts htokens
      cases hpeek
      exact htokens ▸ List.mem_cons_self
    · cases hpeek
  · dsimp only at hrest
    split at hrest
    · exact streamEnd_mem_of_ending p.leaves_readMarked hrest
    · exact streamEnd_mem_of_ending ((leavesAt _).node true false { p with handles := coreHandles })
        hrest

end Parser
end Yaml
end TrafficGraph

import TrafficGraph.Selector.Basic

/-!
# Peers that reach pods

A peer reaches the pods of a policy if it selects pods by labels that the policy
selects its own pods by, and if it selects namespaces or need not do so.  The
check of the program decides exactly this.
-/

namespace TrafficGraph

namespace Labels

theorem findEntry_eq_some_iff {entries : List (String × String)}
    (hnodup : (entries.map Prod.fst).Nodup) {key value : String} :
    findEntry key entries = some value ↔ (key, value) ∈ entries := by
  induction entries with
  | nil => simp [findEntry]
  | cons entry rest ih =>
      rcases entry with ⟨k, v⟩
      rw [List.map_cons, List.nodup_cons] at hnodup
      rw [findEntry, List.mem_cons]
      by_cases hk : k = key
      · subst hk
        rw [if_pos rfl, Option.some_inj, Prod.mk.injEq]
        constructor
        · intro hv
          exact Or.inl ⟨rfl, hv.symm⟩
        · rintro (⟨_, hv⟩ | hrest)
          · exact hv.symm
          · exact absurd (List.mem_map_of_mem hrest) hnodup.1
      · rw [if_neg hk, ih hnodup.2, or_iff_right]
        rintro heq
        injection heq with hkey _
        exact hk hkey.symm

theorem get?_eq_some_iff (labels : Labels) {key value : String} :
    labels.get? key = some value ↔ (key, value) ∈ labels.entries :=
  findEntry_eq_some_iff labels.nodup

/-- Whether all labels of a set have the same value in another one. -/
def Submap (labels other : Labels) : Prop :=
  ∀ key value, labels.get? key = some value -> other.get? key = some value

theorem within_iff_submap (labels other : Labels) :
    labels.within other = true ↔ labels.Submap other := by
  unfold within
  rw [List.all_eq_true]
  constructor
  · intro hall key value hvalue
    have hentry := hall (key, value) (labels.get?_eq_some_iff.mp hvalue)
    exact eq_of_beq hentry
  · intro hsub entry hentry
    rw [beq_iff_eq]
    exact hsub entry.1 entry.2 (labels.get?_eq_some_iff.mpr hentry)

end Labels

/-- Whether a peer of a rule of `owner` reaches the pods of `target`. -/
def Peer.Reaches (p : Peer) (owner target : Policy) : Prop :=
  (owner.namespaceName ≠ target.namespaceName -> p.namespaceSelector.isSome) ∧
    ∃ pods labels governed others,
      p.podSelector = some pods ∧ pods.labels = some labels ∧
        target.podSelector = some governed ∧ governed.labels = some others ∧ labels.Submap others

theorem Selector.picks_eq_true_iff (s target : Option Selector) :
    picks s target = true ↔
      ∃ pods labels governed others,
        s = some pods ∧ pods.labels = some labels ∧
          target = some governed ∧ governed.labels = some others ∧ labels.Submap others := by
  unfold picks
  constructor
  · intro h
    split at h
    · rename_i labels others hlabels hothers
      rcases Option.bind_eq_some_iff.mp hlabels with ⟨pods, rfl, hpods⟩
      rcases Option.bind_eq_some_iff.mp hothers with ⟨governed, rfl, hgoverned⟩
      exact ⟨pods, labels, governed, others, rfl, hpods, rfl, hgoverned,
        (labels.within_iff_submap others).mp h⟩
    · cases h
  · rintro ⟨pods, labels, governed, others, rfl, hpods, rfl, hgoverned, hsub⟩
    simp only [Option.bind_some, hpods, hgoverned]
    exact (labels.within_iff_submap others).mpr hsub

theorem Peer.selects_iff_reaches (p : Peer) (owner target : Policy) :
    p.selects owner target = true ↔ p.Reaches owner target := by
  unfold selects Reaches
  rw [Bool.and_eq_true, Bool.and_eq_true, Bool.or_eq_true, beq_iff_eq, Selector.picks_eq_true_iff]
  constructor
  · rintro ⟨⟨_, hspace⟩, hpicks⟩
    refine ⟨?_, hpicks⟩
    intro hne
    exact hspace.resolve_left hne
  · rintro ⟨hspace, hpicks⟩
    refine ⟨⟨?_, ?_⟩, hpicks⟩
    · rcases hpicks with ⟨pods, _, _, _, hpods, _⟩
      rw [hpods]
      rfl
    · by_cases heq : owner.namespaceName = target.namespaceName
      · exact Or.inl heq
      · exact Or.inr (hspace heq)

instance (p : Peer) (owner target : Policy) : Decidable (p.Reaches owner target) :=
  decidable_of_iff _ (p.selects_iff_reaches owner target)

end TrafficGraph

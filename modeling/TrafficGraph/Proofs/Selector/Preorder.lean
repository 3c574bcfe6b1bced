import TrafficGraph.Proofs.Selector.Canonicity

/-!
# Matching as a preorder

A selector picks what another one asks for if its labels are a part of the other's labels.
So matching is a preorder on the selectors that have labels, and only those match themselves.
Nothing but the labels counts, and their order does not.  Two selectors match each other
exactly if they have the same labels, which is what their canonical texts tell once the
requirements are left out.
-/

namespace TrafficGraph

/-!
# Parts of sets of labels
-/

namespace Labels

def extend (labels : Labels) (more : List (String × String)) : Labels :=
  more.foldl (fun grown entry => grown.put entry.1 entry.2) labels

def keep (labels : Labels) (test : String × String → Bool) : Labels where
  entries := labels.entries.filter test
  nodup := labels.nodup.sublist (List.filter_sublist.map Prod.fst)

theorem get?_extend_of_notMem (labels : Labels) {more : List (String × String)} {key : String}
    (h : key ∉ more.map Prod.fst) : (labels.extend more).get? key = labels.get? key := by
  unfold extend
  induction more generalizing labels with
  | nil => rfl
  | cons entry rest ih =>
      rw [List.map_cons, List.mem_cons, not_or] at h
      rw [List.foldl_cons, ih _ h.2, get?_put, if_neg h.1]

namespace Submap

variable {labels other third : Labels}

theorem refl (labels : Labels) : labels.Submap labels := fun _ _ h => h

theorem trans (h : labels.Submap other) (h' : other.Submap third) : labels.Submap third :=
  fun key value hvalue => h' key value (h key value hvalue)

theorem antisymm (h : labels.Submap other) (h' : other.Submap labels) :
    labels.entries.Perm other.entries := by
  rw [perm_entries_iff]
  intro key
  apply Option.ext
  intro value
  exact ⟨h key value, h' key value⟩

theorem of_perm (h : labels.entries.Perm other.entries) : labels.Submap other := by
  intro key value hvalue
  rw [← (labels.perm_entries_iff other).mp h key]
  exact hvalue

theorem extend {more : List (String × String)} (h : ∀ entry ∈ more, labels.get? entry.1 = none) :
    labels.Submap (labels.extend more) := by
  intro key value hvalue
  rw [get?_extend_of_notMem, hvalue]
  intro hkey
  rcases List.mem_map.mp hkey with ⟨entry, hentry, rfl⟩
  rw [h entry hentry] at hvalue
  cases hvalue

theorem keep (labels : Labels) (test : String × String → Bool) :
    (labels.keep test).Submap labels := by
  intro key value hvalue
  rw [get?_eq_some_iff] at hvalue ⊢
  exact List.mem_of_mem_filter hvalue

end Submap

end Labels

/-!
# Selectors and their labels
-/

namespace Selector

def labels? (s : Option Selector) : Option Labels := s.bind Selector.labels

def mapLabels (change : Labels → Labels) (s : Option Selector) : Option Selector :=
  s.map fun own => { own with labels := own.labels.map change }

def withRequirements (rs : Option (List Requirement)) (s : Option Selector) : Option Selector :=
  s.map fun own => { own with requirements := rs }

/-- Whether both selectors have no labels, or both have the same ones in some order. -/
def SameLabels (s t : Option Selector) : Prop :=
  Option.Rel (fun own others : Labels => own.entries.Perm others.entries) (labels? s) (labels? t)

variable {s t u : Option Selector}

@[simp] theorem labels?_mapLabels (change : Labels → Labels) (s : Option Selector) :
    labels? (mapLabels change s) = (labels? s).map change := by
  cases s <;> rfl

@[simp] theorem labels?_withRequirements (rs : Option (List Requirement)) (s : Option Selector) :
    labels? (withRequirements rs s) = labels? s := by
  cases s <;> rfl

theorem picks_iff_submap (s t : Option Selector) :
    picks s t = true ↔
      ∃ own others, labels? s = some own ∧ labels? t = some others ∧ own.Submap others := by
  unfold picks labels?
  cases s.bind Selector.labels with
  | none => simp
  | some own =>
      cases t.bind Selector.labels with
      | none => simp
      | some others => simp [own.within_iff_submap others]

theorem picks_eq_of_labels {s' t' : Option Selector} (hs : labels? s = labels? s')
    (ht : labels? t = labels? t') : picks s t = picks s' t' := by
  unfold labels? at hs ht
  unfold picks
  rw [hs, ht]

theorem picks_self_iff (s : Option Selector) : picks s s = true ↔ (labels? s).isSome = true := by
  rw [picks_iff_submap, Option.isSome_iff_exists]
  constructor
  · rintro ⟨own, _, hown, _, _⟩
    exact ⟨own, hown⟩
  · rintro ⟨own, hown⟩
    exact ⟨own, own, hown, hown, .refl own⟩

theorem picks_trans (h : picks s t = true) (h' : picks t u = true) : picks s u = true := by
  rw [picks_iff_submap] at h h' ⊢
  rcases h with ⟨own, middle, hown, hmiddle, hsub⟩
  rcases h' with ⟨first, last, hfirst, hlast, hsub'⟩
  cases hmiddle.symm.trans hfirst
  exact ⟨own, last, hown, hlast, hsub.trans hsub'⟩

theorem picks_extend (h : picks s t = true) {more : List (String × String)}
    (hnew : ∀ others, labels? t = some others -> ∀ entry ∈ more, others.get? entry.1 = none) :
    picks s (mapLabels (·.extend more) t) = true := by
  rw [picks_iff_submap] at h ⊢
  rcases h with ⟨own, others, hown, hothers, hsub⟩
  refine ⟨own, others.extend more, hown, ?_, hsub.trans (.extend (hnew others hothers))⟩
  rw [labels?_mapLabels, hothers, Option.map_some]

theorem picks_keep (h : picks s t = true) (test : String × String → Bool) :
    picks (mapLabels (·.keep test) s) t = true := by
  rw [picks_iff_submap] at h ⊢
  rcases h with ⟨own, others, hown, hothers, hsub⟩
  refine ⟨own.keep test, others, ?_, hothers, (Labels.Submap.keep own test).trans hsub⟩
  rw [labels?_mapLabels, hown, Option.map_some]

theorem sameLabels_iff (s t : Option Selector) :
    SameLabels s t ↔
      (labels? s = none ∧ labels? t = none) ∨
        ∃ own others, labels? s = some own ∧ labels? t = some others ∧
          own.entries.Perm others.entries := by
  unfold SameLabels
  generalize labels? s = a
  generalize labels? t = b
  constructor
  · intro h
    cases h with
    | none => exact .inl ⟨rfl, rfl⟩
    | some hperm => exact .inr ⟨_, _, rfl, rfl, hperm⟩
  · rintro (⟨rfl, rfl⟩ | ⟨own, others, rfl, rfl, hperm⟩)
    · exact .none
    · exact .some hperm

theorem SameLabels.symm (h : SameLabels s t) : SameLabels t s := by
  rw [sameLabels_iff] at h ⊢
  rcases h with ⟨hs, ht⟩ | ⟨own, others, hown, hothers, hperm⟩
  · exact .inl ⟨ht, hs⟩
  · exact .inr ⟨others, own, hothers, hown, hperm.symm⟩

theorem SameLabels.isSome_eq (h : SameLabels s t) :
    (labels? s).isSome = (labels? t).isSome := by
  rcases (sameLabels_iff s t).mp h with ⟨hs, ht⟩ | ⟨own, others, hown, hothers, _⟩
  · rw [hs, ht]
  · rw [hown, hothers]
    rfl

theorem SameLabels.picks (h : SameLabels s t) (hs : (labels? s).isSome = true) :
    Selector.picks s t = true := by
  rw [picks_iff_submap]
  rcases (sameLabels_iff s t).mp h with ⟨hnone, _⟩ | ⟨own, others, hown, hothers, hperm⟩
  · rw [hnone] at hs
    cases hs
  · exact ⟨own, others, hown, hothers, .of_perm hperm⟩

theorem picks_both_iff (s t : Option Selector) :
    picks s t = true ∧ picks t s = true ↔
      (labels? s).isSome = true ∧ (labels? t).isSome = true ∧ SameLabels s t := by
  constructor
  · rintro ⟨h, hback⟩
    rw [picks_iff_submap] at h hback
    rcases h with ⟨own, others, hown, hothers, hsub⟩
    rcases hback with ⟨_, _, hothers', hown', hsub'⟩
    cases hown.symm.trans hown'
    cases hothers.symm.trans hothers'
    refine ⟨by rw [hown]; rfl, by rw [hothers]; rfl, ?_⟩
    rw [sameLabels_iff]
    exact .inr ⟨own, others, hown, hothers, hsub.antisymm hsub'⟩
  · rintro ⟨hs, ht, hsame⟩
    exact ⟨hsame.picks hs, hsame.symm.picks ht⟩

/-- What a selector matches does not depend on the order of its labels, nor does what matches
it. -/
theorem picks_of_sameLabels {s' t' : Option Selector} (hs : SameLabels s s')
    (ht : SameLabels t t') (h : picks s t = true) : picks s' t' = true := by
  rcases (picks_iff_submap s t).mp h with ⟨own, others, hown, hothers, _⟩
  -- through the selectors that are known to match
  have hfront : picks s' s = true := hs.symm.picks (by rw [← hs.isSome_eq, hown]; rfl)
  have hback : picks t t' = true := ht.picks (by rw [hothers]; rfl)
  exact picks_trans (picks_trans hfront h) hback

/-- Canonical texts tell the labels of selectors without requirements, up to their order. -/
theorem canonical_withRequirements_none_eq_iff (s t : Option Selector) :
    canonical (withRequirements none s) = canonical (withRequirements none t) ↔
      SameLabels s t := by
  have hlabels : ∀ one : Option Selector,
      ((withRequirements none one).getD blank).labels = labels? one := by
    intro one
    cases one <;> rfl
  have hrequirements : ∀ one : Option Selector,
      ((withRequirements none one).getD blank).requirements = none := by
    intro one
    cases one <;> rfl
  rw [canonical_eq_iff_equivalent]
  constructor
  · intro h
    have hsame := h.labels
    rw [hlabels, hlabels] at hsame
    exact hsame
  · intro h
    constructor
    · rw [hlabels, hlabels]
      exact h
    · rw [hrequirements, hrequirements]
      exact .none

/-- Matching is transitive, and the selectors that match themselves are those with labels.  A
match stays one if labels with new keys are added on the right, or any labels removed on the
left.  The requirements on either side do not matter, and neither does the order of labels.
Selectors match each other both ways exactly if both have labels and their canonical texts are
the same once their requirements are left out. -/
theorem picks_preorder :
    (∀ s, picks s s = true ↔ (labels? s).isSome = true) ∧
      (∀ s t u, picks s t = true -> picks t u = true -> picks s u = true) ∧
      (∀ s t more, picks s t = true ->
        (∀ others, labels? t = some others -> ∀ entry ∈ more, others.get? entry.1 = none) ->
          picks s (mapLabels (·.extend more) t) = true) ∧
      (∀ s t test, picks s t = true -> picks (mapLabels (·.keep test) s) t = true) ∧
      (∀ s t rs rs', picks (withRequirements rs s) (withRequirements rs' t) = picks s t) ∧
      (∀ s s' t t', SameLabels s s' -> SameLabels t t' -> picks s t = picks s' t') ∧
      ∀ s t, picks s t = true ∧ picks t s = true ↔
        (labels? s).isSome = true ∧ (labels? t).isSome = true ∧
          canonical (withRequirements none s) = canonical (withRequirements none t) := by
  refine ⟨picks_self_iff, fun _ _ _ => picks_trans, ?_, ?_, ?_, ?_, ?_⟩
  · intro s t more h hnew
    exact picks_extend h hnew
  · intro s t test h
    exact picks_keep h test
  · intro s t rs rs'
    exact picks_eq_of_labels (labels?_withRequirements rs s) (labels?_withRequirements rs' t)
  · intro s s' t t' hs ht
    rw [Bool.eq_iff_iff]
    exact ⟨picks_of_sameLabels hs ht, picks_of_sameLabels hs.symm ht.symm⟩
  · intro s t
    rw [picks_both_iff, canonical_withRequirements_none_eq_iff]

/-- No labels are a part of any others, but labels that are not there at all match nothing. -/
example :
    let web : Option Selector := some ⟨some (.ofList [("app", "web")]), none⟩
    picks (some ⟨some .empty, none⟩) web = true ∧ picks (some blank) web = false ∧
      picks web (some ⟨some .empty, none⟩) = false ∧ picks none none = false := by
  decide

end Selector

end TrafficGraph

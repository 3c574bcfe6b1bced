import Mathlib.Data.List.Nodup
import Mathlib.Data.Prod.Lex
import Mathlib.Data.String.Basic
import TrafficGraph.Proofs.Selector.Equivalence
import TrafficGraph.Proofs.Selector.Reach

/-!
# Canonical texts and order

Items that are sorted by ranks come out as one list, whatever order they came in, if
items of one rank are equal.  Labels are ranked by their keys, which no two labels of a
set share, and requirements by everything that is in them.  Two selectors therefore have
one canonical text exactly if they differ at most in the order of their labels and of
their requirements.
-/

namespace TrafficGraph

/-!
# Sorting by rank
-/

namespace Sorting

variable {α κ : Type} [LinearOrder κ] {below : α → α → Bool} {rank : α → κ}

def ByRank (below : α → α → Bool) (rank : α → κ) : Prop :=
  ∀ a b, below a b = true ↔ rank a < rank b

theorem ByRank.pairwise_insert (h : ByRank below rank) (x : α) {xs : List α}
    (hxs : xs.Pairwise fun a b => rank a ≤ rank b) :
    (insert below x xs).Pairwise fun a b => rank a ≤ rank b := by
  induction xs with
  | nil => exact List.pairwise_singleton _ x
  | cons y ys ih =>
      rw [List.pairwise_cons] at hxs
      rw [insert]
      by_cases hbelow : below y x = true
      · rw [if_pos hbelow, List.pairwise_cons]
        refine ⟨?_, ih hxs.2⟩
        intro z hz
        rcases List.mem_cons.mp ((perm_insert below x ys).mem_iff.mp hz) with rfl | hz
        · exact le_of_lt ((h y z).mp hbelow)
        · exact hxs.1 z hz
      · have hle : rank x ≤ rank y := le_of_not_gt (mt (h y x).mpr hbelow)
        rw [if_neg hbelow, List.pairwise_cons, List.pairwise_cons]
        refine ⟨?_, hxs⟩
        intro z hz
        rcases List.mem_cons.mp hz with rfl | hz
        · exact hle
        · exact le_trans hle (hxs.1 z hz)

theorem ByRank.pairwise_sort (h : ByRank below rank) (xs : List α) :
    (sort below xs).Pairwise fun a b => rank a ≤ rank b := by
  induction xs with
  | nil => exact List.Pairwise.nil
  | cons x rest ih => exact h.pairwise_insert x ih

theorem ByRank.sort_eq_of_perm (h : ByRank below rank) {xs ys : List α} (hperm : xs.Perm ys)
    (hinj : ∀ a ∈ xs, ∀ b ∈ xs, rank a = rank b -> a = b) : sort below xs = sort below ys := by
  apply List.Perm.eq_of_pairwise _ (h.pairwise_sort xs) (h.pairwise_sort ys)
  · exact (perm_sort below xs).trans (hperm.trans (perm_sort below ys).symm)
  · intro a b ha hb hab hba
    have hax : a ∈ xs := (perm_sort below xs).mem_iff.mp ha
    have hbx : b ∈ xs := hperm.mem_iff.mpr ((perm_sort below ys).mem_iff.mp hb)
    exact hinj a hax b hbx (le_antisymm hab hba)

end Sorting

/-!
# Labels as maps
-/

namespace Labels

theorem nodup_entries (labels : Labels) : labels.entries.Nodup :=
  List.Nodup.of_map Prod.fst labels.nodup

/-- Sets of labels have the same labels exactly if they give each key the same value. -/
theorem perm_entries_iff (labels other : Labels) :
    labels.entries.Perm other.entries ↔ ∀ key, labels.get? key = other.get? key := by
  rw [List.perm_ext_iff_of_nodup labels.nodup_entries other.nodup_entries]
  constructor
  · intro h key
    apply Option.ext
    intro value
    rw [get?_eq_some_iff, get?_eq_some_iff]
    exact h (key, value)
  · rintro h ⟨key, value⟩
    rw [← get?_eq_some_iff, ← get?_eq_some_iff, h key]

theorem eq_of_key_eq (labels : Labels) {a b : String × String} (ha : a ∈ labels.entries)
    (hb : b ∈ labels.entries) (h : a.1 = b.1) : a = b :=
  List.inj_on_of_nodup_map labels.nodup ha hb h

end Labels

/-!
# Selectors
-/

namespace Selector

theorem byRank_labelBelow : Sorting.ByRank labelBelow Prod.fst :=
  fun _ _ => decide_eq_true_iff

/-- What requirements are sorted by: the key, then the operator, then the values. -/
def requirementRank (r : Requirement) : String ×ₗ String ×ₗ List String :=
  toLex (r.key, toLex (r.operator, r.values))

theorem requirementRank_inj {r s : Requirement} (h : requirementRank r = requirementRank s) :
    r = s := by
  cases r
  cases s
  cases h
  rfl

theorem byRank_requirementBelow : Sorting.ByRank requirementBelow requirementRank := by
  intro r s
  simp only [requirementBelow, requirementRank, Prod.Lex.toLex_lt_toLex, Bool.or_eq_true,
    Bool.and_eq_true, decide_eq_true_eq, beq_iff_eq]

theorem canonicalLabels_eq_of_perm {labels other : Labels}
    (h : labels.entries.Perm other.entries) : canonicalLabels labels = canonicalLabels other := by
  unfold canonicalLabels
  rw [byRank_labelBelow.sort_eq_of_perm h fun _ ha _ hb => labels.eq_of_key_eq ha hb]

theorem canonicalRequirements_eq_of_perm {rs ss : List Requirement} (h : rs.Perm ss) :
    canonicalRequirements rs = canonicalRequirements ss := by
  unfold canonicalRequirements
  rw [byRank_requirementBelow.sort_eq_of_perm h fun _ _ _ _ => requirementRank_inj]

theorem Equivalent.canonicalFields_eq {a b : Selector} (h : a.Equivalent b) :
    canonicalFields a = canonicalFields b := by
  rcases a with ⟨labels, requirements⟩
  rcases b with ⟨labels', requirements'⟩
  rcases h with ⟨hlabels, hrequirements⟩
  unfold canonicalFields
  congr 1
  · cases hrequirements with
    | none => rfl
    | some hperm => simp only [canonicalRequirements_eq_of_perm hperm]
  · cases hlabels with
    | none => rfl
    | some hperm => simp only [canonicalLabels_eq_of_perm hperm]

theorem canonical_eq_iff_equivalent (a b : Option Selector) :
    canonical a = canonical b ↔ (a.getD blank).Equivalent (b.getD blank) := by
  constructor
  · exact equivalent_of_canonical_eq
  · intro h
    unfold canonical canonicalChars
    rw [h.canonicalFields_eq]

/-- Canonical texts tell selectors apart up to order: two selectors have one text exactly if
both or neither have labels, and those give each key the same value, and both or neither
have requirements, and those are the same ones, each as often.  No selector at all counts
as one without any part. -/
theorem canonical_eq_iff_same_parts (a b : Option Selector) :
    canonical a = canonical b ↔
      Option.Rel (fun labels other : Labels => ∀ key, labels.get? key = other.get? key)
          (a.getD blank).labels (b.getD blank).labels ∧
        Option.Rel (fun rs ss : List Requirement => ∀ r, rs.count r = ss.count r)
          (a.getD blank).requirements (b.getD blank).requirements := by
  rw [canonical_eq_iff_equivalent]
  simp only [← Labels.perm_entries_iff, ← List.perm_iff_count]
  constructor
  · intro h
    exact ⟨h.labels, h.requirements⟩
  · rintro ⟨hlabels, hrequirements⟩
    exact ⟨hlabels, hrequirements⟩

end Selector
end TrafficGraph

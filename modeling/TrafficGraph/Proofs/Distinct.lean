import Mathlib.Data.List.Nodup

/-!
# Lists without repetition

What is left of a list if all but the first of equal members are erased: how this goes
together with mapping and filtering.
-/

namespace TrafficGraph

variable {α β : Type} [BEq α] [LawfulBEq α] [BEq β] [LawfulBEq β]

theorem nodup_eraseDups (xs : List α) : xs.eraseDups.Nodup := by
  match xs with
  | [] => simp
  | x :: rest =>
      rw [List.eraseDups_cons, List.nodup_cons]
      constructor
      · intro hmem
        have hother := (List.mem_filter.mp (List.mem_eraseDups.mp hmem)).2
        simp at hother
      · exact nodup_eraseDups _
termination_by xs.length
decreasing_by
  exact Nat.lt_succ_of_le (List.length_filter_le _ rest)

theorem eraseDups_perm {xs ys : List α}
    (h : ∀ x, x ∈ xs ↔ x ∈ ys) : xs.eraseDups.Perm ys.eraseDups := by
  apply (List.perm_ext_iff_of_nodup (nodup_eraseDups xs) (nodup_eraseDups ys)).mpr
  intro x
  rw [List.mem_eraseDups, List.mem_eraseDups]
  exact h x

theorem eraseDups_eq_singleton {x : α} {rest : List α} (h : ∀ y ∈ rest, y = x) :
    (x :: rest).eraseDups = [x] := by
  have hnone : rest.filter (fun y => !y == x) = [] := by
    rw [List.filter_eq_nil_iff]
    intro y hy
    simp [h y hy]
  rw [List.eraseDups_cons, hnone, List.eraseDups_nil]

omit [BEq α] [LawfulBEq α] in
theorem filter_filter_of_imp {p q : α → Bool} (xs : List α) (h : ∀ x, q x = true -> p x = true) :
    (xs.filter p).filter q = xs.filter q := by
  rw [List.filter_filter]
  apply List.filter_congr
  intro x _
  cases hq : q x with
  | false => rfl
  | true => rw [h x hq, Bool.and_self]

theorem filter_eraseDups (p : α → Bool) (xs : List α) :
    xs.eraseDups.filter p = (xs.filter p).eraseDups := by
  match xs with
  | [] => simp
  | x :: rest =>
      rw [List.eraseDups_cons]
      by_cases hx : p x = true
      · rw [List.filter_cons_of_pos hx, List.filter_cons_of_pos hx, List.eraseDups_cons,
          filter_eraseDups p (rest.filter fun y => !y == x), List.filter_filter, List.filter_filter]
        simp only [Bool.and_comm]
      · have hother : ∀ y, p y = true -> (!y == x) = true := by
          intro y hy
          have hne : y ≠ x := fun heq => hx (heq ▸ hy)
          simpa using hne
        rw [List.filter_cons_of_neg hx, List.filter_cons_of_neg hx,
          filter_eraseDups p (rest.filter fun y => !y == x), filter_filter_of_imp rest hother]
termination_by xs.length
decreasing_by
  all_goals exact Nat.lt_succ_of_le (List.length_filter_le _ rest)

theorem eraseDups_map_eraseDups (f : α → β) (xs : List α) :
    (xs.eraseDups.map f).eraseDups = (xs.map f).eraseDups := by
  match xs with
  | [] => simp
  | x :: rest =>
      have hother : ∀ y, (!f y == f x) = true -> (!y == x) = true := by
        intro y hy
        have hne : y ≠ x := by
          rintro rfl
          simp at hy
        simpa using hne
      rw [List.eraseDups_cons, List.map_cons, List.map_cons, List.eraseDups_cons,
        List.eraseDups_cons, ← filter_eraseDups, eraseDups_map_eraseDups f, filter_eraseDups,
        List.filter_map, List.filter_map]
      simp only [Function.comp_def]
      rw [filter_filter_of_imp rest hother]
termination_by xs.length
decreasing_by
  exact Nat.lt_succ_of_le (List.length_filter_le _ rest)

theorem eraseDups_map_of_inj (f : α → β) (xs : List α)
    (hinj : ∀ x ∈ xs, ∀ y ∈ xs, f x = f y -> x = y) :
    (xs.map f).eraseDups = xs.eraseDups.map f := by
  match xs with
  | [] => simp
  | x :: rest =>
      have hfilter : (rest.map f).filter (fun b => !b == f x) =
          (rest.filter fun a => !a == x).map f := by
        rw [List.filter_map]
        congr 1
        apply List.filter_congr
        intro y hy
        have heq : (f y == f x) = (y == x) := by
          rw [Bool.eq_iff_iff, beq_iff_eq, beq_iff_eq]
          exact ⟨hinj y (List.mem_cons_of_mem x hy) x List.mem_cons_self, fun hyx => by rw [hyx]⟩
        simp [heq]
      rw [List.map_cons, List.eraseDups_cons, List.eraseDups_cons, List.map_cons, hfilter,
        eraseDups_map_of_inj f (rest.filter fun a => !a == x)]
      intro y hy z hz
      exact hinj y (List.mem_cons_of_mem x (List.mem_filter.mp hy).1) z
        (List.mem_cons_of_mem x (List.mem_filter.mp hz).1)
termination_by xs.length
decreasing_by
  exact Nat.lt_succ_of_le (List.length_filter_le _ rest)

omit [BEq α] [LawfulBEq α] [BEq β] [LawfulBEq β] in
theorem eq_of_map_eq_map_of_inj (f : α → β) {xs ys : List α}
    (hinj : ∀ x ∈ xs, ∀ y ∈ ys, f x = f y -> x = y) (h : xs.map f = ys.map f) : xs = ys := by
  induction xs generalizing ys with
  | nil => exact (List.map_eq_nil_iff.mp h.symm).symm
  | cons x rest ih =>
      cases ys with
      | nil => cases h
      | cons y more =>
          injection h with hhead htail
          have hxy : x = y := hinj x List.mem_cons_self y List.mem_cons_self hhead
          have hrest : rest = more := ih
            (fun x' hx' y' hy' =>
              hinj x' (List.mem_cons_of_mem x hx') y' (List.mem_cons_of_mem y hy')) htail
          rw [hxy, hrest]

omit [BEq α] [LawfulBEq α] in
/-- If a map that undoes itself takes two lists without repetition into each other, it
takes one to the other in some order. -/
theorem perm_map_of_forall_mem {f : α → α} {xs ys : List α} (hxs : xs.Nodup) (hys : ys.Nodup)
    (hback : ∀ x ∈ xs, f (f x) = x) (hbackOther : ∀ y ∈ ys, f (f y) = y)
    (h : ∀ x ∈ xs, f x ∈ ys) (hother : ∀ y ∈ ys, f y ∈ xs) : ys.Perm (xs.map f) := by
  have hinj : ∀ x ∈ xs, ∀ x' ∈ xs, f x = f x' -> x = x' := by
    intro x hx x' hx' heq
    rw [← hback x hx, heq, hback x' hx']
  apply (List.perm_ext_iff_of_nodup hys (List.Nodup.map_on hinj hxs)).mpr
  intro y
  rw [List.mem_map]
  constructor
  · intro hy
    exact ⟨f y, hother y hy, hbackOther y hy⟩
  · rintro ⟨x, hx, rfl⟩
    exact h x hx

end TrafficGraph

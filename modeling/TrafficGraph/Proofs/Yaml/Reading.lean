import TrafficGraph.Proofs.Yaml.Placement
import TrafficGraph.Yaml.Token.Scalar

/-!
# Readings of a longer document

A reader that takes no white space cannot tell whether a text ends or spacing follows.  In a
longer document it reads the same, or it fails there.  A reader that may take white space
may also take the text to its end, and go on behind it.
-/

namespace TrafficGraph
namespace Yaml

open Cursor

theorem exists_of_bind_eq_ok {α β : Type} {x : Except Fault α} {f : α → Except Fault β} {b : β}
    (h : (x >>= f) = .ok b) : ∃ a, x = .ok a ∧ f a = .ok b := by
  cases x with
  | error fault => cases h
  | ok a => exact ⟨a, rfl, h⟩

/-!
# Readings that keep inside the text
-/

/-- What a reader makes of a text from a cursor on, and of a longer text: in the longer one it
fails, or it reads the same in both, and at least so many characters. -/
inductive Tracks (e : Setting) (c : Cursor) (least : Nat) {α : Type} :
    Except Fault (α × Cursor) → Except Fault (α × Cursor) → Prop where
  | same (a : α) (n : Nat) (hleast : least ≤ n) (hn : n ≤ c.rest.length) :
      Tracks e c least (.ok (a, c.skip n)) (.ok (a, (c.skip n).within e))
  | fails (short : Except Fault (α × Cursor)) (fault : Fault) :
      Tracks e c least short (.error fault)

namespace Tracks

variable {e : Setting} {c : Cursor} {α β : Type} {least : Nat}

theorem bind {short long : Except Fault (α × Cursor)}
    {go goLong : α × Cursor → Except Fault (β × Cursor)} (h : Tracks e c least short long)
    (hgo : ∀ a n, least ≤ n -> n ≤ c.rest.length ->
      Tracks e (c.skip n) 0 (go (a, c.skip n)) (goLong (a, (c.skip n).within e))) :
    Tracks e c least (short >>= go) (long >>= goLong) := by
  cases h with
  | fails fault => exact .fails _ _
  | same a n hleast hn =>
      have hnext := hgo a n hleast hn
      show Tracks e c least (go (a, c.skip n)) (goLong (a, (c.skip n).within e))
      generalize go (a, c.skip n) = x at hnext ⊢
      generalize goLong (a, (c.skip n).within e) = y at hnext ⊢
      cases hnext with
      | fails fault => exact .fails _ _
      | same b k _ hlen =>
          rw [rest_skip, List.length_drop] at hlen
          rw [← skip_add]
          exact .same b (n + k) (by omega) (by omega)

theorem weaken {short long : Except Fault (α × Cursor)} (h : Tracks e c least short long) :
    Tracks e c 0 short long := by
  cases h with
  | fails fault => exact .fails _ _
  | same a n _ hn => exact .same a n (Nat.zero_le n) hn

theorem of_skip {short long : Except Fault (α × Cursor)} {n : Nat} (hn : n ≤ c.rest.length)
    (hleast : least ≤ n) (h : Tracks e (c.skip n) 0 short long) :
    Tracks e c least short long := by
  cases h with
  | fails fault => exact .fails _ _
  | same a k _ hlen =>
      rw [rest_skip, List.length_drop] at hlen
      rw [← skip_add]
      exact .same a (n + k) (by omega) (by omega)

theorem refl (a : α) : Tracks e c 0 (.ok (a, c)) (.ok (a, c.within e)) :=
  .same a 0 (Nat.le_refl 0) (Nat.zero_le _)

end Tracks

/-!
# Readings that may reach the end
-/

/-- What a reader makes of a text from a cursor on, and of a longer text, if it may take the
text to its end: it does not, and reads as before, or it does, and may go on into the spacing
behind. -/
inductive Follows (e : Setting) (c : Cursor) (least : Nat) {α : Type} :
    Except Fault (α × Cursor) → Except Fault (α × Cursor) → Prop where
  | tracks {short long : Except Fault (α × Cursor)} (h : Tracks e c least short long) :
      Follows e c least short long
  | ends (a : α) (m : Nat) (hleast : least ≤ c.rest.length) (hm : c.rest.length ≤ m) :
      Follows e c least (.ok (a, c.skip c.rest.length)) (.ok (a, (c.within e).skip m))

namespace Follows

variable {e : Setting} {c : Cursor} {α β : Type} {least : Nat}

theorem fails (short : Except Fault (α × Cursor)) (fault : Fault) :
    Follows e c least short (.error fault) := .tracks (.fails short fault)

theorem of_skip {short long : Except Fault (α × Cursor)} {n : Nat} (h : c.Solid)
    (hn : n ≤ c.rest.length) (hleast : least ≤ n) (hfollows : Follows e (c.skip n) 0 short long) :
    Follows e c least short long := by
  cases hfollows with
  | tracks htracks => exact .tracks (htracks.of_skip hn hleast)
  | ends a m _ hm =>
      rw [← skip_within h e hn, ← skip_add, ← skip_add, rest_skip, List.length_drop,
        Nat.add_sub_cancel' hn]
      rw [rest_skip, List.length_drop] at hm
      exact .ends a (n + m) (by omega) (by omega)

theorem bind {short long : Except Fault (α × Cursor)}
    {go goLong : α × Cursor → Except Fault (β × Cursor)} (hsolid : c.Solid)
    (h : Tracks e c least short long)
    (hgo : ∀ a n, least ≤ n -> n ≤ c.rest.length ->
      Follows e (c.skip n) 0 (go (a, c.skip n)) (goLong (a, (c.skip n).within e))) :
    Follows e c least (short >>= go) (long >>= goLong) := by
  cases h with
  | fails fault => exact .fails _ _
  | same a n hleast hn => exact of_skip hsolid hn hleast (hgo a n hleast hn)

end Follows

/-!
# Moving on in any way
-/

def Cursor.Reaches (c d : Cursor) : Prop := ∃ n, d = c.skip n

namespace Cursor.Reaches

theorem refl (c : Cursor) : c.Reaches c := ⟨0, rfl⟩

theorem skip (c : Cursor) (n : Nat) : c.Reaches (c.skip n) := ⟨n, rfl⟩

theorem trans {c d f : Cursor} (h : c.Reaches d) (h' : d.Reaches f) : c.Reaches f := by
  rcases h with ⟨n, rfl⟩
  rcases h' with ⟨k, rfl⟩
  exact ⟨n + k, (skip_add n k c).symm⟩

theorem of_break? {c d : Cursor} {x : Char} (h : c.break? = some (x, d)) : c.Reaches d := by
  rcases exists_skip_of_break? h with ⟨n, rfl, _, _⟩
  exact skip c (n + 1)

theorem gap (c : Cursor) : c.Reaches c.skipSpaces.skipComment := by
  rcases exists_skip_of_gap c with ⟨n, hgap, _⟩
  exact ⟨n, hgap⟩

theorem line_le {c d : Cursor} (h : c.Reaches d) : c.line ≤ d.line := by
  rcases h with ⟨n, rfl⟩
  exact line_le_skip n c

theorem index_le {c d : Cursor} (h : c.Reaches d) : c.index ≤ d.index := by
  rcases h with ⟨n, rfl⟩
  exact index_le_skip n c

theorem length_le {c d : Cursor} (h : c.Reaches d) : d.rest.length ≤ c.rest.length := by
  rcases h with ⟨n, rfl⟩
  rw [rest_skip, List.length_drop]
  exact Nat.sub_le _ _

end Cursor.Reaches

/-!
# Mere spacing
-/

def Cursor.Spaced (c : Cursor) : Prop := ∀ x ∈ c.rest, isSpacing x = true

theorem Cursor.Spaced.skip {c : Cursor} (h : c.Spaced) (n : Nat) : (c.skip n).Spaced := by
  intro x hx
  rw [rest_skip] at hx
  exact h x (List.mem_of_mem_drop hx)

theorem Cursor.Spaced.of_reaches {c d : Cursor} (h : c.Spaced) (hreaches : c.Reaches d) :
    d.Spaced := by
  rcases hreaches with ⟨n, rfl⟩
  exact h.skip n

theorem spaced_within_of_nil {c : Cursor} (h : c.rest = []) (e : Setting) :
    (c.within e).Spaced := by
  intro x hx
  rw [within, h] at hx
  exact e.spacing x hx

theorem Cursor.Spaced.takeWhile_eq_nil {c : Cursor} (h : c.Spaced) {p : Char → Bool}
    (hp : ∀ x, isSpacing x = true -> p x = false) : c.rest.takeWhile p = [] := by
  rw [List.takeWhile_eq_nil_iff]
  intro hpos
  rw [Bool.not_eq_true]
  exact hp _ (h _ (List.getElem_mem hpos))

theorem Cursor.Spaced.isAt_eq_false {c : Cursor} (h : c.Spaced) {x : Char}
    (hx : isSpacing x = false) : c.isAt x = false := by
  rw [← Bool.not_eq_true]
  intro hat
  have hmem : x ∈ c.rest := List.mem_of_getElem? (eq_of_beq hat)
  rw [h x hmem] at hx
  cases hx

/-!
# Ends of lines
-/

def lineEnd (c : Cursor) : Except Fault Cursor :=
  match c.break? with
  | some (_, after) => .ok after
  | none => if c.rest.isEmpty then .ok c else .error .invalid

theorem endLine_eq (c : Cursor) : endLine c = lineEnd c.skipSpaces.skipComment := rfl

theorem exists_skip_of_lineEnd {c d : Cursor} (h : lineEnd c = .ok d) :
    ∃ n ≤ c.rest.length, d = c.skip n := by
  unfold lineEnd at h
  split at h
  · rename_i x after hbreak
    rcases exists_skip_of_break? hbreak with ⟨n, rfl, hn, _⟩
    cases h
    exact ⟨n + 1, hn, rfl⟩
  · split at h
    · cases h
      exact ⟨0, Nat.zero_le _, rfl⟩
    · cases h

theorem lineEnd_of_nil {c : Cursor} (h : c.rest = []) : lineEnd c = .ok c := by
  rw [lineEnd, break?_of_nil h, h]
  rfl

theorem endLine_of_nil {c : Cursor} (h : c.rest = []) : endLine c = .ok c := by
  rcases exists_skip_of_gap c with ⟨n, hskip, _⟩
  rw [endLine_eq, hskip, skip_of_nil h]
  exact lineEnd_of_nil h

theorem exists_skip_of_endLine {c d : Cursor} (h : endLine c = .ok d) :
    ∃ n, d = c.skip n := by
  rcases exists_skip_of_gap c with ⟨n, hskip, _⟩
  rw [endLine_eq, hskip] at h
  rcases exists_skip_of_lineEnd h with ⟨k, _, rfl⟩
  exact ⟨n + k, (skip_add n k c).symm⟩

theorem lineEnd_within {c : Cursor} (h : c.Solid) (e : Setting) (hne : c.rest ≠ []) :
    lineEnd (c.within e) = (lineEnd c).map fun d => d.within e := by
  have hlong : (c.within e).rest.isEmpty = false := by simp [within, hne]
  rw [lineEnd, lineEnd, break?_within h e hne, hlong, List.isEmpty_eq_false_iff.mpr hne]
  cases c.break? <;> rfl

theorem endLine_within {c : Cursor} (h : c.Solid) (e : Setting) :
    (∃ fault, endLine (c.within e) = .error fault) ∨
      (∃ n ≤ c.rest.length, endLine c = .ok (c.skip n) ∧
        endLine (c.within e) = .ok ((c.skip n).within e)) ∨
      endLine c = .ok (c.skip c.rest.length) ∧
        ∃ m ≥ c.rest.length, endLine (c.within e) = .ok ((c.within e).skip m) := by
  rw [endLine_eq, endLine_eq]
  rcases gap_within h e with ⟨n, hn, hshort, hne, hlong⟩ | ⟨hshort, m, hm, hlong⟩
  · rw [hshort, hlong, lineEnd_within (h.skip n) e hne]
    cases hend : lineEnd (c.skip n) with
    | error fault => exact Or.inl ⟨fault, rfl⟩
    | ok d =>
        rcases exists_skip_of_lineEnd hend with ⟨k, hk, rfl⟩
        rw [rest_skip, List.length_drop] at hk
        rw [← skip_add]
        exact Or.inr (Or.inl ⟨n + k, by omega, rfl, rfl⟩)
  · have hnil : (c.skip c.rest.length).rest = [] := by rw [rest_skip, List.drop_length]
    rw [hshort, hlong, lineEnd_of_nil hnil]
    cases hend : lineEnd ((c.within e).skip m) with
    | error fault => exact Or.inl ⟨fault, rfl⟩
    | ok d =>
        rcases exists_skip_of_lineEnd hend with ⟨k, _, rfl⟩
        rw [← skip_add]
        exact Or.inr (Or.inr ⟨rfl, m + k, by omega, rfl⟩)

end Yaml
end TrafficGraph

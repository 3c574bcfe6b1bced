import Mathlib.Data.List.Forall2
import TrafficGraph.Policy.Basic

/-!
# Equality of values is an equivalence

Scalars are the same if they are worth the same.  Lists and pairs are compared
part by part, maps and sets without regard to order, so maps and sets are compared
in earnest only if no key and no item is there twice.  On such values the equality
of the program is reflexive, symmetric and transitive, and so it is on ports.
-/

namespace TrafficGraph

/-!
# What scalars are worth
-/

/-- What a number is worth, whatever it is written as. -/
inductive Magnitude where
  | ratio (q : Rat)
  | infinite (negative : Bool)
  | notANumber

def Magnitude.whole (n : Int) : Magnitude := .ratio n

theorem Magnitude.whole_inj {m n : Int} : whole m = whole n ↔ m = n := by
  simp [whole]

inductive Worth where
  | null
  | number (magnitude : Magnitude)
  | text (s : String)
  | octets (bytes : List UInt8)
  | date (d : Date)
  | moment (known : Bool) (instant : Int)
  | loop (ofMap : Bool)

namespace Binary64

def magnitude : Binary64 → Magnitude
  | .nan => .notANumber
  | .infinite negative => .infinite negative
  | .finite negative m e =>
    .ratio (mkRat (if negative then -((scale m 1 e).1 : Int) else (scale m 1 e).1) (scale m 1 e).2)

theorem scale_den_ne_zero (m : Nat) (e : Int) : (scale m 1 e).2 ≠ 0 := by
  cases e with
  | ofNat n => exact Nat.one_ne_zero
  | negSucc n => simp [scale]

theorem same_iff (x y : Binary64) : x.same y = true ↔ x.magnitude = y.magnitude := by
  cases x <;> cases y <;>
    simp [same, magnitude, toRatio?,
      Rat.mkRat_eq_iff (scale_den_ne_zero _ _) (scale_den_ne_zero _ _)]

theorem sameInt_iff (x : Binary64) (n : Int) :
    x.sameInt n = true ↔ x.magnitude = .whole n := by
  have hwhole : Magnitude.whole n = .ratio (mkRat n 1) := by
    rw [Magnitude.whole, Rat.mkRat_one]
  cases x with
  | nan => simp [sameInt, magnitude, toRatio?, Magnitude.whole]
  | infinite negative => simp [sameInt, magnitude, toRatio?, Magnitude.whole]
  | finite negative m e =>
      simp [sameInt, magnitude, toRatio?, hwhole,
        Rat.mkRat_eq_iff (scale_den_ne_zero m e) Nat.one_ne_zero]

end Binary64

namespace Value

def worth? : Value → Option Worth
  | .null => some .null
  | .bool b => some (.number (.whole (if b then 1 else 0)))
  | .int n => some (.number (.whole n))
  | .float x => some (.number x.magnitude)
  | .text s => some (.text s)
  | .bytes bs => some (.octets bs)
  | .date d => some (.date d)
  | .moment m => some (.moment m.offset.isSome m.instant)
  | .loop ofMap => some (.loop ofMap)
  | .list _ => none
  | .map _ => none
  | .set _ => none
  | .pair _ _ => none

theorem sameScalar_iff (a b : Value) :
    a.sameScalar b = true ↔ ∃ w, a.worth? = some w ∧ b.worth? = some w := by
  rw [exists_congr fun w => and_comm]
  cases a <;> cases b <;>
    simp [sameScalar, worth?, asInt?, Binary64.same_iff, Binary64.sameInt_iff, Moment.same,
      Magnitude.whole_inj]
  all_goals exact eq_comm

/-!
# Well-formed values
-/

/-- Whether no map of a value has a key twice and no set has an item twice. -/
inductive WellFormed : Value → Prop where
  | scalar {v : Value} {w : Worth} (h : v.worth? = some w) : WellFormed v
  | list {items : List Value} (h : ∀ v ∈ items, WellFormed v) : WellFormed (.list items)
  | map {entries : List (Value × Value)}
      (hkeys : ∀ entry ∈ entries, WellFormed entry.1)
      (hvalues : ∀ entry ∈ entries, WellFormed entry.2)
      (hdistinct : entries.Pairwise fun a b => a.1.same b.1 = false) : WellFormed (.map entries)
  | set {items : List Value} (h : ∀ v ∈ items, WellFormed v)
      (hdistinct : items.Pairwise fun a b => a.same b = false) : WellFormed (.set items)
  | pair {first second : Value} (hfirst : WellFormed first) (hsecond : WellFormed second) :
      WellFormed (.pair first second)

/-!
# One step of a comparison
-/

theorem sameItems_iff (xs ys : List Value) :
    sameItems xs ys = true ↔ List.Forall₂ (fun x y => x.same y = true) xs ys := by
  induction xs generalizing ys with
  | nil => cases ys <;> simp [sameItems]
  | cons x rest ih =>
      cases ys with
      | nil => simp [sameItems]
      | cons y more => simp [sameItems, ih]

theorem sameEntries_iff (xs ys : List (Value × Value)) :
    sameEntries xs ys = true ↔
      ∀ entry ∈ xs, ∃ other, ys.find? (fun e => entry.1.same e.1) = some other ∧
        entry.2.same other.2 = true := by
  induction xs with
  | nil => simp [sameEntries]
  | cons entry rest ih =>
      rcases entry with ⟨k, v⟩
      rw [sameEntries, Bool.and_eq_true, ih, List.forall_mem_cons]
      apply and_congr_left
      intro _
      cases ys.find? fun e => k.same e.1 <;> simp

theorem allWithin_iff (xs ys : List Value) :
    allWithin xs ys = true ↔ ∀ x ∈ xs, ∃ y ∈ ys, x.same y = true := by
  induction xs with
  | nil => simp [allWithin]
  | cons x rest ih => simp [allWithin, ih]

/-- What it takes for two values to be the same, in terms of their parts. -/
inductive SameParts : Value → Value → Prop where
  | scalar {a b : Value} {w : Worth} (ha : a.worth? = some w) (hb : b.worth? = some w) :
      SameParts a b
  | list {xs ys : List Value} (h : List.Forall₂ (fun x y => x.same y = true) xs ys) :
      SameParts (.list xs) (.list ys)
  | map {xs ys : List (Value × Value)} (hlength : xs.length = ys.length)
      (h : ∀ entry ∈ xs, ∃ other, ys.find? (fun e => entry.1.same e.1) = some other ∧
        entry.2.same other.2 = true) : SameParts (.map xs) (.map ys)
  | set {xs ys : List Value} (hlength : xs.length = ys.length)
      (h : ∀ x ∈ xs, ∃ y ∈ ys, x.same y = true) : SameParts (.set xs) (.set ys)
  | pair {a b c d : Value} (hfirst : a.same c = true) (hsecond : b.same d = true) :
      SameParts (.pair a b) (.pair c d)

theorem same_iff_sameParts (a b : Value) : a.same b = true ↔ SameParts a b := by
  constructor
  · intro h
    unfold same at h
    split at h
    · exact .list ((sameItems_iff _ _).mp h)
    · rw [Bool.and_eq_true, beq_iff_eq] at h
      exact .map h.1 ((sameEntries_iff _ _).mp h.2)
    · rw [Bool.and_eq_true, beq_iff_eq] at h
      exact .set h.1 ((allWithin_iff _ _).mp h.2)
    · rw [Bool.and_eq_true] at h
      exact .pair h.1 h.2
    · rcases (sameScalar_iff _ _).mp h with ⟨w, ha, hb⟩
      exact .scalar ha hb
  · intro h
    cases h with
    | scalar ha hb =>
        have hscalar := (sameScalar_iff a b).mpr ⟨_, ha, hb⟩
        cases a <;> first | exact hscalar | cases ha
    | list h => exact (sameItems_iff _ _).mpr h
    | map hlength h =>
        rw [same, Bool.and_eq_true, beq_iff_eq]
        exact ⟨hlength, (sameEntries_iff _ _).mpr h⟩
    | set hlength h =>
        rw [same, Bool.and_eq_true, beq_iff_eq]
        exact ⟨hlength, (allWithin_iff _ _).mpr h⟩
    | pair hfirst hsecond =>
        rw [same, Bool.and_eq_true]
        exact ⟨hfirst, hsecond⟩

/-!
# Collections

Where each member of one list has a partner in another one of its length, and no
two members have one partner, every member of the other list is a partner.
-/

theorem exists_partner {α β : Type} {R : α → β → Prop} {xs : List α} {ys : List β}
    (hlength : xs.length = ys.length) (hpartner : ∀ x ∈ xs, ∃ y ∈ ys, R x y)
    (hapart : xs.Pairwise fun x x' => ∀ y, R x y -> ¬ R x' y) :
    ∀ y ∈ ys, ∃ x ∈ xs, R x y := by
  induction xs generalizing ys with
  | nil =>
      intro y hy
      rw [List.eq_nil_of_length_eq_zero hlength.symm] at hy
      cases hy
  | cons x rest ih =>
      rw [List.pairwise_cons] at hapart
      rcases hpartner x List.mem_cons_self with ⟨z, hz, hxz⟩
      rcases List.append_of_mem hz with ⟨front, back, rfl⟩
      have hrest : ∀ x' ∈ rest, ∃ y ∈ front ++ back, R x' y := by
        intro x' hx'
        rcases hpartner x' (List.mem_cons_of_mem x hx') with ⟨y, hy, hx'y⟩
        refine ⟨y, ?_, hx'y⟩
        rw [List.mem_append, List.mem_cons] at hy
        rcases hy with hy | rfl | hy
        · exact List.mem_append_left back hy
        · exact absurd hx'y (hapart.1 x' hx' y hxz)
        · exact List.mem_append_right front hy
      have hlengths : rest.length = (front ++ back).length := by
        simp only [List.length_cons, List.length_append] at hlength ⊢
        omega
      intro y hy
      by_cases hyz : y ∈ front ++ back
      · rcases ih hlengths hrest hapart.2 y hyz with ⟨x', hx', hx'y⟩
        exact ⟨x', List.mem_cons_of_mem x hx', hx'y⟩
      · refine ⟨x, List.mem_cons_self, ?_⟩
        have heq : y = z := by
          simp only [List.mem_append, List.mem_cons] at hy hyz
          tauto
        rw [heq]
        exact hxz

theorem forall₂_symm_of_mem {α : Type} {R : α → α → Prop} {xs ys : List α}
    (h : List.Forall₂ R xs ys) (hsymm : ∀ x ∈ xs, ∀ y ∈ ys, R x y -> R y x) :
    List.Forall₂ R ys xs := by
  induction h with
  | nil => exact .nil
  | cons hxy _ ih =>
      refine .cons (hsymm _ List.mem_cons_self _ List.mem_cons_self hxy) (ih ?_)
      intro x hx y hy
      exact hsymm x (List.mem_cons_of_mem _ hx) y (List.mem_cons_of_mem _ hy)

theorem forall₂_trans_of_mem {α : Type} {R : α → α → Prop} {xs ys zs : List α}
    (hxy : List.Forall₂ R xs ys) (hyz : List.Forall₂ R ys zs)
    (htrans : ∀ x ∈ xs, ∀ y ∈ ys, ∀ z ∈ zs, R x y -> R y z -> R x z) :
    List.Forall₂ R xs zs := by
  induction hxy generalizing zs with
  | nil => exact hyz
  | cons hfirst _ ih =>
      cases hyz with
      | cons hsecond hrest =>
          refine .cons (htrans _ List.mem_cons_self _ List.mem_cons_self _ List.mem_cons_self
            hfirst hsecond) (ih hrest ?_)
          intro x hx y hy z hz
          exact htrans x (List.mem_cons_of_mem _ hx) y (List.mem_cons_of_mem _ hy) z
            (List.mem_cons_of_mem _ hz)

/-!
# The equivalence

The induction is on the size of values, since the keys of three maps take part in
one comparison.
-/

/-- Whether a value is well formed and below a size. -/
def Fits (n : Nat) (v : Value) : Prop := v.WellFormed ∧ sizeOf v < n

structure EquivalentBelow (n : Nat) : Prop where
  refl : ∀ a, Fits n a -> a.same a = true
  symm : ∀ a b, Fits n a -> Fits n b -> a.same b = true -> b.same a = true
  trans : ∀ a b c, Fits n a -> Fits n b -> Fits n c ->
    a.same b = true -> b.same c = true -> a.same c = true

namespace Fits

variable {n : Nat}

theorem of_list {items : List Value} (h : Fits (n + 1) (.list items)) :
    ∀ v ∈ items, Fits n v := by
  rcases h with ⟨hformed, hsize⟩
  intro v hv
  have hmem := List.sizeOf_lt_of_mem hv
  rw [Value.list.sizeOf_spec] at hsize
  cases hformed with
  | scalar hworth => cases hworth
  | list hitems => exact ⟨hitems v hv, by omega⟩

theorem of_map {entries : List (Value × Value)} (h : Fits (n + 1) (.map entries)) :
    (∀ entry ∈ entries, Fits n entry.1 ∧ Fits n entry.2) ∧
      entries.Pairwise fun a b => a.1.same b.1 = false := by
  rcases h with ⟨hformed, hsize⟩
  rw [Value.map.sizeOf_spec] at hsize
  cases hformed with
  | scalar hworth => cases hworth
  | map hkeys hvalues hdistinct =>
      refine ⟨?_, hdistinct⟩
      intro entry hentry
      have hmem := List.sizeOf_lt_of_mem hentry
      have hparts : sizeOf entry = 1 + sizeOf entry.1 + sizeOf entry.2 := rfl
      exact ⟨⟨hkeys entry hentry, by omega⟩, ⟨hvalues entry hentry, by omega⟩⟩

theorem of_set {items : List Value} (h : Fits (n + 1) (.set items)) :
    (∀ v ∈ items, Fits n v) ∧ items.Pairwise fun a b => a.same b = false := by
  rcases h with ⟨hformed, hsize⟩
  rw [Value.set.sizeOf_spec] at hsize
  cases hformed with
  | scalar hworth => cases hworth
  | set hitems hdistinct =>
      refine ⟨?_, hdistinct⟩
      intro v hv
      have hmem := List.sizeOf_lt_of_mem hv
      exact ⟨hitems v hv, by omega⟩

theorem of_pair {first second : Value} (h : Fits (n + 1) (.pair first second)) :
    Fits n first ∧ Fits n second := by
  rcases h with ⟨hformed, hsize⟩
  rw [Value.pair.sizeOf_spec] at hsize
  cases hformed with
  | scalar hworth => cases hworth
  | pair hfirst hsecond => exact ⟨⟨hfirst, by omega⟩, ⟨hsecond, by omega⟩⟩

end Fits

namespace EquivalentBelow

variable {n : Nat} (hn : EquivalentBelow n)

include hn

theorem find?_eq_some {entries : List (Value × Value)} (hmap : Fits (n + 1) (.map entries))
    {key : Value} (hkey : Fits n key) {entry : Value × Value} (hentry : entry ∈ entries)
    (hsame : key.same entry.1 = true) :
    entries.find? (fun e => key.same e.1) = some entry := by
  rcases hmap.of_map with ⟨hparts, hdistinct⟩
  rcases List.append_of_mem hentry with ⟨front, back, rfl⟩
  rw [List.pairwise_append] at hdistinct
  -- an entry in front with the key would have the key of the entry itself
  have hfront : front.find? (fun e => key.same e.1) = none := by
    rw [List.find?_eq_none]
    intro other hother hkeyOther
    have hotherKey : Fits n other.1 := (hparts other (List.mem_append_left _ hother)).1
    have hback : other.1.same key = true := hn.symm key other.1 hkey hotherKey hkeyOther
    have hkeys : other.1.same entry.1 = true :=
      hn.trans other.1 key entry.1 hotherKey hkey (hparts entry hentry).1 hback hsame
    rw [hdistinct.2.2 other hother entry List.mem_cons_self] at hkeys
    cases hkeys
  rw [List.find?_append, hfront, Option.none_or]
  exact List.find?_cons_of_pos hsame

/-- Where keys tell the members of a list apart and each of them has a partner in a
list of the same length, the other list has partners in this one. -/
theorem exists_partner_back {α : Type} (key : α → Value) {R : α → α → Prop} {xs ys : List α}
    (hxs : ∀ x ∈ xs, Fits n (key x)) (hys : ∀ y ∈ ys, Fits n (key y))
    (hlength : xs.length = ys.length)
    (hdistinct : xs.Pairwise fun x x' => (key x).same (key x') = false)
    (hpartner : ∀ x ∈ xs, ∃ y ∈ ys, (key x).same (key y) = true ∧ R x y) :
    ∀ y ∈ ys, ∃ x ∈ xs, (key y).same (key x) = true ∧ R x y := by
  have hmem : ∀ x ∈ xs, ∃ y ∈ ys, y ∈ ys ∧ (key x).same (key y) = true ∧ R x y := by
    intro x hx
    rcases hpartner x hx with ⟨y, hy, hxy⟩
    exact ⟨y, hy, hy, hxy⟩
  have hapart : xs.Pairwise fun x x' => ∀ y, y ∈ ys ∧ (key x).same (key y) = true ∧ R x y ->
      ¬ (y ∈ ys ∧ (key x').same (key y) = true ∧ R x' y) := by
    apply hdistinct.imp_of_mem
    rintro x x' hx hx' hne y ⟨hy, hxy, _⟩ ⟨_, hx'y, _⟩
    have hback : (key y).same (key x') = true :=
      hn.symm (key x') (key y) (hxs x' hx') (hys y hy) hx'y
    have hsame : (key x).same (key x') = true :=
      hn.trans (key x) (key y) (key x') (hxs x hx) (hys y hy) (hxs x' hx') hxy hback
    rw [hne] at hsame
    cases hsame
  intro y hy
  rcases exists_partner hlength hmem hapart y hy with ⟨x, hx, _, hxy, hR⟩
  exact ⟨x, hx, hn.symm (key x) (key y) (hxs x hx) (hys y hy) hxy, hR⟩

theorem refl_succ {a : Value} (ha : Fits (n + 1) a) : a.same a = true := by
  rw [same_iff_sameParts]
  cases a with
  | list items =>
      refine .list (List.forall₂_same.mpr ?_)
      intro v hv
      exact hn.refl v (ha.of_list v hv)
  | map entries =>
      refine .map rfl ?_
      intro entry hentry
      rcases ha.of_map.1 entry hentry with ⟨hkey, hvalue⟩
      exact ⟨entry, hn.find?_eq_some ha hkey hentry (hn.refl entry.1 hkey),
        hn.refl entry.2 hvalue⟩
  | set items =>
      refine .set rfl ?_
      intro v hv
      exact ⟨v, hv, hn.refl v (ha.of_set.1 v hv)⟩
  | pair first second =>
      exact .pair (hn.refl first ha.of_pair.1) (hn.refl second ha.of_pair.2)
  | _ => exact .scalar rfl rfl

theorem symm_succ {a b : Value} (ha : Fits (n + 1) a) (hb : Fits (n + 1) b)
    (h : SameParts a b) : SameParts b a := by
  cases h with
  | scalar hworth hworth' => exact .scalar hworth' hworth
  | @list xs ys hitems =>
      refine .list (forall₂_symm_of_mem hitems ?_)
      intro x hx y hy
      exact hn.symm x y (ha.of_list x hx) (hb.of_list y hy)
  | @map xs ys hlength hentries =>
      rcases ha.of_map with ⟨hxs, hdistinct⟩
      rcases hb.of_map with ⟨hys, _⟩
      have hpartner : ∀ x ∈ xs, ∃ y ∈ ys, x.1.same y.1 = true ∧ x.2.same y.2 = true := by
        intro x hx
        rcases hentries x hx with ⟨y, hfind, hvalue⟩
        have hkey := List.find?_some hfind
        exact ⟨y, List.mem_of_find?_eq_some hfind, hkey, hvalue⟩
      refine .map hlength.symm ?_
      intro y hy
      rcases hn.exists_partner_back Prod.fst (fun x hx => (hxs x hx).1) (fun y hy => (hys y hy).1)
        hlength hdistinct hpartner y hy with ⟨x, hx, hkey, hvalue⟩
      exact ⟨x, hn.find?_eq_some ha (hys y hy).1 hx hkey,
        hn.symm x.2 y.2 (hxs x hx).2 (hys y hy).2 hvalue⟩
  | @set xs ys hlength hitems =>
      rcases ha.of_set with ⟨hxs, hdistinct⟩
      have hpartner : ∀ x ∈ xs, ∃ y ∈ ys, x.same y = true ∧ True := by
        intro x hx
        rcases hitems x hx with ⟨y, hy, hxy⟩
        exact ⟨y, hy, hxy, trivial⟩
      refine .set hlength.symm ?_
      intro y hy
      rcases hn.exists_partner_back (fun v => v) hxs hb.of_set.1 hlength hdistinct hpartner y hy
        with ⟨x, hx, hyx, _⟩
      exact ⟨x, hx, hyx⟩
  | @pair first second first' second' hfirst hsecond =>
      refine .pair ?_ ?_
      · exact hn.symm first first' ha.of_pair.1 hb.of_pair.1 hfirst
      · exact hn.symm second second' ha.of_pair.2 hb.of_pair.2 hsecond

theorem trans_succ {a b c : Value} (ha : Fits (n + 1) a) (hb : Fits (n + 1) b)
    (hc : Fits (n + 1) c) (hab : SameParts a b) (hbc : SameParts b c) : SameParts a c := by
  cases hab with
  | @scalar _ _ w haWorth hbWorth =>
      cases hbc with
      | @scalar _ _ w' hbWorth' hcWorth =>
          have hworth : w' = w := Option.some.inj (hbWorth'.symm.trans hbWorth)
          exact .scalar haWorth (hworth ▸ hcWorth)
      | _ => cases hbWorth
  | @list xs ys hitems =>
      cases hbc with
      | scalar hworth _ => cases hworth
      | @list _ zs hitems' =>
          refine .list (forall₂_trans_of_mem hitems hitems' ?_)
          intro x hx y hy z hz
          exact hn.trans x y z (ha.of_list x hx) (hb.of_list y hy) (hc.of_list z hz)
  | @map xs ys hlength hentries =>
      cases hbc with
      | scalar hworth _ => cases hworth
      | @map _ zs hlength' hentries' =>
          refine .map (hlength.trans hlength') ?_
          intro x hx
          rcases hentries x hx with ⟨y, hfind, hvalue⟩
          have hy : y ∈ ys := List.mem_of_find?_eq_some hfind
          rcases hentries' y hy with ⟨z, hfind', hvalue'⟩
          have hz : z ∈ zs := List.mem_of_find?_eq_some hfind'
          rcases ha.of_map.1 x hx with ⟨hxKey, hxValue⟩
          rcases hb.of_map.1 y hy with ⟨hyKey, hyValue⟩
          rcases hc.of_map.1 z hz with ⟨hzKey, hzValue⟩
          have hkey := List.find?_some hfind
          have hkey' := List.find?_some hfind'
          exact ⟨z,
            hn.find?_eq_some hc hxKey hz (hn.trans x.1 y.1 z.1 hxKey hyKey hzKey hkey hkey'),
            hn.trans x.2 y.2 z.2 hxValue hyValue hzValue hvalue hvalue'⟩
  | @set xs ys hlength hitems =>
      cases hbc with
      | scalar hworth _ => cases hworth
      | @set _ zs hlength' hitems' =>
          refine .set (hlength.trans hlength') ?_
          intro x hx
          rcases hitems x hx with ⟨y, hy, hxy⟩
          rcases hitems' y hy with ⟨z, hz, hyz⟩
          exact ⟨z, hz,
            hn.trans x y z (ha.of_set.1 x hx) (hb.of_set.1 y hy) (hc.of_set.1 z hz) hxy hyz⟩
  | @pair first second first' second' hfirst hsecond =>
      cases hbc with
      | scalar hworth _ => cases hworth
      | @pair _ _ third fourth hfirst' hsecond' =>
          rcases ha.of_pair with ⟨haFirst, haSecond⟩
          rcases hb.of_pair with ⟨hbFirst, hbSecond⟩
          rcases hc.of_pair with ⟨hcFirst, hcSecond⟩
          exact .pair (hn.trans first first' third haFirst hbFirst hcFirst hfirst hfirst')
            (hn.trans second second' fourth haSecond hbSecond hcSecond hsecond hsecond')

end EquivalentBelow

theorem equivalentBelow (n : Nat) : EquivalentBelow n := by
  induction n with
  | zero =>
      have hnone : ∀ v, ¬ Fits 0 v := fun _ hv => Nat.not_lt_zero _ hv.2
      exact ⟨fun a ha => absurd ha (hnone a), fun a _ ha => absurd ha (hnone a),
        fun a _ _ ha => absurd ha (hnone a)⟩
  | succ n ih =>
      constructor
      · intro a ha
        exact ih.refl_succ ha
      · intro a b ha hb
        rw [same_iff_sameParts, same_iff_sameParts]
        exact ih.symm_succ ha hb
      · intro a b c ha hb hc
        rw [same_iff_sameParts, same_iff_sameParts, same_iff_sameParts]
        exact ih.trans_succ ha hb hc

theorem same_refl {a : Value} (h : a.WellFormed) : a.same a = true :=
  (equivalentBelow (sizeOf a + 1)).refl a ⟨h, by omega⟩

theorem same_symm {a b : Value} (ha : a.WellFormed) (hb : b.WellFormed) (h : a.same b = true) :
    b.same a = true :=
  (equivalentBelow (sizeOf a + sizeOf b + 1)).symm a b ⟨ha, by omega⟩ ⟨hb, by omega⟩ h

theorem same_trans {a b c : Value} (ha : a.WellFormed) (hb : b.WellFormed) (hc : c.WellFormed)
    (hab : a.same b = true) (hbc : b.same c = true) : a.same c = true :=
  (equivalentBelow (sizeOf a + sizeOf b + sizeOf c + 1)).trans a b c ⟨ha, by omega⟩
    ⟨hb, by omega⟩ ⟨hc, by omega⟩ hab hbc

end Value

/-!
# Ports
-/

def Port.WellFormed (p : Port) : Prop :=
  p.port.WellFormed ∧ p.endPort.WellFormed ∧ p.protocol.WellFormed

namespace Port

theorem same_refl {p : Port} (h : p.WellFormed) : p.same p = true := by
  rcases h with ⟨hport, hend, hprotocol⟩
  simp [same, Value.same_refl hport, Value.same_refl hend, Value.same_refl hprotocol]

theorem same_symm {p q : Port} (hp : p.WellFormed) (hq : q.WellFormed) (h : p.same q = true) :
    q.same p = true := by
  simp only [same, Bool.and_eq_true] at h ⊢
  rcases h with ⟨⟨hport, hend⟩, hprotocol⟩
  refine ⟨⟨?_, ?_⟩, ?_⟩
  · exact Value.same_symm hp.1 hq.1 hport
  · exact Value.same_symm hp.2.1 hq.2.1 hend
  · exact Value.same_symm hp.2.2 hq.2.2 hprotocol

theorem same_trans {p q r : Port} (hp : p.WellFormed) (hq : q.WellFormed) (hr : r.WellFormed)
    (hpq : p.same q = true) (hqr : q.same r = true) : p.same r = true := by
  simp only [same, Bool.and_eq_true] at hpq hqr ⊢
  rcases hpq with ⟨⟨hport, hend⟩, hprotocol⟩
  rcases hqr with ⟨⟨hport', hend'⟩, hprotocol'⟩
  refine ⟨⟨?_, ?_⟩, ?_⟩
  · exact Value.same_trans hp.1 hq.1 hr.1 hport hport'
  · exact Value.same_trans hp.2.1 hq.2.1 hr.2.1 hend hend'
  · exact Value.same_trans hp.2.2 hq.2.2 hr.2.2 hprotocol hprotocol'

end Port

namespace Ports

def WellFormed : Ports → Prop
  | .listed ports => ∀ p ∈ ports, p.WellFormed
  | _ => True

theorem sameList_iff (ps qs : List Port) :
    sameList ps qs = true ↔ List.Forall₂ (fun p q => p.same q = true) ps qs := by
  induction ps generalizing qs with
  | nil => cases qs <;> simp [sameList]
  | cons p rest ih =>
      cases qs with
      | nil => simp [sameList]
      | cons q more => simp [sameList, ih]

theorem same_refl {ports : Ports} (h : ports.WellFormed) : ports.same ports = true := by
  cases ports with
  | listed ps =>
      refine (sameList_iff ps ps).mpr (List.forall₂_same.mpr ?_)
      intro p hp
      exact Port.same_refl (h p hp)
  | word text => exact beq_self_eq_true text
  | all => rfl
  | unset => rfl

theorem same_symm {a b : Ports} (ha : a.WellFormed) (hb : b.WellFormed) (h : a.same b = true) :
    b.same a = true := by
  cases a with
  | listed ps =>
      cases b with
      | listed qs =>
          refine (sameList_iff qs ps).mpr (Value.forall₂_symm_of_mem ((sameList_iff ps qs).mp h) ?_)
          intro p hp q hq
          exact Port.same_symm (ha p hp) (hb q hq)
      | _ => cases h
  | word text =>
      cases b with
      | word other => exact (BEq.comm (a := other)).trans h
      | _ => cases h
  | all =>
      cases b with
      | all => rfl
      | _ => cases h
  | unset =>
      cases b with
      | unset => rfl
      | _ => cases h

theorem same_trans {a b c : Ports} (ha : a.WellFormed) (hb : b.WellFormed) (hc : c.WellFormed)
    (hab : a.same b = true) (hbc : b.same c = true) : a.same c = true := by
  cases a with
  | listed ps =>
      cases b with
      | listed qs =>
          cases c with
          | listed rs =>
              refine (sameList_iff ps rs).mpr (Value.forall₂_trans_of_mem
                ((sameList_iff ps qs).mp hab) ((sameList_iff qs rs).mp hbc) ?_)
              intro p hp q hq r hr
              exact Port.same_trans (ha p hp) (hb q hq) (hc r hr)
          | _ => cases hbc
      | _ => cases hab
  | word text =>
      cases b with
      | word other =>
          rw [eq_of_beq (show (text == other) = true from hab)]
          exact hbc
      | _ => cases hab
  | all =>
      cases b with
      | all => exact hbc
      | _ => cases hab
  | unset =>
      cases b with
      | unset => exact hbc
      | _ => cases hab

end Ports
end TrafficGraph

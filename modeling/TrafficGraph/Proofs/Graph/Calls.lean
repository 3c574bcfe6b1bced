import TrafficGraph.Proofs.Graph.Merging

/-!
# Calls to a book

A book that shares links is called for one link after another, in any order.  The first
call for an identity takes a new slot, the later ones are merged into the link in that slot,
and those for other identities leave it alone.  So each link tells of all calls for it.
-/

namespace TrafficGraph

/-!
# Books under calls
-/

theorem Registry.slot?_list (r : Registry) (id : String) (slot : Nat) (other : String) :
    (r.list id slot).slot? other = if other = id then some slot else r.slot? other := by
  unfold slot? list
  generalize r.index = index
  induction index with
  | nil =>
      by_cases hother : other = id
      · simp [setSlot, hother]
      · simp [setSlot, hother, Ne.symm hother]
  | cons entry rest ih =>
      rcases entry with ⟨first, old⟩
      by_cases hfirst : first = id
      · subst hfirst
        by_cases hother : other = first
        · simp [setSlot, hother]
        · simp [setSlot, hother, Ne.symm hother]
      · by_cases hother : first = other
        · subst hother
          simp [setSlot, hfirst]
        · simp only [setSlot, if_neg hfirst, List.find?_cons, beq_eq_false_iff_ne.mpr hother]
          exact ih

namespace LinkBook

/-- Whether a book shares links, and its identities have slots of the pool, each its own. -/
structure Indexed (book : LinkBook) : Prop where
  shares : book.registry.deduplicate = true
  bounded : ∀ id slot, book.registry.slot? id = some slot -> slot < book.pool.length
  apart : ∀ id other slot, book.registry.slot? id = some slot ->
    book.registry.slot? other = some slot -> id = other

/-- Whether a book lists a link under an identity. -/
def Holds (book : LinkBook) (id : String) (link : Link) : Prop :=
  ∃ slot, book.registry.slot? id = some slot ∧ slot ∈ book.registry.order ∧
    book.pool[slot]? = some link

def call (book : LinkBook) (c : LinkCall) : LinkBook := (book.add c.link c.policy).2

def run (book : LinkBook) (calls : List LinkCall) : LinkBook := calls.foldl call book

theorem indexed_empty : (LinkBook.empty true).Indexed :=
  { shares := rfl
    bounded := fun _ _ h => by cases h
    apart := fun _ _ _ h => by cases h }

namespace Indexed

variable {book : LinkBook} (h : book.Indexed)

include h

theorem call_of_slot {c : LinkCall} {slot : Nat} (hslot : book.registry.slot? c.id = some slot) :
    book.call c =
      { book with pool := book.pool.modify slot fun old => old.merge c.policy c.ports } := by
  have hid : book.idOf c.source c.target c.direction c.policy = c.id := by
    rw [idOf, h.shares, LinkCall.id]
  have hmerge : book.mergeSlot? c.id = some slot := by
    rw [mergeSlot?, h.shares, if_pos rfl, hslot]
  unfold call add
  simp only [LinkCall.link, Link.ofRule, hid, hmerge]

theorem call_of_free {c : LinkCall} (hslot : book.registry.slot? c.id = none) :
    book.call c = book.append c.id c.link := by
  have hid : book.idOf c.source c.target c.direction c.policy = c.id := by
    rw [idOf, h.shares, LinkCall.id]
  have hmerge : book.mergeSlot? c.id = none := by
    rw [mergeSlot?, h.shares, if_pos rfl, hslot]
  unfold call add
  simp only [LinkCall.link, Link.ofRule, hid, hmerge]

theorem append (id : String) (link : Link) : (book.append id link).Indexed := by
  refine { shares := h.shares, bounded := ?_, apart := ?_ }
  · intro other slot hother
    rw [LinkBook.append, Registry.slot?_list] at hother
    rw [LinkBook.append, List.length_append]
    split at hother
    · cases hother
      exact Nat.lt_succ_self _
    · exact Nat.lt_succ_of_lt (h.bounded other slot hother)
  · intro one other slot hone hother
    rw [LinkBook.append, Registry.slot?_list] at hone hother
    -- the new slot lies behind all slots that are taken
    split at hone
    · rename_i hid
      split at hother
      · rename_i hid'
        rw [hid, hid']
      · cases hone
        exact absurd (h.bounded other _ hother) (Nat.lt_irrefl _)
    · split at hother
      · cases hother
        exact absurd (h.bounded one _ hone) (Nat.lt_irrefl _)
      · exact h.apart one other slot hone hother

theorem register (id : String) (link : Link) : (book.register id link).2.Indexed := by
  unfold LinkBook.register
  split
  · exact h
  · exact h.append id link

theorem call (c : LinkCall) : (book.call c).Indexed := by
  cases hslot : book.registry.slot? c.id with
  | some slot =>
      rw [h.call_of_slot hslot]
      refine { shares := h.shares, bounded := ?_, apart := h.apart }
      intro id other hother
      rw [List.length_modify]
      exact h.bounded id other hother
  | none =>
      rw [h.call_of_free hslot]
      exact h.append c.id c.link

theorem slot?_call_of_ne {c : LinkCall} {id : String} (hid : c.id ≠ id) :
    (book.call c).registry.slot? id = book.registry.slot? id := by
  cases hslot : book.registry.slot? c.id with
  | some slot => rw [h.call_of_slot hslot]
  | none => rw [h.call_of_free hslot, LinkBook.append, Registry.slot?_list, if_neg (Ne.symm hid)]

theorem holds_call_of_free {c : LinkCall} (hslot : book.registry.slot? c.id = none) :
    (book.call c).Holds c.id c.link := by
  rw [h.call_of_free hslot]
  refine ⟨book.pool.length, ?_, ?_, ?_⟩
  · rw [LinkBook.append, Registry.slot?_list, if_pos rfl]
  · exact List.mem_append_right _ (List.mem_singleton_self _)
  · rw [LinkBook.append, List.getElem?_concat_length]

theorem holds_call {c : LinkCall} {id : String} {link : Link} (hlink : book.Holds id link) :
    (book.call c).Holds id (if c.id = id then link.merge c.policy c.ports else link) := by
  rcases hlink with ⟨slot, hslot, horder, hpool⟩
  by_cases hid : c.id = id
  · subst hid
    rw [h.call_of_slot hslot, if_pos rfl]
    refine ⟨slot, hslot, horder, ?_⟩
    rw [List.getElem?_modify_eq, hpool]
    rfl
  · rw [if_neg hid]
    refine ⟨slot, by rw [h.slot?_call_of_ne hid, hslot], ?_⟩
    cases hother : book.registry.slot? c.id with
    | some other =>
        have hne : other ≠ slot := by
          rintro rfl
          exact hid (h.apart c.id id other hother hslot)
        rw [h.call_of_slot hother]
        refine ⟨horder, ?_⟩
        rw [List.getElem?_modify_ne _ _ hne, hpool]
    | none =>
        rw [h.call_of_free hother]
        refine ⟨List.mem_append_left _ horder, ?_⟩
        rw [LinkBook.append, List.getElem?_append_left (h.bounded id slot hslot), hpool]

end Indexed

theorem run_cons (book : LinkBook) (c : LinkCall) (calls : List LinkCall) :
    book.run (c :: calls) = (book.call c).run calls := rfl

/-- Calls of one identity are merged into its link, and the others leave it alone. -/
theorem Indexed.holds_run {book : LinkBook} (h : book.Indexed) {id : String} {link : Link}
    (hlink : book.Holds id link) (calls : List LinkCall) :
    (book.run calls).Holds id (link.mergeCalls (calls.filter fun c => c.id == id)) := by
  induction calls generalizing book link with
  | nil => exact hlink
  | cons c rest ih =>
      -- the link that is merged with the first call runs through the others
      have hstep := ih (h.call c) (h.holds_call (c := c) hlink)
      rw [run_cons]
      by_cases hid : c.id = id
      · rw [if_pos hid] at hstep
        rw [List.filter_cons_of_pos (by simpa using hid)]
        exact hstep
      · rw [if_neg hid] at hstep
        rw [List.filter_cons_of_neg (by simpa using hid)]
        exact hstep

/-- The first call of an identity that is free opens its link. -/
theorem Indexed.holds_run_of_free {book : LinkBook} (h : book.Indexed) {id : String}
    (hfree : book.registry.slot? id = none) {calls : List LinkCall} {first : LinkCall}
    {rest : List LinkCall} (hcalls : (calls.filter fun c => c.id == id) = first :: rest) :
    (book.run calls).Holds id (first.link.mergeCalls rest) := by
  induction calls generalizing book with
  | nil => cases hcalls
  | cons c others ih =>
      rw [run_cons]
      by_cases hid : c.id = id
      · subst hid
        rw [List.filter_cons_of_pos (by simp)] at hcalls
        cases hcalls
        exact (h.call first).holds_run (h.holds_call_of_free hfree) others
      · rw [List.filter_cons_of_neg (by simpa using hid)] at hcalls
        exact ih (h.call c) (by rw [h.slot?_call_of_ne hid, hfree]) hcalls

end LinkBook

/-!
# Runs of calls
-/

namespace LinkBook

theorem mem_links_of_holds {book : LinkBook} {id : String} {link : Link} (h : book.Holds id link) :
    link ∈ book.links := by
  rcases h with ⟨slot, _, horder, hpool⟩
  exact List.mem_filterMap.mpr ⟨slot, horder, hpool⟩

/-- Whatever a caller contributes to a book that shares links, in any order: under each
identity that was free there is one link then, and it tells all of its contributions. -/
theorem exists_link_retains_run (book : LinkBook) (h : book.Indexed) (calls : List LinkCall)
    (id : String) (hfree : book.registry.contains id = false) (first : LinkCall)
    (rest : List LinkCall) (hcalls : (calls.filter fun c => c.id == id) = first :: rest)
    (hports : ∀ c ∈ first :: rest, c.ports.WellFormed) :
    ∃ link, (book.run calls).Holds id link ∧ link ∈ (book.run calls).links ∧
      link.Retains first rest := by
  have hslot : book.registry.slot? id = none := by
    rw [Registry.contains, Option.isSome_eq_false_iff, Option.isNone_iff_eq_none] at hfree
    exact hfree
  have hholds := h.holds_run_of_free hslot hcalls
  exact ⟨_, hholds, mem_links_of_holds hholds, Link.retains_mergeCalls first rest hports⟩

/-- Two policies allow the same traffic, on several ports and not in turn, and one of them
other traffic in between. -/
theorem exists_link_retains_run_webCalls :
    let web (ports : Ports) (policy : String) : LinkCall :=
      ⟨"web", "db", .ingress, ports, policy, none⟩
    let port (n : Int) : Ports := .listed [⟨.int n, .null, .null⟩]
    let calls := [web .all "a", ⟨"db", "web", .egress, .all, "a", none⟩, web (port 80) "b",
      web (port 443) "a", web .all "b", web (port 80) "b"]
    (LinkBook.empty true).Indexed ∧
      (LinkBook.empty true).registry.contains (web .all "a").id = false ∧
      ∃ link ∈ ((LinkBook.empty true).run calls).links,
        link.policies = ["a", "b"] ∧
          link.breakdown = some [⟨"a", [.all, port 443]⟩, ⟨"b", [port 80]⟩] ∧
          link.breakdownText? = .ok (some "a: All ports; 443\nb: 80") := by
  intro web port calls
  have hcalls : (calls.filter fun c => c.id == (web .all "a").id) =
      web .all "a" :: [web (port 80) "b", web (port 443) "a", web .all "b", web (port 80) "b"] := rfl
  have hport : ∀ n, (port n).WellFormed := by
    intro n p hp
    rw [List.mem_singleton.mp hp]
    exact ⟨.scalar rfl, .scalar rfl, .scalar rfl⟩
  have hall : Ports.all.WellFormed := trivial
  rcases exists_link_retains_run (LinkBook.empty true) indexed_empty calls (web .all "a").id rfl
    (web .all "a") _ hcalls (by simp [web, hport, hall]) with ⟨link, _, hlink, hretains⟩
  have hsome : link.breakdown.isSome = true :=
    hretains.isSome_breakdown.mpr ⟨web (port 80) "b", List.mem_cons_self, rfl⟩
  rcases Option.isSome_iff_exists.mp hsome with ⟨contributions, hcontributions⟩
  have heq : contributions = [⟨"a", [.all, port 443]⟩, ⟨"b", [port 80]⟩] :=
    hretains.breakdown contributions hcontributions
  refine ⟨indexed_empty, rfl, link, hlink, hretains.policies, by rw [hcontributions, heq], ?_⟩
  rw [hretains.text contributions hcontributions (by simp [web, port, Ports.text?]), heq]
  rfl

end LinkBook

end TrafficGraph

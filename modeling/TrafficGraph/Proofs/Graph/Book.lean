import TrafficGraph.Graph.Registry

/-!
# Books of shared links

Where policies share links, a book is a list of identities, each once, with one
link for each.  This module relates the slots and the index of a book to that
list: contributing a link changes the link of its identity or adds one at the
end, and registering a link adds one at the end or does nothing.
-/

namespace TrafficGraph

def contributeEntry (id : String) (link : Link) (policy : String) :
    List (String × Link) → List (String × Link)
  | [] => [(id, link)]
  | (other, old) :: rest =>
    if other = id then (other, old.merge policy link.ports) :: rest
    else (other, old) :: contributeEntry id link policy rest

def registerEntry (entries : List (String × Link)) (entry : String × Link) :
    List (String × Link) :=
  if entry.1 ∈ entries.map Prod.fst then entries else entries ++ [entry]

def LinkBook.registerAll (book : LinkBook) (entries : List (String × Link)) : LinkBook :=
  entries.foldl (fun grown entry => (grown.register entry.1 entry.2).2) book

theorem LinkBook.registerAll_append (book : LinkBook) (front back : List (String × Link)) :
    book.registerAll (front ++ back) = (book.registerAll front).registerAll back :=
  List.foldl_append

/-!
# Lists of entries
-/

theorem keys_contributeEntry (id : String) (link : Link) (policy : String)
    (entries : List (String × Link)) :
    (contributeEntry id link policy entries).map Prod.fst =
      addName id (entries.map Prod.fst) := by
  induction entries with
  | nil => rfl
  | cons entry rest ih =>
      rcases entry with ⟨other, old⟩
      by_cases hother : other = id
      · subst hother
        simp [contributeEntry, addName]
      · rw [contributeEntry, if_neg hother, List.map_cons, ih, List.map_cons]
        unfold addName
        by_cases hmem : id ∈ rest.map Prod.fst
        · have hcons : id ∈ other :: rest.map Prod.fst := List.mem_cons_of_mem other hmem
          rw [if_pos (List.contains_iff_mem.mpr hmem), if_pos (List.contains_iff_mem.mpr hcons)]
        · have hcons : id ∉ other :: rest.map Prod.fst := by
            rw [List.mem_cons, not_or]
            exact ⟨fun h => hother h.symm, hmem⟩
          rw [if_neg (mt List.contains_iff_mem.mp hmem),
            if_neg (mt List.contains_iff_mem.mp hcons)]
          rfl

theorem contributeEntry_of_not_mem {id : String} {entries : List (String × Link)}
    (h : id ∉ entries.map Prod.fst) (link : Link) (policy : String) :
    contributeEntry id link policy entries = entries ++ [(id, link)] := by
  induction entries with
  | nil => rfl
  | cons entry rest ih =>
      rcases entry with ⟨other, old⟩
      rw [List.map_cons, List.mem_cons, not_or] at h
      rw [contributeEntry, if_neg fun hother => h.1 hother.symm, ih h.2]
      rfl

theorem contributeEntry_append_of_mem {id : String} {link old : Link} {policy : String}
    {front back : List (String × Link)} (h : id ∉ front.map Prod.fst) :
    contributeEntry id link policy (front ++ (id, old) :: back) =
      front ++ (id, old.merge policy link.ports) :: back := by
  induction front with
  | nil => simp [contributeEntry]
  | cons entry rest ih =>
      rcases entry with ⟨other, first⟩
      rw [List.map_cons, List.mem_cons, not_or] at h
      rw [List.cons_append, contributeEntry, if_neg fun hother => h.1 hother.symm, ih h.2]
      rfl

theorem exists_first_entry {id : String} {entries : List (String × Link)}
    (h : id ∈ entries.map Prod.fst) :
    ∃ front old back, entries = front ++ (id, old) :: back ∧ id ∉ front.map Prod.fst := by
  induction entries with
  | nil => cases h
  | cons entry rest ih =>
      rcases entry with ⟨other, old⟩
      by_cases hother : other = id
      · subst hother
        exact ⟨[], old, rest, rfl, List.not_mem_nil⟩
      · rw [List.map_cons, List.mem_cons] at h
        rcases h with h | h
        · exact absurd h.symm hother
        · rcases ih h with ⟨front, first, back, hrest, hfront⟩
          refine ⟨(other, old) :: front, first, back, by rw [hrest]; rfl, ?_⟩
          rw [List.map_cons, List.mem_cons, not_or]
          exact ⟨fun heq => hother heq.symm, hfront⟩

theorem filterMap_range_getElem? {α : Type} (xs : List α) :
    (List.range xs.length).filterMap (fun i => xs[i]?) = xs := by
  induction xs with
  | nil => rfl
  | cons x rest ih => simpa [List.range_succ_eq_map, List.filterMap_map, Function.comp_def] using ih

theorem modify_append_cons {α : Type} (f : α → α) (front : List α) (x : α) (back : List α) :
    (front ++ x :: back).modify front.length f = front ++ f x :: back := by
  induction front with
  | nil => rfl
  | cons y rest ih => simp [ih]

/-!
# Books as lists of entries
-/

/-- Whether a book that shares links lists some identities and their links. -/
structure LinkBook.Lists (book : LinkBook) (entries : List (String × Link)) : Prop where
  deduplicate : book.registry.deduplicate = true
  index : book.registry.index = (entries.map Prod.fst).zipIdx
  order : book.registry.order = List.range entries.length
  pool : book.pool = entries.map Prod.snd
  nodup : (entries.map Prod.fst).Nodup

namespace Registry

theorem setSlot_of_not_mem {id : String} {index : List (String × Nat)}
    (h : id ∉ index.map Prod.fst) (slot : Nat) :
    setSlot id slot index = index ++ [(id, slot)] := by
  induction index with
  | nil => rfl
  | cons entry rest ih =>
      rcases entry with ⟨other, old⟩
      rw [List.map_cons, List.mem_cons, not_or] at h
      rw [setSlot, if_neg fun hother => h.1 hother.symm, ih h.2]
      rfl

theorem find?_zipIdx_of_not_mem {id : String} {keys : List String} (h : id ∉ keys) (n : Nat) :
    (keys.zipIdx n).find? (fun entry => entry.1 == id) = none := by
  rw [List.find?_eq_none]
  intro entry hentry hid
  have hkey : entry.1 = id := eq_of_beq hid
  exact h (hkey ▸ List.fst_mem_of_mem_zipIdx hentry)

theorem find?_zipIdx_append_of_not_mem {id : String} {front back : List String}
    (h : id ∉ front) :
    ((front ++ id :: back).zipIdx).find? (fun entry => entry.1 == id) =
      some (id, front.length) := by
  rw [List.zipIdx_append, List.find?_append, find?_zipIdx_of_not_mem h 0]
  simp

end Registry

namespace LinkBook

theorem Lists.empty : (LinkBook.empty true).Lists [] :=
  { deduplicate := rfl, index := rfl, order := rfl, pool := rfl, nodup := List.nodup_nil }

namespace Lists

variable {book : LinkBook} {entries : List (String × Link)}

theorem links_eq (h : book.Lists entries) : book.links = entries.map Prod.snd := by
  unfold LinkBook.links Registry.links
  rw [h.order, h.pool, ← List.length_map Prod.snd]
  exact filterMap_range_getElem? (entries.map Prod.snd)

theorem contains_eq (h : book.Lists entries) (id : String) :
    book.registry.contains id = decide (id ∈ entries.map Prod.fst) := by
  unfold Registry.contains Registry.slot?
  rw [h.index]
  by_cases hmem : id ∈ entries.map Prod.fst
  · rcases exists_first_entry hmem with ⟨front, old, back, hentries, hfront⟩
    have hkeys : entries.map Prod.fst = front.map Prod.fst ++ id :: back.map Prod.fst := by
      rw [hentries, List.map_append, List.map_cons]
    rw [decide_eq_true hmem, hkeys, Registry.find?_zipIdx_append_of_not_mem hfront]
    rfl
  · rw [decide_eq_false hmem, Registry.find?_zipIdx_of_not_mem hmem]
    rfl

theorem append (h : book.Lists entries) {id : String} (hid : id ∉ entries.map Prod.fst)
    (link : Link) : (book.append id link).Lists (entries ++ [(id, link)]) :=
  { deduplicate := h.deduplicate
    index := by
      have hkeys : id ∉ book.registry.index.map Prod.fst := by
        rw [h.index]
        simpa using hid
      have hset : (book.append id link).registry.index =
          book.registry.index ++ [(id, book.pool.length)] :=
        Registry.setSlot_of_not_mem hkeys book.pool.length
      rw [hset, h.index, h.pool]
      simp [List.zipIdx_append]
    order := by
      show book.registry.order ++ [book.pool.length] = _
      rw [h.order, h.pool, List.length_map, List.length_append, List.length_singleton,
        List.range_succ]
    pool := by
      show book.pool ++ [link] = _
      rw [h.pool, List.map_append]
      rfl
    nodup := by
      rw [List.map_append, List.nodup_append]
      refine ⟨h.nodup, by simp, ?_⟩
      intro a ha b hb hab
      have hbid : b = id := by simpa using hb
      exact hid (hbid ▸ hab ▸ ha) }

theorem add (h : book.Lists entries) (link : Link) (policy : String) :
    (book.add link policy).2.Lists
      (contributeEntry (linkId link.source link.target link.direction true policy) link policy
        entries) := by
  have hid : book.idOf link.source link.target link.direction policy =
      linkId link.source link.target link.direction true policy := by
    unfold LinkBook.idOf
    rw [h.deduplicate]
  unfold LinkBook.add
  simp only [hid]
  generalize linkId link.source link.target link.direction true policy = id
  have hmerge : book.mergeSlot? id = book.registry.slot? id := by
    unfold LinkBook.mergeSlot?
    rw [h.deduplicate]
    rfl
  by_cases hmem : id ∈ entries.map Prod.fst
  · rcases exists_first_entry hmem with ⟨front, old, back, hentries, hfront⟩
    have hkeys : entries.map Prod.fst = front.map Prod.fst ++ id :: back.map Prod.fst := by
      rw [hentries, List.map_append, List.map_cons]
    have hslot : book.registry.slot? id = some front.length := by
      unfold Registry.slot?
      rw [h.index, hkeys, Registry.find?_zipIdx_append_of_not_mem hfront]
      simp
    have hnew : contributeEntry id link policy entries =
        front ++ (id, old.merge policy link.ports) :: back := by
      rw [hentries, contributeEntry_append_of_mem hfront]
    rw [hmerge, hslot, hnew]
    exact
      { deduplicate := h.deduplicate
        index := by
          show book.registry.index = _
          rw [h.index, hkeys, List.map_append, List.map_cons]
        order := by
          show book.registry.order = _
          rw [h.order, hentries, List.length_append, List.length_append, List.length_cons,
            List.length_cons]
        pool := by
          show book.pool.modify front.length (fun first => first.merge policy link.ports) = _
          rw [h.pool, hentries, List.map_append, List.map_cons, List.map_append, List.map_cons]
          have hmodify := modify_append_cons (fun first : Link => first.merge policy link.ports)
            (front.map Prod.snd) old (back.map Prod.snd)
          rwa [List.length_map] at hmodify
        nodup := by
          rw [List.map_append, List.map_cons, ← hkeys]
          exact h.nodup }
  · have hslot : book.registry.slot? id = none := by
      unfold Registry.slot?
      rw [h.index, Registry.find?_zipIdx_of_not_mem hmem]
      rfl
    rw [hmerge, hslot, contributeEntry_of_not_mem hmem]
    exact h.append hmem link

theorem register (h : book.Lists entries) (entry : String × Link) :
    (book.register entry.1 entry.2).2.Lists (registerEntry entries entry) := by
  have hcontains := h.contains_eq entry.1
  unfold registerEntry
  split
  · rename_i hmem
    rw [decide_eq_true hmem] at hcontains
    rw [LinkBook.register_of_contains hcontains]
    exact h
  · rename_i hmem
    rw [decide_eq_false hmem] at hcontains
    rw [LinkBook.register_of_not_contains hcontains]
    exact h.append hmem entry.2

theorem registerAll (h : book.Lists entries) (more : List (String × Link)) :
    (book.registerAll more).Lists (more.foldl registerEntry entries) := by
  induction more generalizing book entries with
  | nil => exact h
  | cons entry rest ih => exact ih (h.register entry)

end Lists
end LinkBook

/-!
# Registering one after another

Of several links with one identity the first one is registered.
-/

theorem foldl_registerEntry_append {entries more : List (String × Link)}
    (hnew : ∀ entry ∈ more, entry.1 ∉ entries.map Prod.fst) (known : List (String × Link)) :
    more.foldl registerEntry (entries ++ known) = entries ++ more.foldl registerEntry known := by
  induction more generalizing known with
  | nil => rfl
  | cons entry rest ih =>
      have hfirst : entry.1 ∉ entries.map Prod.fst := hnew entry List.mem_cons_self
      have hstep : registerEntry (entries ++ known) entry =
          entries ++ registerEntry known entry := by
        unfold registerEntry
        rw [List.map_append]
        by_cases hmem : entry.1 ∈ known.map Prod.fst
        · rw [if_pos hmem, if_pos (List.mem_append_right _ hmem)]
        · have hnone : entry.1 ∉ entries.map Prod.fst ++ known.map Prod.fst := by
            rw [List.mem_append, not_or]
            exact ⟨hfirst, hmem⟩
          rw [if_neg hmem, if_neg hnone, List.append_assoc]
      rw [List.foldl_cons, List.foldl_cons, hstep]
      exact ih (fun other hother => hnew other (List.mem_cons_of_mem entry hother)) _

theorem mem_foldl_registerEntry {more known : List (String × Link)} {entry : String × Link} :
    entry ∈ more.foldl registerEntry known ↔
      entry ∈ known ∨
        entry.1 ∉ known.map Prod.fst ∧
          more.find? (fun other => other.1 == entry.1) = some entry := by
  induction more generalizing known with
  | nil => simp
  | cons first rest ih =>
      rw [List.foldl_cons, ih]
      unfold registerEntry
      by_cases hkey : first.1 = entry.1
      · rw [List.find?_cons_of_pos (by simp [hkey]), Option.some_inj]
        by_cases hmem : first.1 ∈ known.map Prod.fst
        · rw [if_pos hmem]
          rw [hkey] at hmem
          simp [hmem]
        · rw [if_neg hmem]
          rw [hkey] at hmem
          simp [hkey, hmem, eq_comm]
      · rw [List.find?_cons_of_neg (by simp [hkey])]
        by_cases hmem : first.1 ∈ known.map Prod.fst
        · rw [if_pos hmem]
        · have hne : entry ≠ first := fun heq => hkey (by rw [heq])
          have hkeys : entry.1 ∉ (known ++ [first]).map Prod.fst ↔
              entry.1 ∉ known.map Prod.fst := by
            rw [List.map_append, List.mem_append, List.map_singleton, List.mem_singleton,
              or_iff_left (Ne.symm hkey)]
          rw [if_neg hmem, hkeys, List.mem_append, List.mem_singleton, or_iff_left hne]

theorem mem_of_mem_foldl_registerEntry {more : List (String × Link)} {entry : String × Link}
    (h : entry ∈ more.foldl registerEntry []) : entry ∈ more := by
  rcases mem_foldl_registerEntry.mp h with hnil | ⟨_, hfind⟩
  · cases hnil
  · exact List.mem_of_find?_eq_some hfind

theorem keys_subset_registerEntry (known : List (String × Link)) (entry : String × Link) :
    entry.1 ∈ (registerEntry known entry).map Prod.fst ∧
      known.map Prod.fst ⊆ (registerEntry known entry).map Prod.fst := by
  unfold registerEntry
  split
  · rename_i hmem
    exact ⟨hmem, List.Subset.refl _⟩
  · rw [List.map_append]
    exact ⟨List.mem_append_right _ (List.mem_singleton_self _), List.subset_append_left _ _⟩

theorem keys_subset_foldl_registerEntry (entries known : List (String × Link)) :
    entries.map Prod.fst ⊆ (entries.foldl registerEntry known).map Prod.fst ∧
      known.map Prod.fst ⊆ (entries.foldl registerEntry known).map Prod.fst := by
  induction entries generalizing known with
  | nil => exact ⟨List.nil_subset _, List.Subset.refl _⟩
  | cons entry rest ih =>
      rcases keys_subset_registerEntry known entry with ⟨hentry, hknown⟩
      rcases ih (registerEntry known entry) with ⟨hrest, hkept⟩
      rw [List.map_cons, List.cons_subset]
      exact ⟨⟨hkept hentry, hrest⟩, fun id hid => hkept (hknown hid)⟩

theorem foldl_registerEntry_of_keys_subset {more known : List (String × Link)}
    (h : more.map Prod.fst ⊆ known.map Prod.fst) : more.foldl registerEntry known = known := by
  induction more with
  | nil => rfl
  | cons entry rest ih =>
      rw [List.map_cons, List.cons_subset] at h
      rw [List.foldl_cons, registerEntry, if_pos h.1]
      exact ih h.2

end TrafficGraph

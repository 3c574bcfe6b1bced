import TrafficGraph.Proofs.Graph.Batches

/-!
# A registry and its copies

A registry can be copied at any moment, and so can its copies.  All of them work on one pool
of links, so what is merged into a link shows wherever the link is listed.  But each has an
index and a list of its own, and what is done to one does not show in those of the others.

Whatever the registries of such a family are asked for, each of them is as its answers tell.
Where policies share links, identities and listed links go together one by one, in the order
in which the identities came up.  Elsewhere a registry lists a link for every call that
contributed or registered one, and finds the latest link of each identity.
-/

namespace TrafficGraph

inductive RegistryRequest where
  /-- Contribute a link. -/
  | add (c : LinkCall)
  /-- List a new link under an identity. -/
  | register (id : String) (link : Link)
  /-- List a link under an identity that is in the pool already, whether this registry lists
  it, another one, or none. -/
  | registerKnown (id : String) (slot : Nat)

/-- What a registry answers: the identity in question and, unless it refuses, the slot of the
link. -/
inductive RegistryAnswer where
  | added (id : String) (slot : Nat)
  | registered (id : String) (slot : Nat)
  | refused (id : String)

namespace RegistryAnswer

def isAdded : RegistryAnswer → Bool
  | .added _ _ => true
  | _ => false

def isRegistered : RegistryAnswer → Bool
  | .registered _ _ => true
  | _ => false

def told? : RegistryAnswer → Option (String × Nat)
  | .added id slot => some (id, slot)
  | .registered id slot => some (id, slot)
  | .refused _ => none

def entries (answers : List RegistryAnswer) : List (String × Nat) := answers.filterMap told?

theorem length_entries (answers : List RegistryAnswer) :
    (entries answers).length = answers.countP isAdded + answers.countP isRegistered := by
  unfold entries
  induction answers with
  | nil => rfl
  | cons answer rest ih =>
      rw [List.countP_cons, List.countP_cons, List.filterMap_cons]
      cases answer with
      | added id slot => simp [told?, isAdded, isRegistered, ih, Nat.add_right_comm]
      | registered id slot => simp [told?, isAdded, isRegistered, ih, Nat.add_assoc]
      | refused id => simp [told?, isAdded, isRegistered, ih]

theorem entries_concat_of_some {answer : RegistryAnswer} {entry : String × Nat}
    (h : answer.told? = some entry) (answers : List RegistryAnswer) :
    entries (answers ++ [answer]) = entries answers ++ [entry] := by
  rw [entries, List.filterMap_append, List.filterMap_cons_some h]
  rfl

theorem entries_concat_refused (answers : List RegistryAnswer) (id : String) :
    entries (answers ++ [.refused id]) = entries answers := by
  rw [entries, List.filterMap_append]
  exact List.append_nil _

end RegistryAnswer

def latest? (id : String) (entries : List (String × Nat)) : Option Nat :=
  (entries.reverse.find? fun entry => entry.1 == id).map Prod.snd

theorem latest?_concat (entries : List (String × Nat)) (entry : String × Nat) (id : String) :
    latest? id (entries ++ [entry]) =
      if id = entry.1 then some entry.2 else latest? id entries := by
  unfold latest?
  rw [List.reverse_append, List.reverse_singleton, List.singleton_append, List.find?_cons]
  by_cases hid : id = entry.1
  · simp [hid]
  · rw [beq_eq_false_iff_ne.mpr (Ne.symm hid), if_neg hid]

theorem mem_of_latest? {entries : List (String × Nat)} {id : String} {slot : Nat}
    (h : latest? id entries = some slot) : (id, slot) ∈ entries := by
  rcases Option.map_eq_some_iff.mp h with ⟨⟨other, found⟩, hfind, rfl⟩
  have hid : other = id := by simpa using List.find?_some hfind
  rw [← hid]
  exact List.mem_reverse.mp (List.mem_of_find?_eq_some hfind)

/-!
# One request
-/

namespace LinkBook

/-- List a link of the pool under an identity, unless that is taken or there is no such link:
whether it is listed now, and the book. -/
def registerKnown (book : LinkBook) (id : String) (slot : Nat) : Bool × LinkBook :=
  if book.registry.contains id || decide (book.pool.length ≤ slot) then (false, book)
  else (true, { book with registry := book.registry.list id slot })

def perform (book : LinkBook) : RegistryRequest → RegistryAnswer × LinkBook
  | .add c =>
    let (slot, next) := book.add c.link c.policy
    (.added (book.idOf c.source c.target c.direction c.policy) slot, next)
  | .register id link =>
    let (listed, next) := book.register id link
    (if listed then .registered id book.pool.length else .refused id, next)
  | .registerKnown id slot =>
    let (listed, next) := book.registerKnown id slot
    (if listed then .registered id slot else .refused id, next)

/-- What can come of a request: nothing, a link that is merged with what is contributed, or one
that is listed under an identity, which is a new link unless the request is about a known one. -/
inductive Outcome (book : LinkBook) (request : RegistryRequest) :
    RegistryAnswer → LinkBook → Prop where
  | refused (id : String) : Outcome book request (.refused id) book
  | merged {id : String} {slot : Nat} {change : Link → Link}
      (shares : book.registry.deduplicate = true) (found : book.registry.slot? id = some slot)
      (keeps : ∀ link, (change link).ends = link.ends) :
      Outcome book request (.added id slot) { book with pool := book.pool.modify slot change }
  | listed {answer : RegistryAnswer} {id : String} {slot : Nat} {extra : List Link}
      (told : answer.told? = some (id, slot))
      (free : book.registry.deduplicate = true -> book.registry.contains id = false)
      (backed : slot < (book.pool ++ extra).length)
      (new : slot = book.pool.length ∨ request = .registerKnown id slot) :
      Outcome book request answer ⟨book.pool ++ extra, book.registry.list id slot⟩

theorem mergeSlot?_eq_some_iff (book : LinkBook) (id : String) (slot : Nat) :
    book.mergeSlot? id = some slot ↔
      book.registry.deduplicate = true ∧ book.registry.slot? id = some slot := by
  unfold mergeSlot?
  cases book.registry.deduplicate <;> simp

theorem contains_of_mergeSlot?_eq_none {book : LinkBook} {id : String}
    (h : book.mergeSlot? id = none) (hshares : book.registry.deduplicate = true) :
    book.registry.contains id = false := by
  rw [mergeSlot?, if_pos hshares] at h
  rw [Registry.contains, h]
  rfl

theorem outcome_add (book : LinkBook) (c : LinkCall) :
    book.Outcome (.add c) (book.perform (.add c)).1 (book.perform (.add c)).2 := by
  have hnew : book.pool.length < (book.pool ++ [c.link]).length := by simp
  simp only [perform, add, LinkCall.link, Link.ofRule]
  cases hmerge : book.mergeSlot? (book.idOf c.source c.target c.direction c.policy) with
  | some slot =>
      rcases (book.mergeSlot?_eq_some_iff _ slot).mp hmerge with ⟨hshares, hslot⟩
      exact .merged hshares hslot fun link => link.ends_merge c.policy c.ports
  | none => exact .listed rfl (contains_of_mergeSlot?_eq_none hmerge) hnew (.inl rfl)

theorem outcome_register (book : LinkBook) (id : String) (link : Link) :
    book.Outcome (.register id link) (book.perform (.register id link)).1
      (book.perform (.register id link)).2 := by
  have hnew : book.pool.length < (book.pool ++ [link]).length := by simp
  cases hcontains : book.registry.contains id with
  | true =>
      simp only [perform, register_of_contains hcontains]
      exact .refused id
  | false =>
      simp only [perform, register_of_not_contains hcontains]
      exact .listed rfl (fun _ => hcontains) hnew (.inl rfl)

theorem outcome_registerKnown (book : LinkBook) (id : String) (slot : Nat) :
    book.Outcome (.registerKnown id slot) (book.perform (.registerKnown id slot)).1
      (book.perform (.registerKnown id slot)).2 := by
  simp only [perform, registerKnown]
  split
  · exact .refused id
  · rename_i hfree
    rw [Bool.or_eq_true, not_or, decide_eq_true_iff, Nat.not_le, Bool.not_eq_true] at hfree
    have hbacked : slot < (book.pool ++ []).length := by
      rw [List.append_nil]
      exact hfree.2
    have hlisted : book.Outcome (.registerKnown id slot) (.registered id slot)
        ⟨book.pool ++ [], book.registry.list id slot⟩ :=
      .listed rfl (fun _ => hfree.1) hbacked (.inr rfl)
    rw [List.append_nil] at hlisted
    exact hlisted

theorem perform_register_refused_iff (book : LinkBook) (id : String) (link : Link) :
    (book.perform (.register id link)).1 = .refused id ↔ book.registry.contains id = true := by
  simp only [perform, fst_register]
  cases book.registry.contains id <;> simp

theorem outcome_perform (book : LinkBook) (request : RegistryRequest) :
    book.Outcome request (book.perform request).1 (book.perform request).2 := by
  cases request with
  | add c => exact book.outcome_add c
  | register id link => exact book.outcome_register id link
  | registerKnown id slot => exact book.outcome_registerKnown id slot

end LinkBook

/-!
# One registry
-/

theorem map_modify_of_map_eq {α β : Type} {f : α → β} {change : α → α}
    (h : ∀ x, f (change x) = f x) (xs : List α) (i : Nat) :
    (xs.modify i change).map f = xs.map f := by
  induction xs generalizing i with
  | nil => rw [List.modify_nil]
  | cons x rest ih =>
      cases i with
      | zero => rw [List.modify_zero_cons, List.map_cons, List.map_cons, h]
      | succ i => rw [List.modify_succ_cons, List.map_cons, List.map_cons, ih]

namespace Registry

theorem keys_setSlot_of_mem {id : String} {index : List (String × Nat)}
    (h : id ∈ index.map Prod.fst) (slot : Nat) :
    (setSlot id slot index).map Prod.fst = index.map Prod.fst := by
  induction index with
  | nil => cases h
  | cons entry rest ih =>
      rcases entry with ⟨other, old⟩
      rw [setSlot]
      by_cases hother : other = id
      · rw [if_pos hother]
        rfl
      · rw [List.map_cons, List.mem_cons] at h
        rw [if_neg hother, List.map_cons, List.map_cons, ih (h.resolve_left (Ne.symm hother))]

theorem ids_list (r : Registry) (id : String) (slot : Nat) :
    (r.list id slot).ids = addName id r.ids := by
  unfold addName
  by_cases hmem : id ∈ r.ids
  · rw [if_pos (List.contains_iff_mem.mpr hmem)]
    exact keys_setSlot_of_mem hmem slot
  · rw [if_neg (mt List.contains_iff_mem.mp hmem), ids, list, setSlot_of_not_mem hmem,
      List.map_append]
    rfl

theorem map_ends_links {r : Registry} {pool later : LinkPool}
    (hbacked : ∀ slot ∈ r.order, slot < pool.length)
    (h : pool.map Link.ends <+: later.map Link.ends) :
    (r.links later).map Link.ends = (r.links pool).map Link.ends := by
  unfold links
  rw [List.map_filterMap, List.map_filterMap]
  apply List.filterMap_congr
  intro slot hslot
  rcases h with ⟨more, hmore⟩
  rw [← List.getElem?_map, ← List.getElem?_map, ← hmore, List.getElem?_append_left]
  rw [List.length_map]
  exact hbacked slot hslot

theorem length_links {r : Registry} {pool : LinkPool}
    (hbacked : ∀ slot ∈ r.order, slot < pool.length) : (r.links pool).length = r.size := by
  unfold links size
  generalize r.order = order at hbacked
  induction order with
  | nil => rfl
  | cons slot rest ih =>
      rw [List.forall_mem_cons] at hbacked
      rw [List.filterMap_cons_some (List.getElem?_eq_getElem hbacked.1), List.length_cons,
        ih hbacked.2, List.length_cons]

end Registry

/-- Whether a registry is as the identities and slots that it has answered tell: it has the
identities, in the order in which they came up, and finds the last slot of each.  Its list
tells the same as its index where policies share links, and elsewhere the same as the
answers. -/
structure Registry.Tells (r : Registry) (deduplicate : Bool) (pool : LinkPool)
    (entries : List (String × Nat)) : Prop where
  mode : r.deduplicate = deduplicate
  backed : ∀ slot ∈ r.order, slot < pool.length
  ids : r.ids = (entries.map Prod.fst).eraseDups
  latest : ∀ id, r.slot? id = latest? id entries
  shared : deduplicate = true -> r.order = r.index.map Prod.snd
  own : deduplicate = false -> r.order = entries.map Prod.snd

namespace Registry.Tells

variable {r : Registry} {deduplicate : Bool} {pool later : LinkPool}
  {entries : List (String × Nat)}

theorem empty (deduplicate : Bool) : (Registry.empty deduplicate).Tells deduplicate [] [] :=
  { mode := rfl
    backed := fun _ hslot => by cases hslot
    ids := rfl
    latest := fun _ => rfl
    shared := fun _ => rfl
    own := fun _ => rfl }

theorem of_le (h : r.Tells deduplicate pool entries) (hle : pool.length ≤ later.length) :
    r.Tells deduplicate later entries :=
  { h with backed := fun slot hslot => Nat.lt_of_lt_of_le (h.backed slot hslot) hle }

/-- An answer that names the slot of an identity tells nothing new. -/
theorem again (h : r.Tells deduplicate pool entries) (hshares : r.deduplicate = true) {id : String}
    {slot : Nat} (hslot : r.slot? id = some slot) :
    r.Tells deduplicate pool (entries ++ [(id, slot)]) where
  mode := h.mode
  backed := h.backed
  ids := by
    -- the identity is found, so it has come up before
    have hid : id ∈ r.ids := by
      have hcontains := r.contains_eq id
      rw [contains, hslot] at hcontains
      exact of_decide_eq_true hcontains.symm
    rw [List.map_append, List.map_singleton, eraseDups_concat, ← h.ids, addName_eq_self_iff.mpr hid]
  latest := by
    intro other
    rw [latest?_concat, ← h.latest]
    by_cases hother : other = id
    · rw [if_pos hother, hother, hslot]
    · rw [if_neg hother]
  shared := h.shared
  own := by
    intro hown
    cases hshares.symm.trans (h.mode.trans hown)

theorem list (h : r.Tells deduplicate pool entries) {id : String} {slot : Nat}
    (hfree : r.deduplicate = true -> r.contains id = false) (hslot : slot < pool.length) :
    (r.list id slot).Tells deduplicate pool (entries ++ [(id, slot)]) where
  mode := h.mode
  backed := by
    intro other hother
    rcases List.mem_append.mp hother with hold | hnew
    · exact h.backed other hold
    · rw [List.mem_singleton.mp hnew]
      exact hslot
  ids := by
    rw [ids_list, h.ids, List.map_append, List.map_singleton, eraseDups_concat]
  latest := by
    intro other
    rw [slot?_list, latest?_concat, h.latest]
  shared := by
    intro hshares
    rw [index_list_of_free (hfree (h.mode.trans hshares)), List.map_append, ← h.shared hshares]
    rfl
  own := by
    intro hown
    rw [List.map_append, ← h.own hown]
    rfl

theorem mem_order (h : r.Tells deduplicate pool entries) {id : String} {slot : Nat}
    (hslot : r.slot? id = some slot) : slot ∈ r.order := by
  cases deduplicate with
  | true =>
      rcases Option.map_eq_some_iff.mp hslot with ⟨entry, hentry, rfl⟩
      rw [h.shared rfl]
      exact List.mem_map_of_mem (List.mem_of_find?_eq_some hentry)
  | false =>
      rw [h.latest] at hslot
      rw [h.own rfl]
      exact List.mem_map_of_mem (mem_of_latest? hslot)

end Registry.Tells

/-- Whether a registry still has the identities and the links of an earlier one, in their
places: both have grown at their ends only. -/
structure Registry.Grown (later earlier : Registry) : Prop where
  ids : earlier.ids <+: later.ids
  order : earlier.order <+: later.order

theorem Registry.Grown.refl (r : Registry) : r.Grown r :=
  { ids := List.prefix_refl _, order := List.prefix_refl _ }

theorem Registry.Grown.trans {last later earlier : Registry} (h : last.Grown later)
    (h' : later.Grown earlier) : last.Grown earlier :=
  { ids := h'.ids.trans h.ids, order := h'.order.trans h.order }

theorem Registry.grown_list (r : Registry) (id : String) (slot : Nat) :
    (r.list id slot).Grown r where
  ids := by
    rw [ids_list, addName]
    split
    · exact List.prefix_refl _
    · exact List.prefix_append _ _
  order := List.prefix_append _ _

namespace LinkBook.Outcome

variable {book next : LinkBook} {request : RegistryRequest} {answer : RegistryAnswer}

theorem tells (h : book.Outcome request answer next) {deduplicate : Bool}
    {answers : List RegistryAnswer}
    (htells : book.registry.Tells deduplicate book.pool (RegistryAnswer.entries answers)) :
    next.registry.Tells deduplicate next.pool (RegistryAnswer.entries (answers ++ [answer])) := by
  cases h with
  | refused id =>
      rw [RegistryAnswer.entries_concat_refused]
      exact htells
  | merged shares found keeps =>
      rw [RegistryAnswer.entries_concat_of_some rfl]
      exact (htells.again shares found).of_le (List.length_modify ..).ge
  | listed told free backed new =>
      rw [RegistryAnswer.entries_concat_of_some told]
      exact (htells.of_le (List.prefix_append _ _).length_le).list free backed

theorem grown (h : book.Outcome request answer next) : next.registry.Grown book.registry := by
  cases h with
  | refused id => exact .refl _
  | merged shares found keeps => exact .refl _
  | listed told free backed new => exact book.registry.grown_list _ _

theorem ends_prefix (h : book.Outcome request answer next) :
    book.pool.map Link.ends <+: next.pool.map Link.ends := by
  cases h with
  | refused id => exact List.prefix_refl _
  | @merged id slot change shares found keeps =>
      exact (map_modify_of_map_eq keeps book.pool slot).symm ▸ List.prefix_refl _
  | listed told free backed new =>
      rw [List.map_append]
      exact List.prefix_append _ _

theorem eq_of_refused {id : String} (h : book.Outcome request (.refused id) next) :
    next = book := by
  cases h with
  | refused id => rfl
  | listed told free backed new => cases told

/-- Unless a request is about a known link, no link is listed twice. -/
theorem nodup_order (h : book.Outcome request answer next)
    (hbacked : ∀ slot ∈ book.registry.order, slot < book.pool.length)
    (hnew : ∀ id slot, request ≠ .registerKnown id slot) (hnodup : book.registry.order.Nodup) :
    next.registry.order.Nodup := by
  cases h with
  | refused id => exact hnodup
  | merged shares found keeps => exact hnodup
  | @listed answer id slot extra told free backed new =>
      have hslot : slot = book.pool.length := new.resolve_right (hnew id slot)
      have hfresh : slot ∉ book.registry.order := fun hmem =>
        Nat.lt_irrefl _ (hslot ▸ hbacked slot hmem)
      exact List.nodup_append_comm.mp (List.nodup_cons.mpr ⟨hfresh, hnodup⟩)

end LinkBook.Outcome

/-!
# A family of registries
-/

/-- A registry, and what it has answered.  A copy begins with the answers of the registry that
it was copied from. -/
structure Ledger where
  registry : Registry
  answers : List RegistryAnswer

namespace Ledger

/-- Whether identities and listed links go together one by one, in the order in which the
identities came up, and the link of each is the one that was told for it. -/
structure OneToOne (l : Ledger) : Prop where
  apart : l.registry.ids.Nodup
  ids : l.registry.ids = ((RegistryAnswer.entries l.answers).map Prod.fst).eraseDups
  order : l.registry.order = l.registry.index.map Prod.snd
  latest : ∀ id, l.registry.slot? id = latest? id (RegistryAnswer.entries l.answers)

/-- Whether a link is listed for every contribution and every registration that was not
refused, and the latest one of each identity is found. -/
structure OnePerCall (l : Ledger) : Prop where
  size : l.registry.size =
    l.answers.countP RegistryAnswer.isAdded + l.answers.countP RegistryAnswer.isRegistered
  order : l.registry.order = (RegistryAnswer.entries l.answers).map Prod.snd
  listed : ∀ id slot, l.registry.slot? id = some slot -> slot ∈ l.registry.order
  latest : ∀ id, l.registry.slot? id = latest? id (RegistryAnswer.entries l.answers)

end Ledger

/-- A registry with its copies and theirs, in the order in which they were made, on one pool of
links. -/
structure RegistryFamily where
  pool : LinkPool
  ledgers : List Ledger

namespace RegistryFamily

inductive Move where
  /-- Ask the registry at a place for something. -/
  | ask (place : Nat) (request : RegistryRequest)
  /-- Copy the registry at a place. -/
  | copy (place : Nat)

def start (deduplicate : Bool) : RegistryFamily := ⟨[], [⟨.empty deduplicate, []⟩]⟩

def registries (f : RegistryFamily) : List Registry := f.ledgers.map Ledger.registry

def book (f : RegistryFamily) (l : Ledger) : LinkBook := ⟨f.pool, l.registry⟩

def links (f : RegistryFamily) (l : Ledger) : List Link := (f.book l).links

def move (f : RegistryFamily) : Move → RegistryFamily
  | .ask place request =>
    match f.ledgers[place]? with
    | some l =>
      let (answer, next) := (f.book l).perform request
      { pool := next.pool
        ledgers := f.ledgers.set place ⟨next.registry, l.answers ++ [answer]⟩ }
    | none => f
  | .copy place =>
    match f.ledgers[place]? with
    | some l => { f with ledgers := f.ledgers ++ [l] }
    | none => f

def run (f : RegistryFamily) (moves : List Move) : RegistryFamily := moves.foldl move f

def Kept (f : RegistryFamily) (deduplicate : Bool) : Prop :=
  ∀ l ∈ f.ledgers, l.registry.Tells deduplicate f.pool (RegistryAnswer.entries l.answers)

/-- Whether a family still has all links and registries of an earlier one, in their places. -/
structure Continues (later earlier : RegistryFamily) : Prop where
  ends : earlier.pool.map Link.ends <+: later.pool.map Link.ends
  ledgers : ∀ (place : Nat) (l : Ledger), earlier.ledgers[place]? = some l →
    ∃ grown, later.ledgers[place]? = some grown ∧ grown.registry.Grown l.registry

variable {f : RegistryFamily}

/-- What can come of a move: nothing at all, the outcome of a request to one registry, or a
copy. -/
theorem move_cases (f : RegistryFamily) (m : Move) :
    f.move m = f ∨
      (∃ place l request answer next, m = .ask place request ∧ f.ledgers[place]? = some l ∧
        (f.book l).Outcome request answer next ∧
          f.move m =
            ⟨next.pool, f.ledgers.set place ⟨next.registry, l.answers ++ [answer]⟩⟩) ∨
      ∃ place l, m = .copy place ∧ f.ledgers[place]? = some l ∧
        f.move m = { f with ledgers := f.ledgers ++ [l] } := by
  cases m with
  | ask place request =>
      cases hl : f.ledgers[place]? with
      | none => exact .inl (by simp only [move, hl])
      | some l =>
          exact .inr (.inl ⟨place, l, request, _, _, rfl, hl, (f.book l).outcome_perform request,
            by simp only [move, hl]⟩)
  | copy place =>
      cases hl : f.ledgers[place]? with
      | none => exact .inl (by simp only [move, hl])
      | some l => exact .inr (.inr ⟨place, l, rfl, hl, by simp only [move, hl]⟩)

namespace Continues

theorem refl (f : RegistryFamily) : f.Continues f where
  ends := List.prefix_refl _
  ledgers := fun _ l hl => ⟨l, hl, .refl _⟩

theorem trans {last later earlier : RegistryFamily} (h : last.Continues later)
    (h' : later.Continues earlier) : last.Continues earlier where
  ends := h'.ends.trans h.ends
  ledgers := by
    intro place l hl
    rcases h'.ledgers place l hl with ⟨grown, hgrown, hlater⟩
    rcases h.ledgers place grown hgrown with ⟨final, hfinal, hlast⟩
    exact ⟨final, hfinal, hlast.trans hlater⟩

theorem move (f : RegistryFamily) (m : Move) : (f.move m).Continues f := by
  rcases f.move_cases m with heq | ⟨place, l, request, answer, next, _, hl, hout, heq⟩ |
    ⟨place, l, _, hl, heq⟩
  · rw [heq]
    exact refl f
  · rw [heq]
    refine { ends := hout.ends_prefix, ledgers := ?_ }
    intro other old hold
    by_cases hplace : place = other
    · subst hplace
      cases hl.symm.trans hold
      exact ⟨_, List.getElem?_set_self (List.getElem?_eq_some_iff.mp hl).1, hout.grown⟩
    · exact ⟨old, (List.getElem?_set_ne hplace).trans hold, .refl _⟩
  · rw [heq]
    refine { ends := List.prefix_refl _, ledgers := ?_ }
    intro other old hold
    have hplace := (List.getElem?_eq_some_iff.mp hold).1
    exact ⟨old, (List.getElem?_append_left hplace).trans hold, .refl _⟩

theorem run (f : RegistryFamily) (moves : List Move) : (f.run moves).Continues f := by
  induction moves generalizing f with
  | nil => exact refl f
  | cons m rest ih => exact (ih (f.move m)).trans (move f m)

theorem length_le {later : RegistryFamily} (h : later.Continues f) :
    f.pool.length ≤ later.pool.length := by
  have hle := h.ends.length_le
  rw [List.length_map, List.length_map] at hle
  exact hle

end Continues

/-- A registry after a move has been there before, under its place or that of the registry that
it is a copy of, or it is the one that was asked. -/
theorem mem_ledgers_move {m : Move} {l : Ledger} (hl : l ∈ (f.move m).ledgers) :
    l ∈ f.ledgers ∨
      ∃ place old request answer next, m = .ask place request ∧ old ∈ f.ledgers ∧
        (f.book old).Outcome request answer next ∧ (f.move m).pool = next.pool ∧
          l = ⟨next.registry, old.answers ++ [answer]⟩ := by
  rcases f.move_cases m with heq | ⟨place, old, request, answer, next, hm, hold, hout, heq⟩ |
    ⟨place, old, _, hold, heq⟩
  · rw [heq] at hl
    exact .inl hl
  · rw [heq] at hl
    rcases List.mem_or_eq_of_mem_set hl with hkept | hasked
    · exact .inl hkept
    · exact .inr ⟨place, old, request, answer, next, hm, List.mem_of_getElem? hold, hout,
        congrArg pool heq, hasked⟩
  · rw [heq] at hl
    rcases List.mem_append.mp hl with hkept | hcopy
    · exact .inl hkept
    · rw [List.mem_singleton.mp hcopy]
      exact .inl (List.mem_of_getElem? hold)

theorem kept_start (deduplicate : Bool) : (start deduplicate).Kept deduplicate := by
  intro l hl
  rw [List.mem_singleton.mp hl]
  exact .empty deduplicate

theorem Kept.move {deduplicate : Bool} (h : f.Kept deduplicate) (m : Move) :
    (f.move m).Kept deduplicate := by
  intro l hl
  rcases mem_ledgers_move hl with hold | ⟨_, old, _, _, next, _, hold, hout, hpool, rfl⟩
  -- another registry lists slots of the pool as it was, and the pool has not shrunk
  · exact (h l hold).of_le (Continues.move f m).length_le
  · rw [hpool]
    exact hout.tells (h old hold)

theorem Kept.run {deduplicate : Bool} (h : f.Kept deduplicate) (moves : List Move) :
    (f.run moves).Kept deduplicate := by
  induction moves generalizing f with
  | nil => exact h
  | cons m rest ih => exact ih (h.move m)

theorem Kept.nodup_order_move {deduplicate : Bool} (h : f.Kept deduplicate) {m : Move}
    (hnew : ∀ place id slot, m ≠ .ask place (.registerKnown id slot))
    (hnodup : ∀ l ∈ f.ledgers, l.registry.order.Nodup) :
    ∀ l ∈ (f.move m).ledgers, l.registry.order.Nodup := by
  intro l hl
  rcases mem_ledgers_move hl with hold | ⟨place, old, _, _, _, hm, hold, hout, _, rfl⟩
  · exact hnodup l hold
  · apply hout.nodup_order (h old hold).backed _ (hnodup old hold)
    rintro id slot rfl
    exact hnew place id slot hm

theorem Kept.nodup_order_run {deduplicate : Bool} (h : f.Kept deduplicate) {moves : List Move}
    (hnew : ∀ place id slot, .ask place (.registerKnown id slot) ∉ moves)
    (hnodup : ∀ l ∈ f.ledgers, l.registry.order.Nodup) :
    ∀ l ∈ (f.run moves).ledgers, l.registry.order.Nodup := by
  induction moves generalizing f with
  | nil => exact hnodup
  | cons m rest ih =>
      simp only [List.mem_cons, not_or] at hnew
      have hhead : ∀ place id slot, m ≠ .ask place (.registerKnown id slot) :=
        fun place id slot => Ne.symm (hnew place id slot).1
      exact ih (h.move m) (fun place id slot => (hnew place id slot).2)
        (h.nodup_order_move hhead hnodup)

/-!
# What holds after all moves
-/

theorem Kept.oneToOne (h : f.Kept true) {l : Ledger} (hl : l ∈ f.ledgers) : l.OneToOne where
  apart := by
    rw [(h l hl).ids]
    exact nodup_eraseDups _
  ids := (h l hl).ids
  order := (h l hl).shared rfl
  latest := (h l hl).latest

theorem Kept.onePerCall (h : f.Kept false) {l : Ledger} (hl : l ∈ f.ledgers) : l.OnePerCall where
  size := by
    rw [Registry.size, (h l hl).own rfl, List.length_map, RegistryAnswer.length_entries]
  order := (h l hl).own rfl
  listed := fun _ _ hslot => (h l hl).mem_order hslot
  latest := (h l hl).latest

theorem Kept.contains_iff {deduplicate : Bool} (h : f.Kept deduplicate) {l : Ledger}
    (hl : l ∈ f.ledgers) (id : String) :
    l.registry.contains id = true ↔ id ∈ (RegistryAnswer.entries l.answers).map Prod.fst := by
  rw [Registry.contains_eq, decide_eq_true_iff, (h l hl).ids, List.mem_eraseDups]

theorem Continues.map_ends_links {later : RegistryFamily} (h : later.Continues f) {l : Ledger}
    (hbacked : ∀ slot ∈ l.registry.order, slot < f.pool.length) :
    (later.links l).map Link.ends = (f.links l).map Link.ends :=
  Registry.map_ends_links hbacked h.ends

theorem getElem?_ledgers_move {place : Nat} {l : Ledger} (hl : f.ledgers[place]? = some l)
    {m : Move} (hother : ∀ request, m ≠ .ask place request) :
    (f.move m).ledgers[place]? = some l := by
  rcases f.move_cases m with heq | ⟨other, old, request, answer, next, rfl, _, _, heq⟩ |
    ⟨other, old, _, _, heq⟩
  · rw [heq]
    exact hl
  · have hne : other ≠ place := by
      rintro rfl
      exact hother request rfl
    rw [heq]
    exact (List.getElem?_set_ne hne).trans hl
  · rw [heq]
    exact (List.getElem?_append_left (List.getElem?_eq_some_iff.mp hl).1).trans hl

theorem move_of_refused {place : Nat} {l : Ledger} (hl : f.ledgers[place]? = some l)
    {request : RegistryRequest} {id : String}
    (h : ((f.book l).perform request).1 = .refused id) :
    (f.move (.ask place request)).pool = f.pool ∧
      (f.move (.ask place request)).registries = f.registries := by
  have hout := (f.book l).outcome_perform request
  rw [h] at hout
  have hset : f.registries.set place l.registry = f.registries := by
    have hregistry : f.registries[place]? = some l.registry := by
      rw [registries, List.getElem?_map, hl, Option.map_some]
    rcases List.getElem?_eq_some_iff.mp hregistry with ⟨_, hget⟩
    rw [← hget, List.set_getElem_self]
  simp only [move, hl]
  rw [hout.eq_of_refused, registries, List.map_set]
  exact ⟨rfl, hset⟩

/-!
# Answers

The answers of a registry count what it was asked for: each request is answered once, and a
contribution is never refused.
-/

def Move.adds (place : Nat) : Move → Bool
  | .ask other (.add _) => other == place
  | _ => false

theorem isAdded_perform (book : LinkBook) (request : RegistryRequest) :
    (book.perform request).1.isAdded = true ↔ ∃ c, request = .add c := by
  cases request with
  | add c => simp [LinkBook.perform, RegistryAnswer.isAdded]
  | register id link =>
      simp only [LinkBook.perform]
      split <;> simp [RegistryAnswer.isAdded]
  | registerKnown id slot =>
      simp only [LinkBook.perform]
      split <;> simp [RegistryAnswer.isAdded]

theorem answers_ask {place : Nat} {l : Ledger} (hl : f.ledgers[place]? = some l)
    (request : RegistryRequest) :
    ∃ next, (f.move (.ask place request)).ledgers[place]? = some next ∧
      next.answers = l.answers ++ [((f.book l).perform request).1] := by
  have hplace : place < f.ledgers.length := (List.getElem?_eq_some_iff.mp hl).1
  simp only [move, hl]
  exact ⟨_, List.getElem?_set_self hplace, rfl⟩

theorem countP_isAdded_move {place : Nat} {l : Ledger} (hl : f.ledgers[place]? = some l)
    (m : Move) :
    ∃ next, (f.move m).ledgers[place]? = some next ∧
      next.answers.countP RegistryAnswer.isAdded =
        l.answers.countP RegistryAnswer.isAdded + if m.adds place then 1 else 0 := by
  by_cases hasks : ∃ request, m = .ask place request
  · rcases hasks with ⟨request, rfl⟩
    rcases answers_ask hl request with ⟨next, hnext, hanswers⟩
    have hadded := isAdded_perform (f.book l) request
    refine ⟨next, hnext, ?_⟩
    rw [hanswers, List.countP_append, List.countP_singleton]
    congr 1
    cases request <;> simp_all [Move.adds]
  · have hother : ∀ request, m ≠ .ask place request := fun request h => hasks ⟨request, h⟩
    refine ⟨l, getElem?_ledgers_move hl hother, ?_⟩
    have hnone : m.adds place = false := by
      cases m with
      | copy _ => rfl
      | ask other request =>
          have hne : other ≠ place := by
            rintro rfl
            exact hother request rfl
          cases request <;> simp [Move.adds, hne]
    rw [hnone]
    rfl

/-- From any moment on, a registry is told of a contribution for each one that it is asked for. -/
theorem countP_isAdded_run {place : Nat} {l : Ledger} (hl : f.ledgers[place]? = some l)
    (moves : List Move) :
    ∃ later, (f.run moves).ledgers[place]? = some later ∧
      later.answers.countP RegistryAnswer.isAdded =
        l.answers.countP RegistryAnswer.isAdded + moves.countP (Move.adds place) := by
  induction moves generalizing f l with
  | nil => exact ⟨l, hl, rfl⟩
  | cons m rest ih =>
      rcases countP_isAdded_move hl m with ⟨next, hnext, hcount⟩
      rcases ih hnext with ⟨later, hlater, hrest⟩
      refine ⟨later, hlater, ?_⟩
      rw [hrest, hcount, List.countP_cons]
      omega

/-- Whatever is done in a family of registries, however often they are copied, each registry is
as its answers tell, a copy as those that it began with tell, too: it has the identities for
which links were contributed or registered.  Where policies share links, identities and listed
links go together one by one, and no link is listed twice unless a known one was registered
again.  Elsewhere a link is listed for each contribution and each registration that was not
refused, and the latest one of an identity is found.  Lists grow at their ends only, a refusal
changes nothing, and a move that asks another registry, or copies one, leaves a registry as it
is, with the same ends of links in the same order. -/
theorem tells_run (deduplicate : Bool) (moves : List Move) :
    let f := (start deduplicate).run moves
    (∀ l ∈ f.ledgers, (f.links l).length = l.registry.size ∧
      (∀ id, l.registry.contains id = true ↔
        id ∈ (RegistryAnswer.entries l.answers).map Prod.fst) ∧
      (deduplicate = true -> l.OneToOne) ∧ (deduplicate = false -> l.OnePerCall) ∧
      ((∀ place id slot, .ask place (.registerKnown id slot) ∉ moves) ->
        l.registry.order.Nodup)) ∧
    (∀ more, ((start deduplicate).run (moves ++ more)).Continues f) ∧
    ∀ (place : Nat) (l : Ledger), f.ledgers[place]? = some l ->
      (∀ id link, ((f.book l).perform (.register id link)).1 = .refused id ↔
        l.registry.contains id = true) ∧
      (∀ request id, ((f.book l).perform request).1 = .refused id ->
        (f.move (.ask place request)).pool = f.pool ∧
          (f.move (.ask place request)).registries = f.registries) ∧
      ∀ m, (∀ request, m ≠ .ask place request) -> (f.move m).ledgers[place]? = some l ∧
        ((f.move m).links l).map Link.ends = (f.links l).map Link.ends := by
  intro f
  have hkept : f.Kept deduplicate := (kept_start deduplicate).run moves
  refine ⟨?_, ?_, ?_⟩
  · intro l hl
    refine ⟨Registry.length_links (hkept l hl).backed, hkept.contains_iff hl, ?_, ?_, ?_⟩
    · rintro rfl
      exact hkept.oneToOne hl
    · rintro rfl
      exact hkept.onePerCall hl
    · intro hnew
      apply (kept_start deduplicate).nodup_order_run hnew _ l hl
      intro first hfirst
      rw [List.mem_singleton.mp hfirst]
      exact List.nodup_nil
  · intro more
    show ((moves ++ more).foldl move (start deduplicate)).Continues f
    rw [List.foldl_append]
    exact .run f more
  · intro place l hl
    refine ⟨fun id link => (f.book l).perform_register_refused_iff id link,
      fun request id => move_of_refused hl, ?_⟩
    intro m hother
    exact ⟨getElem?_ledgers_move hl hother,
      (Continues.move f m).map_ends_links (hkept l (List.mem_of_getElem? hl)).backed⟩

/-- A copy that lists a link again does so by itself, and what is merged into the link shows in
both registries. -/
example :
    let web (policy : String) : RegistryRequest :=
      .add ⟨"web", "db", .ingress, .all, policy, none⟩
    let f := (start true).run
      [.ask 0 (web "a"), .copy 0, .ask 1 (.registerKnown "x" 0), .ask 0 (web "b")]
    f.registries.map Registry.order = [[0], [0, 0]] ∧
      (f.ledgers.flatMap f.links).map Link.policies = [["a", "b"], ["a", "b"], ["a", "b"]] := by
  decide +kernel

end RegistryFamily

end TrafficGraph

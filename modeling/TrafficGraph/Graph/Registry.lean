import TrafficGraph.Graph.Link

/-!
# Registries of links

A pool holds links, each in a slot of its own that never changes hands.  A
registry lists slots in order and finds the latest slot of an identity.  A copy
of a registry shares the pool with it: what is merged into a link shows in both,
while a link that is added to one is not listed in the other.
-/

namespace TrafficGraph

abbrev LinkPool := List Link

/-- Which links are listed, in order, and the slot of each identity. -/
structure Registry where
  deduplicate : Bool
  /-- The slot of each identity, in the order in which the identities came up. -/
  index : List (String × Nat)
  /-- The slots of the listed links, in order. -/
  order : List Nat
  deriving DecidableEq, Repr

namespace Registry

def empty (deduplicate : Bool) : Registry := ⟨deduplicate, [], []⟩

def size (r : Registry) : Nat := r.order.length

def slot? (r : Registry) (id : String) : Option Nat :=
  (r.index.find? fun entry => entry.1 == id).map Prod.snd

def contains (r : Registry) (id : String) : Bool := (r.slot? id).isSome

/-- Note the slot of an identity: in place if it is taken, at the end if not. -/
def setSlot (id : String) (slot : Nat) : List (String × Nat) → List (String × Nat)
  | [] => [(id, slot)]
  | (other, old) :: rest =>
    if other = id then (other, slot) :: rest else (other, old) :: setSlot id slot rest

def list (r : Registry) (id : String) (slot : Nat) : Registry :=
  { r with index := setSlot id slot r.index, order := r.order ++ [slot] }

def links (r : Registry) (pool : LinkPool) : List Link :=
  r.order.filterMap fun slot => pool[slot]?

end Registry

/-- A registry at work on the links of a pool. -/
structure LinkBook where
  pool : LinkPool
  registry : Registry

namespace LinkBook

def empty (deduplicate : Bool) : LinkBook := ⟨[], .empty deduplicate⟩

def links (book : LinkBook) : List Link := book.registry.links book.pool

/-- A copy: a registry with an index and an order of its own, on the same pool. -/
def copy (book : LinkBook) : LinkBook :=
  { pool := book.pool
    registry :=
      { deduplicate := book.registry.deduplicate
        index := book.registry.index
        order := book.registry.order } }

def append (book : LinkBook) (id : String) (link : Link) : LinkBook :=
  { pool := book.pool ++ [link]
    registry := book.registry.list id book.pool.length }

/-- List a link, unless its identity is taken: whether it is listed now, and the
book. -/
def register (book : LinkBook) (id : String) (link : Link) : Bool × LinkBook :=
  if book.registry.contains id then (false, book) else (true, book.append id link)

def idOf (book : LinkBook) (source target : String) (direction : Direction) (policy : String) :
    String :=
  linkId source target direction book.registry.deduplicate policy

/-- The slot of the link that a contribution is merged into: one of the same
identity, where policies share links. -/
def mergeSlot? (book : LinkBook) (id : String) : Option Nat :=
  if book.registry.deduplicate then book.registry.slot? id else none

/-- Contribute a link: merge it into the one of the same identity where policies
share links, and list it at the end elsewhere.  The slot of the link comes with
the book. -/
def add (book : LinkBook) (link : Link) (policy : String) : Nat × LinkBook :=
  let id := book.idOf link.source link.target link.direction policy
  match book.mergeSlot? id with
  | some slot =>
    (slot, { book with pool := book.pool.modify slot fun old => old.merge policy link.ports })
  | none => (book.pool.length, book.append id link)

def addEvents (book : LinkBook) (link : Link) (policy : String) : Journal :=
  let id := book.idOf link.source link.target link.direction policy
  match (book.mergeSlot? id).bind fun slot => book.pool[slot]? with
  | some old => old.mergeEvents policy link.ports
  | none => []

@[simp] theorem links_empty (deduplicate : Bool) : (empty deduplicate).links = [] := rfl

theorem register_of_contains {book : LinkBook} {id : String}
    (h : book.registry.contains id = true) (link : Link) :
    book.register id link = (false, book) := by
  simp [register, h]

theorem register_of_not_contains {book : LinkBook} {id : String}
    (h : book.registry.contains id = false) (link : Link) :
    book.register id link = (true, book.append id link) := by
  simp [register, h]

end LinkBook

end TrafficGraph

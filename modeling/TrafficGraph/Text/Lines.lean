/-!
# Pieces and lines

A text is cut at every place where one character stands, and the pieces put
together again with that character between them give the text back.  Lines are
the pieces between line feeds.  A text file may also end its lines with a
carriage return, alone or in front of the line feed; reading it as text turns
every such end into one line feed.
-/

namespace TrafficGraph
namespace Text

/-- The pieces of a text between the places where `sep` stands.  There is
always at least one piece. -/
def pieces (sep : Char) : List Char → List (List Char)
  | [] => [[]]
  | c :: rest =>
    match pieces sep rest with
    | [] => [[c]]
    | piece :: more => if c = sep then [] :: piece :: more else (c :: piece) :: more

def joinPieces (sep : Char) : List (List Char) → List Char
  | [] => []
  | [piece] => piece
  | piece :: more => piece ++ sep :: joinPieces sep more

def lines (cs : List Char) : List (List Char) := pieces '\n' cs

def unlines (ls : List (List Char)) : List Char := joinPieces '\n' ls

def unifyLineEnds : List Char → List Char
  | [] => []
  | '\r' :: '\n' :: rest => '\n' :: unifyLineEnds rest
  | '\r' :: rest => '\n' :: unifyLineEnds rest
  | c :: rest => c :: unifyLineEnds rest

theorem pieces_ne_nil (sep : Char) (cs : List Char) : pieces sep cs ≠ [] := by
  cases cs with
  | nil => simp [pieces]
  | cons c rest =>
    unfold pieces
    split
    · simp
    · split <;> simp

theorem joinPieces_cons_cons (sep : Char) (piece next : List Char) (more : List (List Char)) :
    joinPieces sep (piece :: next :: more) = piece ++ sep :: joinPieces sep (next :: more) := rfl

/-- Cutting a text loses nothing. -/
theorem joinPieces_pieces (sep : Char) (cs : List Char) :
    joinPieces sep (pieces sep cs) = cs := by
  induction cs with
  | nil => rfl
  | cons c rest ih =>
    unfold pieces
    cases hp : pieces sep rest with
    | nil => exact absurd hp (pieces_ne_nil sep rest)
    | cons piece more =>
      rw [hp] at ih
      by_cases hc : c = sep
      · simp [hc, joinPieces_cons_cons, ih]
      · cases more with
        | nil => simpa [hc, joinPieces] using ih
        | cons next more => simpa [hc, joinPieces_cons_cons] using ih

/-- Splitting a text into lines loses nothing. -/
theorem unlines_lines (cs : List Char) : unlines (lines cs) = cs :=
  joinPieces_pieces '\n' cs

end Text
end TrafficGraph

/-!
# Sorting

Lists are sorted by insertion, which keeps the order of items of which neither
is below the other.  The definition recurses on the list alone, so that it also
evaluates inside a proof.
-/

namespace TrafficGraph
namespace Sorting

def insert {α : Type} (below : α → α → Bool) (x : α) : List α → List α
  | [] => [x]
  | y :: ys => if below y x then y :: insert below x ys else x :: y :: ys

/-- Sort a list; items of which neither is below the other keep their order. -/
def sort {α : Type} (below : α → α → Bool) : List α → List α
  | [] => []
  | x :: xs => insert below x (sort below xs)

theorem perm_insert {α : Type} (below : α → α → Bool) (x : α) (xs : List α) :
    (insert below x xs).Perm (x :: xs) := by
  induction xs with
  | nil => exact List.Perm.refl _
  | cons y ys ih =>
    by_cases h : below y x = true
    · simp only [insert, h, if_true]
      exact (ih.cons y).trans (List.Perm.swap x y ys)
    · simp [insert, h]

theorem perm_sort {α : Type} (below : α → α → Bool) (xs : List α) :
    (sort below xs).Perm xs := by
  induction xs with
  | nil => exact List.Perm.refl _
  | cons x xs ih => exact (perm_insert below x (sort below xs)).trans (ih.cons x)

end Sorting
end TrafficGraph

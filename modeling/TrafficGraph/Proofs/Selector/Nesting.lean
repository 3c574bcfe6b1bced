import TrafficGraph.Selector.Basic

/-!
# Nesting in canonical texts

Identities put the canonical texts of selectors next to other texts without
marking where one ends.  This module shows where a canonical text ends anyway.
A reader goes through it from left to right, counts the brackets that are open
and notes when a quoted text begins and ends.  The reader is back at its start
behind a canonical text and never before, so no canonical text is the beginning
or the end of another one.
-/

namespace TrafficGraph

/-- Where a reader of a canonical text stands: between two items, in a quoted
text, or behind a backslash in one. -/
inductive ReadingPlace where
  | between
  | inQuote
  | inEscape
  deriving DecidableEq

structure Nesting where
  depth : Nat
  place : ReadingPlace
  deriving DecidableEq

namespace Nesting

def start : Nesting := ⟨0, .between⟩

def deeper (k : Nat) (n : Nesting) : Nesting := ⟨n.depth + k, n.place⟩

def escapeLetters : List Char := [Json.mark, '\\', 'n', 'r', 't', 'b', 'f', 'u']

/-- Read one character.  Brackets count between items only, and the quoted texts
are the only items without brackets. -/
def step? (n : Nesting) (c : Char) : Option Nesting :=
  match n.place with
  | .between =>
    if c = '\x7b' ∨ c = '[' then some ⟨n.depth + 1, .between⟩
    else if c = '\x7d' ∨ c = ']' then
      match n.depth with
      | 0 => none
      | depth + 1 => some ⟨depth, .between⟩
    else if c = Json.mark then some ⟨n.depth, .inQuote⟩
    else if c = ':' ∨ c = ',' then some n
    else none
  | .inQuote =>
    if c = Json.mark then some ⟨n.depth, .between⟩
    else if c = '\\' then some ⟨n.depth, .inEscape⟩
    else some n
  | .inEscape => if c ∈ escapeLetters then some ⟨n.depth, .inQuote⟩ else none

def read? (n : Nesting) (cs : List Char) : Option Nesting := cs.foldlM step? n

theorem read?_cons (n : Nesting) (c : Char) (cs : List Char) :
    n.read? (c :: cs) = (n.step? c).bind fun m => m.read? cs := rfl

theorem read?_append (n : Nesting) (cs ds : List Char) :
    n.read? (cs ++ ds) = (n.read? cs).bind fun m => m.read? ds := by
  simp [read?, List.foldlM_append]

theorem read?_append_some {n m : Nesting} {cs ds : List Char}
    (h : n.read? (cs ++ ds) = some m) :
    exists k : Nesting, n.read? cs = some k ∧ k.read? ds = some m := by
  rw [read?_append] at h
  exact Option.bind_eq_some_iff.mp h

theorem step?_deeper (k : Nat) {n m : Nesting} {c : Char} (h : n.step? c = some m) :
    (n.deeper k).step? c = some (m.deeper k) := by
  cases n with
  | mk depth place =>
      cases place with
      | between =>
          simp only [step?, deeper] at h ⊢
          by_cases hopen : c = '\x7b' ∨ c = '['
          · rw [if_pos hopen] at h ⊢
            cases h
            rw [Nat.add_right_comm]
          · rw [if_neg hopen] at h ⊢
            by_cases hclose : c = '\x7d' ∨ c = ']'
            · rw [if_pos hclose] at h ⊢
              cases depth with
              | zero => cases h
              | succ depth =>
                  cases h
                  rw [Nat.add_right_comm depth 1 k]
            · rw [if_neg hclose] at h ⊢
              by_cases hmark : c = Json.mark
              · rw [if_pos hmark] at h ⊢
                cases h
                rfl
              · rw [if_neg hmark] at h ⊢
                by_cases hseparator : c = ':' ∨ c = ','
                · rw [if_pos hseparator] at h ⊢
                  cases h
                  rfl
                · rw [if_neg hseparator] at h
                  cases h
      | inQuote =>
          simp only [step?, deeper] at h ⊢
          by_cases hmark : c = Json.mark
          · rw [if_pos hmark] at h ⊢
            cases h
            rfl
          · rw [if_neg hmark] at h ⊢
            by_cases hescape : c = '\\'
            · rw [if_pos hescape] at h ⊢
              cases h
              rfl
            · rw [if_neg hescape] at h ⊢
              cases h
              rfl
      | inEscape =>
          simp only [step?, deeper] at h ⊢
          by_cases hletter : c ∈ escapeLetters
          · rw [if_pos hletter] at h ⊢
            cases h
            rfl
          · rw [if_neg hletter] at h
            cases h

/-- What is read without closing a bracket too many is read alike inside some
more brackets. -/
theorem read?_deeper (k : Nat) {n m : Nesting} {cs : List Char} (h : n.read? cs = some m) :
    (n.deeper k).read? cs = some (m.deeper k) := by
  induction cs generalizing n with
  | nil =>
      cases h
      rfl
  | cons c rest ih =>
      rw [read?_cons] at h ⊢
      rcases Option.bind_eq_some_iff.mp h with ⟨next, hstep, hrest⟩
      rw [step?_deeper k hstep]
      exact ih hrest

end Nesting

/-!
# Closed texts

A closed text opens and closes everything in it.  Quoted texts are closed, and
so are lists and objects of closed items.
-/

/-- Whether a text opens and closes everything in it. -/
def Closed (cs : List Char) : Prop := Nesting.start.read? cs = some Nesting.start

namespace Closed

theorem nil : Closed [] := rfl

theorem append {cs ds : List Char} (hcs : Closed cs) (hds : Closed ds) : Closed (cs ++ ds) := by
  unfold Closed at *
  rw [Nesting.read?_append, hcs]
  exact hds

theorem comma {cs : List Char} (h : Closed cs) : Closed (',' :: cs) := h

theorem colon {cs : List Char} (h : Closed cs) : Closed (':' :: cs) := h

theorem joinPieces {items : List (List Char)} (h : ∀ item ∈ items, Closed item) :
    Closed (Text.joinPieces ',' items) := by
  induction items with
  | nil => exact nil
  | cons item rest ih =>
      have hitem : Closed item := h item List.mem_cons_self
      cases rest with
      | nil => exact hitem
      | cons next more =>
          rw [Text.joinPieces_cons_cons]
          apply append hitem
          apply comma
          exact ih fun other hother => h other (List.mem_cons_of_mem item hother)

theorem bracket {opening closing : Char} {cs : List Char}
    (hopening : opening = '\x7b' ∨ opening = '[') (hclosing : closing = '\x7d' ∨ closing = ']')
    (h : Closed cs) : Closed (opening :: (cs ++ [closing])) := by
  have hopen : Nesting.start.step? opening = some (Nesting.start.deeper 1) := by
    rcases hopening with rfl | rfl <;> rfl
  have hclose : (Nesting.start.deeper 1).step? closing = some Nesting.start := by
    rcases hclosing with rfl | rfl <;> rfl
  have hbody : (Nesting.start.deeper 1).read? cs = some (Nesting.start.deeper 1) :=
    Nesting.read?_deeper 1 h
  unfold Closed
  rw [Nesting.read?_cons, hopen, Option.bind_some, Nesting.read?_append, hbody, Option.bind_some,
    Nesting.read?_cons, hclose]
  rfl

end Closed

/-!
# Quoted texts

No character ends the quoted text that it stands in: the mark and the backslash
have a backslash in front of them.
-/

theorem mem_hexDigits_of_mem_hex {c : Char} {width n : Nat} (h : c ∈ Text.hex width n) :
    c ∈ Text.hexDigits := by
  induction width generalizing n with
  | zero => cases h
  | succ width ih =>
      rcases List.mem_append.mp h with hfront | hlast
      · exact ih hfront
      · have hc : c = Text.hexDigits.getD (n % 16) '0' := List.mem_singleton.mp hlast
        have hlt : n % 16 < Text.hexDigits.length := Nat.mod_lt n (by decide)
        rw [hc, List.getD_eq_getElem?_getD, List.getElem?_eq_getElem hlt]
        exact List.getElem_mem hlt

theorem plain_of_mem_hexDigits {c : Char} (h : c ∈ Text.hexDigits) : c ≠ Json.mark ∧ c ≠ '\\' := by
  have hall : (Text.hexDigits.all fun d => d != Json.mark && d != '\\') = true := by decide
  simpa using List.all_eq_true.mp hall c h

namespace Nesting

theorem step?_inQuote_of_plain {depth : Nat} {c : Char} (h : c ≠ Json.mark ∧ c ≠ '\\') :
    step? ⟨depth, .inQuote⟩ c = some ⟨depth, .inQuote⟩ := by
  simp [step?, h.1, h.2]

theorem read?_inQuote_of_plain (depth : Nat) {cs : List Char}
    (h : ∀ c ∈ cs, c ≠ Json.mark ∧ c ≠ '\\') :
    read? ⟨depth, .inQuote⟩ cs = some ⟨depth, .inQuote⟩ := by
  induction cs with
  | nil => rfl
  | cons c rest ih =>
      rw [read?_cons, step?_inQuote_of_plain (h c List.mem_cons_self)]
      exact ih fun other hother => h other (List.mem_cons_of_mem c hother)

theorem read?_inQuote_escape (depth : Nat) {c : Char} (h : c ∈ escapeLetters) :
    read? ⟨depth, .inQuote⟩ ['\\', c] = some ⟨depth, .inQuote⟩ := by
  have hback : step? ⟨depth, .inQuote⟩ '\\' = some ⟨depth, .inEscape⟩ := rfl
  have hletter : step? ⟨depth, .inEscape⟩ c = some ⟨depth, .inQuote⟩ := by
    simp [step?, h]
  rw [read?_cons, hback, Option.bind_some, read?_cons, hletter]
  rfl

theorem read?_inQuote_codeUnit (depth code : Nat) :
    read? ⟨depth, .inQuote⟩ (Json.codeUnit code) = some ⟨depth, .inQuote⟩ := by
  have hsplit : Json.codeUnit code = ['\\', 'u'] ++ Text.hex 4 code := rfl
  rw [hsplit, read?_append, read?_inQuote_escape depth (by decide), Option.bind_some]
  apply read?_inQuote_of_plain
  intro c hc
  exact plain_of_mem_hexDigits (mem_hexDigits_of_mem_hex hc)

theorem read?_inQuote_quoteChar (depth : Nat) (c : Char) :
    read? ⟨depth, .inQuote⟩ (Json.quoteChar c) = some ⟨depth, .inQuote⟩ := by
  unfold Json.quoteChar
  by_cases hescaped : c = Json.mark ∨ c = '\\'
  · rw [if_pos hescaped]
    apply read?_inQuote_escape
    rcases hescaped with rfl | rfl <;> decide
  · have hplain : c ≠ Json.mark ∧ c ≠ '\\' := not_or.mp hescaped
    rw [if_neg hescaped]
    -- the five short escapes come first
    split
    · exact read?_inQuote_escape depth (by decide)
    split
    · exact read?_inQuote_escape depth (by decide)
    split
    · exact read?_inQuote_escape depth (by decide)
    split
    · exact read?_inQuote_escape depth (by decide)
    split
    · exact read?_inQuote_escape depth (by decide)
    split
    · apply read?_inQuote_of_plain
      intro other hother
      rw [List.mem_singleton.mp hother]
      exact hplain
    split
    · exact read?_inQuote_codeUnit depth c.toNat
    · rw [read?_append, read?_inQuote_codeUnit, Option.bind_some]
      exact read?_inQuote_codeUnit depth _

theorem read?_inQuote_flatMap (depth : Nat) (cs : List Char) :
    read? ⟨depth, .inQuote⟩ (cs.flatMap Json.quoteChar) = some ⟨depth, .inQuote⟩ := by
  induction cs with
  | nil => rfl
  | cons c rest ih =>
      rw [List.flatMap_cons, read?_append, read?_inQuote_quoteChar, Option.bind_some]
      exact ih

end Nesting

theorem Closed.quote (cs : List Char) : Closed (Json.quote cs) := by
  have hopen : Nesting.start.step? Json.mark = some ⟨0, .inQuote⟩ := rfl
  have hclose : Nesting.read? ⟨0, .inQuote⟩ [Json.mark] = some Nesting.start := rfl
  unfold Closed Json.quote
  rw [Nesting.read?_cons, hopen, Option.bind_some, Nesting.read?_append,
    Nesting.read?_inQuote_flatMap, Option.bind_some, hclose]

/-!
# Canonical texts

A canonical text is an object whose inside is closed.  Behind a part of it that
is neither empty nor the whole some bracket is open.
-/

namespace Selector

theorem closed_canonicalField (name : List Char) {value : List Char} (h : Closed value) :
    Closed (canonicalField name value) :=
  (Closed.quote name).append h.colon

theorem closed_canonicalObject {fields : List (List Char)} (h : ∀ field ∈ fields, Closed field) :
    Closed (canonicalObject fields) :=
  Closed.bracket (Or.inl rfl) (Or.inl rfl) (Closed.joinPieces h)

theorem closed_canonicalList {items : List (List Char)} (h : ∀ item ∈ items, Closed item) :
    Closed (canonicalList items) :=
  Closed.bracket (Or.inr rfl) (Or.inr rfl) (Closed.joinPieces h)

theorem closed_canonicalLabels (labels : Labels) : Closed (canonicalLabels labels) := by
  apply closed_canonicalObject
  intro field hfield
  rcases List.mem_map.mp hfield with ⟨entry, _, rfl⟩
  exact closed_canonicalField entry.1.toList (Closed.quote entry.2.toList)

theorem closed_canonicalRequirement (r : Requirement) : Closed (canonicalRequirement r) := by
  have hvalues : Closed (canonicalList (r.values.map fun v => Json.quote v.toList)) := by
    apply closed_canonicalList
    intro item hitem
    rcases List.mem_map.mp hitem with ⟨v, _, rfl⟩
    exact Closed.quote v.toList
  apply closed_canonicalObject
  intro field hfield
  simp only [List.mem_cons, List.not_mem_nil, or_false] at hfield
  rcases hfield with rfl | rfl | rfl
  · exact closed_canonicalField _ (Closed.quote r.key.toList)
  · exact closed_canonicalField _ (Closed.quote r.operator.toList)
  · exact closed_canonicalField _ hvalues

theorem closed_canonicalRequirements (rs : List Requirement) :
    Closed (canonicalRequirements rs) := by
  apply closed_canonicalList
  intro item hitem
  rcases List.mem_map.mp hitem with ⟨r, _, rfl⟩
  exact closed_canonicalRequirement r

theorem closed_of_mem_canonicalFields {s : Selector} {field : List Char}
    (h : field ∈ canonicalFields s) : Closed field := by
  rcases List.mem_append.mp h with hrequirements | hlabels
  · cases hrs : s.requirements with
    | none => simp [hrs] at hrequirements
    | some rs =>
        rw [hrs] at hrequirements
        rw [List.mem_singleton.mp hrequirements]
        exact closed_canonicalField _ (closed_canonicalRequirements rs)
  · cases hls : s.labels with
    | none => simp [hls] at hlabels
    | some labels =>
        rw [hls] at hlabels
        rw [List.mem_singleton.mp hlabels]
        exact closed_canonicalField _ (closed_canonicalLabels labels)

/-- What stands between the two outer brackets of a canonical text. -/
def canonicalInside (s : Option Selector) : List Char :=
  Text.joinPieces ',' (canonicalFields (s.getD blank))

theorem canonicalChars_eq (s : Option Selector) :
    canonicalChars s = '\x7b' :: (canonicalInside s ++ ['\x7d']) := rfl

theorem closed_canonicalInside (s : Option Selector) : Closed (canonicalInside s) :=
  Closed.joinPieces fun _ hfield => closed_of_mem_canonicalFields hfield

theorem closed_canonicalChars (s : Option Selector) : Closed (canonicalChars s) :=
  Closed.bracket (Or.inl rfl) (Or.inl rfl) (closed_canonicalInside s)

theorem canonicalChars_ne_nil (s : Option Selector) : canonicalChars s ≠ [] := by
  simp [canonicalChars_eq]

/-- A canonical text without fields is just two brackets, and the fields of any
other one begin with a mark and the letter of their name. -/
theorem canonicalInside_shape (s : Option Selector) :
    canonicalInside s = [] ∨ exists rest, canonicalInside s = Json.mark :: 'm' :: rest := by
  unfold canonicalInside canonicalFields
  cases (s.getD blank).requirements with
  | none =>
      cases (s.getD blank).labels with
      | none => exact Or.inl rfl
      | some labels => exact Or.inr ⟨_, rfl⟩
  | some rs =>
      cases (s.getD blank).labels with
      | none => exact Or.inr ⟨_, rfl⟩
      | some labels => exact Or.inr ⟨_, rfl⟩

/-- Behind a proper part of a canonical text some bracket is open. -/
theorem depth_pos_of_append_eq_canonicalChars {s : Option Selector} {front back : List Char}
    (h : front ++ back = canonicalChars s) (hfront : front ≠ []) (hback : back ≠ []) :
    exists n : Nesting, Nesting.start.read? front = some n ∧ 0 < n.depth := by
  cases front with
  | nil => cases hfront rfl
  | cons c inner =>
      rw [canonicalChars_eq, List.cons_append] at h
      injection h with hc hinner
      rw [← List.dropLast_concat_getLast hback, ← List.append_assoc] at hinner
      have hbody : inner ++ back.dropLast = canonicalInside s :=
        (List.append_inj' hinner rfl).1
      have hclosed : Nesting.start.read? (inner ++ back.dropLast) = some Nesting.start := by
        rw [hbody]
        exact closed_canonicalInside s
      rcases Nesting.read?_append_some hclosed with ⟨n, hn, _⟩
      have hopen : Nesting.start.step? c = some (Nesting.start.deeper 1) := by
        rw [hc]
        rfl
      refine ⟨n.deeper 1, ?_, Nat.succ_pos n.depth⟩
      rw [Nesting.read?_cons, hopen, Option.bind_some]
      exact Nesting.read?_deeper 1 hn

/-!
# Where a canonical text ends

Neither of two different canonical texts is the beginning of the other: at its
end no bracket is open.  Neither is the end of the other: a reader who has begun
the longer one stands inside a bracket, and either keeps that bracket open or
comes upon a bracket in an escape or a letter outside a quoted text.
-/

theorem depth_eq_zero_of_read?_canonicalChars {s : Option Selector} {n : Nesting}
    (h : n.read? (canonicalChars s) = some Nesting.start) : n.depth = 0 := by
  cases n with
  | mk depth place =>
      cases place with
      | between =>
          have hdeeper := Nesting.read?_deeper depth (closed_canonicalChars s)
          have hn : Nesting.start.deeper depth = ⟨depth, .between⟩ := by
            simp [Nesting.deeper, Nesting.start]
          rw [hn, h] at hdeeper
          injection hdeeper with hstart
          exact congrArg Nesting.depth hstart.symm
      | inQuote =>
          exfalso
          rw [canonicalChars_eq] at h
          rcases canonicalInside_shape s with hinside | ⟨rest, hinside⟩
          · rw [hinside] at h
            injection h with hplace
            injection hplace with _ hplace
            cases hplace
          · rw [hinside] at h
            cases h
      | inEscape =>
          cases h

theorem eq_nil_of_canonicalChars_append {a b : Option Selector} {w : List Char}
    (h : canonicalChars a ++ w = canonicalChars b) : w = [] := by
  cases w with
  | nil => rfl
  | cons c rest =>
      exfalso
      rcases depth_pos_of_append_eq_canonicalChars h (canonicalChars_ne_nil a) (by simp) with
        ⟨n, hn, hpos⟩
      rw [closed_canonicalChars a] at hn
      injection hn with hn
      rw [← hn] at hpos
      exact Nat.lt_irrefl 0 hpos

theorem eq_nil_of_append_canonicalChars {a b : Option Selector} {w : List Char}
    (h : w ++ canonicalChars a = canonicalChars b) : w = [] := by
  cases w with
  | nil => rfl
  | cons c rest =>
      exfalso
      rcases depth_pos_of_append_eq_canonicalChars h (by simp) (canonicalChars_ne_nil a) with
        ⟨n, hn, hpos⟩
      have hclosed := closed_canonicalChars b
      unfold Closed at hclosed
      rw [← h, Nesting.read?_append, hn, Option.bind_some] at hclosed
      rw [depth_eq_zero_of_read?_canonicalChars hclosed] at hpos
      exact Nat.lt_irrefl 0 hpos

theorem canonicalChars_append_inj {a b : Option Selector} {u v : List Char}
    (h : canonicalChars a ++ u = canonicalChars b ++ v) :
    canonicalChars a = canonicalChars b ∧ u = v := by
  rcases List.append_eq_append_iff.mp h with ⟨w, hb, hu⟩ | ⟨w, ha, hv⟩
  · have hw : w = [] := eq_nil_of_canonicalChars_append hb.symm
    subst hw
    exact ⟨by simpa using hb.symm, by simpa using hu⟩
  · have hw : w = [] := eq_nil_of_canonicalChars_append ha.symm
    subst hw
    exact ⟨by simpa using ha, by simpa using hv.symm⟩

theorem append_canonicalChars_inj {a b : Option Selector} {u v : List Char}
    (h : u ++ canonicalChars a = v ++ canonicalChars b) :
    u = v ∧ canonicalChars a = canonicalChars b := by
  rcases List.append_eq_append_iff.mp h with ⟨w, hv, ha⟩ | ⟨w, hu, hb⟩
  · have hw : w = [] := eq_nil_of_append_canonicalChars ha.symm
    subst hw
    exact ⟨by simpa using hv.symm, by simpa using ha⟩
  · have hw : w = [] := eq_nil_of_append_canonicalChars hb.symm
    subst hw
    exact ⟨by simpa using hu, by simpa using hb.symm⟩

end Selector
end TrafficGraph

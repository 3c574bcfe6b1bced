import TrafficGraph.Text.Quoted
import TrafficGraph.Json.Reader

/-!
# Quoted texts are read back

What is written between marks is read again as the text it was, whatever follows it.
So a quoted text tells where it ends, and quoted texts of different texts differ.
-/

namespace TrafficGraph

/-!
# Codes in hexadecimal digits
-/

namespace Text

theorem hexValue?_hexDigits {n : Nat} (h : n < 16) :
    hexValue? (hexDigits.getD n '0') = some n := by
  have hall : ∀ k : Fin 16, hexValue? (hexDigits.getD k.val '0') = some k.val := by decide
  exact hall ⟨n, h⟩

end Text

namespace Json

open Text

theorem fourHex?_hex {code : Nat} (h : code < 0x10000) (tail : List Char) :
    fourHex? (hex 4 code ++ tail) = some code := by
  have hdigit : ∀ n, hexValue? (hexDigits.getD (n % 16) '0') = some (n % 16) :=
    fun n => hexValue?_hexDigits (Nat.mod_lt n (by decide))
  have hspelled : hex 4 code ++ tail =
      hexDigits.getD (code / 16 / 16 / 16 % 16) '0' ::
        hexDigits.getD (code / 16 / 16 % 16) '0' ::
        hexDigits.getD (code / 16 % 16) '0' :: hexDigits.getD (code % 16) '0' :: tail := rfl
  rw [hspelled, fourHex?]
  simp only [hdigit, Option.some_inj]
  omega

theorem charOf_toNat (c : Char) : charOf c.toNat = c := by
  have hvalid : c.toNat.isValidChar := c.valid
  rw [charOf, if_pos hvalid, Char.ofNat_toNat]

theorem not_isHigh_toNat (c : Char) : isHigh c.toNat = false := by
  have hvalid : c.toNat < 0xD800 ∨ 0xDFFF < c.toNat ∧ c.toNat < 0x110000 := c.valid
  unfold isHigh
  rw [Bool.and_eq_false_iff, decide_eq_false_iff_not, decide_eq_false_iff_not]
  omega

/-!
# Characters
-/

variable {tail : List Char} (htail : tail ≠ [])

include htail

theorem readCode_codeUnit (c : Char) (h : c.toNat < 0x10000) (position : Nat) :
    readCode ⟨codeUnit c.toNat ++ tail, position⟩ = .ok (c, ⟨tail, position + 6⟩) := by
  have hdigits : (codeUnit c.toNat ++ tail).drop 2 = hex 4 c.toNat ++ tail := rfl
  have hafter : (hex 4 c.toNat ++ tail).drop 4 = tail := rfl
  have hlong : ¬ (hex 4 c.toNat ++ tail).length < 5 := by
    rw [List.length_append, length_hex]
    have := List.length_pos_iff.mpr htail
    omega
  unfold readCode
  simp only [hdigits, if_neg hlong, fourHex?_hex h, hafter, not_isHigh_toNat, Bool.false_and,
    charOf_toNat]
  rfl

theorem readCode_surrogates {high low : Nat} (hhigh : 0xD800 ≤ high ∧ high < 0xDC00)
    (hlow : 0xDC00 ≤ low ∧ low < 0xE000) (position : Nat) :
    readCode ⟨codeUnit high ++ (codeUnit low ++ tail), position⟩ =
      .ok (charOf (0x10000 + (high - 0xD800) * 0x400 + (low - 0xDC00)),
        ⟨tail, position + 12⟩) := by
  have hdigits : (codeUnit high ++ (codeUnit low ++ tail)).drop 2 =
      hex 4 high ++ (codeUnit low ++ tail) := rfl
  have hafter : (hex 4 high ++ (codeUnit low ++ tail)).drop 4 =
      '\\' :: 'u' :: (hex 4 low ++ tail) := rfl
  have hpos := List.length_pos_iff.mpr htail
  have hlong : ¬ (hex 4 high ++ (codeUnit low ++ tail)).length < 5 := by
    simp only [codeUnit, List.length_append, List.length_cons, length_hex]
    omega
  have hmore : 6 < ('\\' :: 'u' :: (hex 4 low ++ tail)).length := by
    simp only [List.length_append, List.length_cons, length_hex]
    omega
  have hisHigh : isHigh high = true := by
    unfold isHigh
    simp [hhigh]
  have hisLow : isLow low = true := by
    unfold isLow
    simp [hlow]
  have hhighBound : high < 0x10000 := by omega
  have hlowBound : low < 0x10000 := by omega
  have hhighCode := fourHex?_hex hhighBound (codeUnit low ++ tail)
  have hlowCode := fourHex?_hex hlowBound tail
  have hskip : Cursor.skip ⟨codeUnit high ++ (codeUnit low ++ tail), position⟩ 12 =
      ⟨tail, position + 12⟩ := rfl
  unfold readCode
  simp only [hdigits, if_neg hlong, hhighCode, hafter, hisHigh, hmore, decide_true,
    Bool.and_true, hlowCode, hisLow, if_true, hskip]

omit htail in
theorem surrogates_toNat {c : Char} (h : 0x10000 ≤ c.toNat) :
    (0xD800 ≤ 0xD800 + (c.toNat - 0x10000) / 0x400 ∧
        0xD800 + (c.toNat - 0x10000) / 0x400 < 0xDC00) ∧
      (0xDC00 ≤ 0xDC00 + (c.toNat - 0x10000) % 0x400 ∧
        0xDC00 + (c.toNat - 0x10000) % 0x400 < 0xE000) ∧
      0x10000 + (0xD800 + (c.toNat - 0x10000) / 0x400 - 0xD800) * 0x400 +
        (0xDC00 + (c.toNat - 0x10000) % 0x400 - 0xDC00) = c.toNat := by
  have hvalid : c.toNat < 0xD800 ∨ 0xDFFF < c.toNat ∧ c.toNat < 0x110000 := c.valid
  omega

omit htail in
/-- The ways to spell a character: a short escape, the character itself, one code unit, or
a pair of them. -/
theorem quoteChar_cases (c : Char) :
    (∃ e, shortEscape? e = some c ∧ quoteChar c = ['\\', e]) ∨
      (c ≠ mark ∧ c ≠ '\\' ∧ 0x20 ≤ c.toNat ∧ quoteChar c = [c]) ∨
      (c.toNat < 0x10000 ∧ quoteChar c = codeUnit c.toNat) ∨
      (0x10000 ≤ c.toNat ∧ quoteChar c = codeUnit (0xD800 + (c.toNat - 0x10000) / 0x400) ++
        codeUnit (0xDC00 + (c.toNat - 0x10000) % 0x400)) := by
  by_cases hshort : c ∈ [mark, '\\', '\n', '\r', '\t', '\x08', '\x0c']
  · left
    simp only [List.mem_cons, List.not_mem_nil, or_false] at hshort
    rcases hshort with rfl | rfl | rfl | rfl | rfl | rfl | rfl
    · exact ⟨mark, rfl, rfl⟩
    · exact ⟨'\\', rfl, rfl⟩
    · exact ⟨'n', rfl, rfl⟩
    · exact ⟨'r', rfl, rfl⟩
    · exact ⟨'t', rfl, rfl⟩
    · exact ⟨'b', rfl, rfl⟩
    · exact ⟨'f', rfl, rfl⟩
  · right
    simp only [List.mem_cons, List.not_mem_nil, or_false, not_or] at hshort
    simp only [quoteChar, hshort, or_self, if_false]
    by_cases hprintable : 0x20 ≤ c.toNat ∧ c.toNat < 0x7F
    · exact Or.inl ⟨hshort.1, hshort.2.1, hprintable.1, if_pos hprintable⟩
    · rw [if_neg hprintable]
      by_cases hunit : c.toNat < 0x10000
      · exact Or.inr (Or.inl ⟨hunit, if_pos hunit⟩)
      · exact Or.inr (Or.inr ⟨Nat.le_of_not_lt hunit, if_neg hunit⟩)

section Reader

variable (start fuel : Nat) (read : List Char) (position : Nat)

omit htail

theorem readString_short {e c : Char} (h : shortEscape? e = some c) :
    readString start (fuel + 1) read ⟨'\\' :: e :: tail, position⟩ =
      readString start fuel (c :: read) ⟨tail, position + 2⟩ := by
  have hu : e ≠ 'u' := by
    rintro rfl
    cases h
  rw [readString]
  split <;> rename_i hrest <;> cases hrest
  · exact absurd rfl hu
  · rw [h]
    rfl
  · rename_i hother
    exact absurd rfl (hother e tail rfl)

theorem readString_plain {c : Char} (hmark : c ≠ mark) (hback : c ≠ '\\') (h : 0x20 ≤ c.toNat) :
    readString start (fuel + 1) read ⟨c :: tail, position⟩ =
      readString start fuel (c :: read) ⟨tail, position + 1⟩ := by
  rw [readString]
  split <;> rename_i hrest <;> cases hrest
  · exact absurd rfl hmark
  · exact absurd rfl hback
  · exact absurd rfl hback
  · exact absurd rfl hback
  · rw [if_neg (Nat.not_lt.mpr h)]
    rfl

theorem readString_code {cs : List Char} {c : Char} {after : Cursor}
    (h : readCode ⟨'\\' :: 'u' :: cs, position⟩ = .ok (c, after)) :
    readString start (fuel + 1) read ⟨'\\' :: 'u' :: cs, position⟩ =
      readString start fuel (c :: read) after := by
  rw [readString]
  simp only [h]

end Reader

theorem readString_quoteChar (start fuel : Nat) (read : List Char) (c : Char) (position : Nat) :
    ∃ after, readString start (fuel + 1) read ⟨quoteChar c ++ tail, position⟩ =
      readString start fuel (c :: read) ⟨tail, after⟩ := by
  rcases quoteChar_cases c with ⟨e, he, hspelled⟩ | ⟨hmark, hback, hc, hspelled⟩ |
    ⟨hunit, hspelled⟩ | ⟨hunits, hspelled⟩
  · rw [hspelled]
    exact ⟨_, readString_short start fuel read position he⟩
  · rw [hspelled]
    exact ⟨_, readString_plain start fuel read position hmark hback hc⟩
  · rw [hspelled]
    exact ⟨_, readString_code start fuel read position (readCode_codeUnit htail c hunit position)⟩
  · rcases surrogates_toNat hunits with ⟨hhigh, hlow, hmeant⟩
    have hcode := readCode_surrogates htail hhigh hlow position
    rw [hmeant, charOf_toNat] at hcode
    rw [hspelled, List.append_assoc]
    exact ⟨_, readString_code start fuel read position hcode⟩

/-!
# Texts
-/

omit htail

/-- What is quoted is read back, and the reader stands behind the closing mark then. -/
theorem readString_quoted (start : Nat) (cs rest : List Char) {fuel : Nat} (h : cs.length < fuel)
    (read : List Char) (position : Nat) :
    ∃ after, readString start fuel read ⟨cs.flatMap quoteChar ++ mark :: rest, position⟩ =
      .ok (String.ofList (read.reverse ++ cs), ⟨rest, after⟩) := by
  induction cs generalizing fuel read position with
  | nil =>
      cases fuel with
      | zero => cases h
      | succ fuel =>
          rw [List.append_nil]
          exact ⟨position + 1, rfl⟩
  | cons c more ih =>
      cases fuel with
      | zero => cases h
      | succ fuel =>
          have htail : more.flatMap quoteChar ++ mark :: rest ≠ [] := by simp
          rcases readString_quoteChar htail start fuel read c position with ⟨between, hc⟩
          rcases ih (Nat.lt_of_succ_lt_succ h) (c :: read) between with ⟨after, hmore⟩
          refine ⟨after, ?_⟩
          rw [List.flatMap_cons, List.append_assoc, hc, hmore, List.reverse_cons,
            List.append_assoc]
          rfl

theorem quote_append_inj {cs ds u v : List Char} (h : quote cs ++ u = quote ds ++ v) :
    cs = ds ∧ u = v := by
  have hinside : cs.flatMap quoteChar ++ mark :: u = ds.flatMap quoteChar ++ mark :: v := by
    simpa [quote] using h
  have hfuel : cs.length < cs.length + ds.length + 1 ∧ ds.length < cs.length + ds.length + 1 := by
    omega
  rcases readString_quoted 0 cs u hfuel.1 [] 0 with ⟨after, hcs⟩
  rcases readString_quoted 0 ds v hfuel.2 [] 0 with ⟨after', hds⟩
  rw [hinside, hds] at hcs
  injection hcs with hread
  injection hread with htext hcursor
  injection hcursor with hrest _
  exact ⟨(String.ofList_injective htext).symm, hrest.symm⟩

end Json
end TrafficGraph

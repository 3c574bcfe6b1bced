import TrafficGraph.Text.Utf8

/-!
# Reading UTF-8 back

Every text is read back from its bytes.  The first byte of a character tells how many there
are, and each byte after it carries six bits of the code.
-/

namespace TrafficGraph
namespace Text
namespace Utf8

/-!
# Characters by their number of bytes
-/

section Bytes

variable {b₀ b₁ b₂ b₃ : UInt8} {x y z : Nat}

theorem decode_one (h : b₀.toNat < 0x80) (rest : List UInt8) :
    decode (b₀ :: rest) = (decode rest).map (Char.ofNat b₀.toNat :: ·) := by
  rw [decode.eq_def]
  simp only
  rw [if_pos h]

theorem decode_two (hfirst : 0xC2 ≤ b₀.toNat ∧ b₀.toNat < 0xE0) (hx : continuation? b₁ = some x)
    (rest : List UInt8) :
    decode (b₀ :: b₁ :: rest) =
      (scalar? 0x80 ((b₀.toNat - 0xC0) * 64 + x)).bind fun c => (decode rest).map (c :: ·) := by
  rw [decode.eq_def]
  simp only
  rw [if_neg (by omega), if_neg (by omega), if_pos hfirst.2, hx]

theorem decode_three (hfirst : 0xE0 ≤ b₀.toNat ∧ b₀.toNat < 0xF0)
    (hx : continuation? b₁ = some x) (hy : continuation? b₂ = some y) (rest : List UInt8) :
    decode (b₀ :: b₁ :: b₂ :: rest) =
      (scalar? 0x800 (((b₀.toNat - 0xE0) * 64 + x) * 64 + y)).bind fun c =>
        (decode rest).map (c :: ·) := by
  rw [decode.eq_def]
  simp only
  rw [if_neg (by omega), if_neg (by omega), if_neg (by omega), if_pos hfirst.2, hx, hy]

theorem decode_four (hfirst : 0xF0 ≤ b₀.toNat) (hx : continuation? b₁ = some x)
    (hy : continuation? b₂ = some y) (hz : continuation? b₃ = some z) (rest : List UInt8) :
    decode (b₀ :: b₁ :: b₂ :: b₃ :: rest) =
      (scalar? 0x10000 ((((b₀.toNat - 0xF0) * 64 + x) * 64 + y) * 64 + z)).bind fun c =>
        (decode rest).map (c :: ·) := by
  rw [decode.eq_def]
  simp only
  rw [if_neg (by omega), if_neg (by omega), if_neg (by omega), if_neg (by omega), hx, hy, hz]

end Bytes

/-!
# Bytes of a character
-/

theorem toNat_ofNat_of_lt {n : Nat} (h : n < 256) : (UInt8.ofNat n).toNat = n := by
  rw [UInt8.toNat_ofNat', Nat.mod_eq_of_lt h]

theorem continuation?_ofNat {x : Nat} (h : x < 64) :
    continuation? (UInt8.ofNat (0x80 + x)) = some x := by
  rw [continuation?, toNat_ofNat_of_lt (by omega), if_pos (by omega), Nat.add_sub_cancel_left]

theorem scalar?_toNat {least : Nat} {c : Char} (h : least ≤ c.toNat) :
    scalar? least c.toNat = some c := by
  have hvalid : c.toNat.isValidChar := c.valid
  rw [scalar?, if_pos h, dif_pos hvalid]
  rfl

theorem toNat_lt (c : Char) : c.toNat < 0x110000 := by
  have hvalid : c.toNat.isValidChar := c.valid
  unfold Nat.isValidChar at hvalid
  omega

theorem decode_encodeChar_append (c : Char) (bytes : List UInt8) :
    decode (encodeChar c ++ bytes) = (decode bytes).map (c :: ·) := by
  have hlt := toNat_lt c
  unfold encodeChar
  simp only
  split
  · rename_i hone
    have hfirst := toNat_ofNat_of_lt (show c.toNat < 256 by omega)
    rw [List.cons_append, decode_one (by omega), hfirst, Char.ofNat_toNat]
    rfl
  · split
    · rename_i hone htwo
      have hfirst := toNat_ofNat_of_lt (show 0xC0 + c.toNat / 64 < 256 by omega)
      have hcode : (0xC0 + c.toNat / 64 - 0xC0) * 64 + c.toNat % 64 = c.toNat := by omega
      rw [List.cons_append, List.cons_append,
        decode_two (by omega) (continuation?_ofNat (by omega)), hfirst, hcode,
        scalar?_toNat (by omega)]
      rfl
    · split
      · rename_i hone htwo hthree
        have hfirst := toNat_ofNat_of_lt (show 0xE0 + c.toNat / 4096 < 256 by omega)
        have hcode : ((0xE0 + c.toNat / 4096 - 0xE0) * 64 + c.toNat / 64 % 64) * 64 +
            c.toNat % 64 = c.toNat := by omega
        rw [List.cons_append, List.cons_append, List.cons_append,
          decode_three (by omega) (continuation?_ofNat (by omega))
            (continuation?_ofNat (by omega)), hfirst, hcode, scalar?_toNat (by omega)]
        rfl
      · rename_i hone htwo hthree
        have hfirst := toNat_ofNat_of_lt (show 0xF0 + c.toNat / 262144 < 256 by omega)
        have hcode : (((0xF0 + c.toNat / 262144 - 0xF0) * 64 + c.toNat / 4096 % 64) * 64 +
            c.toNat / 64 % 64) * 64 + c.toNat % 64 = c.toNat := by omega
        rw [List.cons_append, List.cons_append, List.cons_append, List.cons_append,
          decode_four (by omega) (continuation?_ofNat (by omega))
            (continuation?_ofNat (by omega)) (continuation?_ofNat (by omega)), hfirst, hcode,
          scalar?_toNat (by omega)]
        rfl

theorem decode_encode (cs : List Char) : decode (encode cs) = some cs := by
  induction cs with
  | nil => rfl
  | cons c rest ih =>
      rw [encode, List.flatMap_cons, decode_encodeChar_append]
      show (decode (encode rest)).map (c :: ·) = some (c :: rest)
      rw [ih, Option.map_some]

end Utf8
end Text
end TrafficGraph

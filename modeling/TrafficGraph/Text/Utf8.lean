/-!
# UTF-8

Bytes are read as text one character at a time.  The reader refuses a stray
or missing continuation byte, a character written longer than it needs, a
surrogate, and a code beyond the last code point.
-/

namespace TrafficGraph
namespace Text
namespace Utf8

def continuation? (b : UInt8) : Option Nat :=
  if 0x80 ≤ b.toNat ∧ b.toNat < 0xC0 then some (b.toNat - 0x80) else none

/-- The character of a code, if the code is a scalar value that is not below
`least`, the first one that needs so many bytes. -/
def scalar? (least code : Nat) : Option Char :=
  if least ≤ code then
    if h : code.isValidChar then some (Char.ofNatAux code h) else none
  else none

def decode : List UInt8 → Option (List Char)
  | [] => some []
  | b₀ :: rest =>
    if b₀.toNat < 0x80 then
      (decode rest).map (Char.ofNat b₀.toNat :: ·)
    else
      match rest with
      | [] => none
      | b₁ :: rest =>
        if b₀.toNat < 0xC2 then none
        else if b₀.toNat < 0xE0 then
          match continuation? b₁ with
          | some x =>
            (scalar? 0x80 ((b₀.toNat - 0xC0) * 64 + x)).bind fun c => (decode rest).map (c :: ·)
          | none => none
        else
          match rest with
          | [] => none
          | b₂ :: rest =>
            if b₀.toNat < 0xF0 then
              match continuation? b₁, continuation? b₂ with
              | some x, some y =>
                (scalar? 0x800 (((b₀.toNat - 0xE0) * 64 + x) * 64 + y)).bind fun c =>
                  (decode rest).map (c :: ·)
              | _, _ => none
            else
              match rest with
              | [] => none
              | b₃ :: rest =>
                match continuation? b₁, continuation? b₂, continuation? b₃ with
                | some x, some y, some z =>
                  (scalar? 0x10000 ((((b₀.toNat - 0xF0) * 64 + x) * 64 + y) * 64 + z)).bind
                    fun c => (decode rest).map (c :: ·)
                | _, _, _ => none

def encodeChar (c : Char) : List UInt8 :=
  let code := c.toNat
  if code < 0x80 then [UInt8.ofNat code]
  else if code < 0x800 then
    [UInt8.ofNat (0xC0 + code / 64), UInt8.ofNat (0x80 + code % 64)]
  else if code < 0x10000 then
    [UInt8.ofNat (0xE0 + code / 4096), UInt8.ofNat (0x80 + code / 64 % 64),
      UInt8.ofNat (0x80 + code % 64)]
  else
    [UInt8.ofNat (0xF0 + code / 262144), UInt8.ofNat (0x80 + code / 4096 % 64),
      UInt8.ofNat (0x80 + code / 64 % 64), UInt8.ofNat (0x80 + code % 64)]

def encode (cs : List Char) : List UInt8 :=
  cs.flatMap encodeChar

example : decode (encode "aé→😀".toList) = some "aé→😀".toList := by decide +kernel
example : decode [0xED, 0xA0, 0x80] = none := by decide +kernel

end Utf8
end Text
end TrafficGraph

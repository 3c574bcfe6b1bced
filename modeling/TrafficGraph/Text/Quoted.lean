import TrafficGraph.Text.Characters
import TrafficGraph.Text.Numeral

/-!
# Quoted text

Inside a list or a message a text is shown between quotation marks: single
ones, unless it holds a single mark and no double one.  A backslash and the
chosen mark are written after a backslash, the tab and the two line controls
by their letters, and any other character that is not printable by its code
in two, four or eight hexadecimal digits.
-/

namespace TrafficGraph
namespace Text

def singleMark : Char := '\x27'

def doubleMark : Char := '\x22'

def quoteMark (cs : List Char) : Char :=
  if cs.contains singleMark && !cs.contains doubleMark then doubleMark else singleMark

/-- The code of a character after a backslash, as short as its size allows. -/
def escapeCode (code : Nat) : List Char :=
  if code < 0x100 then '\\' :: 'x' :: hex 2 code
  else if code < 0x10000 then '\\' :: 'u' :: hex 4 code
  else '\\' :: 'U' :: hex 8 code

def quoteChar (mark : Char) (c : Char) : List Char :=
  if c = mark ∨ c = '\\' then ['\\', c]
  else if c = '\t' then ['\\', 't']
  else if c = '\n' then ['\\', 'n']
  else if c = '\r' then ['\\', 'r']
  else if isPrintable c then [c]
  else escapeCode c.toNat

def quote (cs : List Char) : List Char :=
  quoteMark cs :: (cs.flatMap (quoteChar (quoteMark cs)) ++ [quoteMark cs])

def quoteByte (mark : Char) (b : UInt8) : List Char :=
  if b.toNat < 0x80 ∧ (0x20 ≤ b.toNat ∨ b = 9 ∨ b = 10 ∨ b = 13) ∧ b.toNat ≠ 0x7F then
    quoteChar mark (Char.ofNat b.toNat)
  else escapeCode b.toNat

def quoteBytes (bytes : List UInt8) : List Char :=
  let mark := quoteMark (bytes.map fun b => Char.ofNat b.toNat)
  'b' :: mark :: (bytes.flatMap (quoteByte mark) ++ [mark])

def quoted (s : String) : String :=
  String.ofList (quote s.toList)

def quotedList (texts : List String) : String :=
  "[" ++ ", ".intercalate (texts.map quoted) ++ "]"

example : quoted "a'b" = "\"a'b\"" := by decide +kernel
example : quoted "a\nb\\" = "'a\\nb\\\\'" := by decide +kernel
example : quotedList ["p", "q"] = "['p', 'q']" := by decide +kernel

end Text
end TrafficGraph

/-!
# Quoted interchange text

Between double quotation marks a text is written in plain ASCII.  The mark,
the backslash and five controls have a short escape; every other character
outside the printable ASCII range is written by its code in four hexadecimal
digits, and one beyond the first plane by the two codes of its surrogates.
-/

namespace TrafficGraph
namespace Json

open Text

def mark : Char := '\x22'

def codeUnit (code : Nat) : List Char := '\\' :: 'u' :: hex 4 code

def quoteChar (c : Char) : List Char :=
  if c = mark ∨ c = '\\' then ['\\', c]
  else if c = '\n' then ['\\', 'n']
  else if c = '\r' then ['\\', 'r']
  else if c = '\t' then ['\\', 't']
  else if c = '\x08' then ['\\', 'b']
  else if c = '\x0c' then ['\\', 'f']
  else if 0x20 ≤ c.toNat ∧ c.toNat < 0x7F then [c]
  else if c.toNat < 0x10000 then codeUnit c.toNat
  else
    codeUnit (0xD800 + (c.toNat - 0x10000) / 0x400) ++
      codeUnit (0xDC00 + (c.toNat - 0x10000) % 0x400)

def quote (cs : List Char) : List Char :=
  mark :: (cs.flatMap quoteChar ++ [mark])

def quoted (s : String) : String :=
  String.ofList (quote s.toList)

example : quoted "a\"é\x7f" = "\"a\\\"\\u00e9\\u007f\"" := by decide +kernel
example : quoted "😀" = "\"\\ud83d\\ude00\"" := by decide +kernel

end Json
end TrafficGraph

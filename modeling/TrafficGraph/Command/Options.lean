/-!
# Options of a command

The arguments of a command are options and words.  An option is given by its
long name behind two hyphens, or by its letter behind one; letters can stand
together behind one hyphen.  The value of an option follows an equality sign
behind the long name, follows its letter, or is the next argument whatever that
looks like.  Two hyphens alone make words of all arguments that follow.

A command with interspersed options reads options behind words, too; any other
one reads no options behind its first word.
-/

namespace TrafficGraph

/-- What giving an option means: something at once, or something that depends
on a value. -/
inductive OptionMeaning (α : Type) where
  | flag (meaning : α)
  | value (meaning : String → α)

structure OptionForm (α : Type) where
  name : String
  letter : Option Char
  meaning : OptionMeaning α

/-- What is known after reading an argument: the meanings of the options in it,
and what the next argument means if it is the value of the last one. -/
structure OptionScan (α : Type) where
  found : List α
  awaited : Option (String → α)

/-- The options and the words among some arguments, each in order. -/
structure ParsedArguments (α : Type) where
  options : List α
  words : List String

namespace OptionScan

variable {α : Type}

/-- The meaning of the option of a name, from a text behind an equality sign if
there is one.  A value where none is taken is refused. -/
def long? (forms : List (OptionForm α)) (name : List Char) (attached : Option (List Char)) :
    Option (OptionScan α) :=
  match forms.find? fun form => form.name.toList == name with
  | none => none
  | some form =>
    match form.meaning, attached with
    | .flag meaning, none => some ⟨[meaning], none⟩
    | .flag _, some _ => none
    | .value meaning, some value => some ⟨[meaning (String.ofList value)], none⟩
    | .value meaning, none => some ⟨[], some meaning⟩

/-- The meanings of letters that stand together.  What follows the letter of an
option with a value is the value. -/
def letters? (forms : List (OptionForm α)) : List Char → Option (OptionScan α)
  | [] => some ⟨[], none⟩
  | c :: rest =>
    match forms.find? fun form => form.letter == some c with
    | none => none
    | some form =>
      match form.meaning with
      | .flag meaning =>
        (letters? forms rest).map fun scan => { scan with found := meaning :: scan.found }
      | .value meaning =>
        if rest.isEmpty then some ⟨[], some meaning⟩
        else some ⟨[meaning (String.ofList rest)], none⟩

/-- The name in front of the first equality sign, and what is behind it. -/
def splitValue (cs : List Char) : List Char × Option (List Char) :=
  match cs.dropWhile (· != '=') with
  | [] => (cs, none)
  | _ :: value => (cs.takeWhile (· != '='), some value)

/-- Read what follows the first hyphen of an argument. -/
def read? (forms : List (OptionForm α)) : List Char → Option (OptionScan α)
  | '-' :: cs => long? forms (splitValue cs).1 (splitValue cs).2
  | cs => letters? forms cs

end OptionScan

namespace ParsedArguments

variable {α : Type}

def ofWords (words : List String) : ParsedArguments α := ⟨[], words⟩

def addOptions (found : List α) (parsed : ParsedArguments α) : ParsedArguments α :=
  { parsed with options := found ++ parsed.options }

def addWord (word : String) (parsed : ParsedArguments α) : ParsedArguments α :=
  { parsed with words := word :: parsed.words }

/-- Parse arguments, the first of which is a value if one is awaited. -/
def parseFrom (forms : List (OptionForm α)) (interspersed : Bool) :
    Option (String → α) → List String → Option (ParsedArguments α)
  | some _, [] => none
  | none, [] => some (ofWords [])
  | some meaning, value :: rest =>
    (parseFrom forms interspersed none rest).map (addOptions [meaning value])
  | none, argument :: rest =>
    match argument.toList with
    | '-' :: '-' :: [] => some (ofWords rest)
    | '-' :: c :: cs =>
      (OptionScan.read? forms (c :: cs)).bind fun scan =>
        (parseFrom forms interspersed scan.awaited rest).map (addOptions scan.found)
    | _ =>
      if interspersed then (parseFrom forms interspersed none rest).map (addWord argument)
      else some (ofWords (argument :: rest))

def parse? (forms : List (OptionForm α)) (interspersed : Bool) (arguments : List String) :
    Option (ParsedArguments α) :=
  parseFrom forms interspersed none arguments

end ParsedArguments
end TrafficGraph

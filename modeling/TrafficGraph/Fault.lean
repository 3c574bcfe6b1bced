import TrafficGraph.Calendar
import TrafficGraph.Json.Printer
import TrafficGraph.Json.Reader
import TrafficGraph.Text.Numeral
import TrafficGraph.Text.Quoted

/-!
# Faults of a document

A document is either no valid YAML, or it is valid and one of its scalars
cannot be converted to the value that its form announces.
-/

namespace TrafficGraph
namespace Yaml

inductive ConversionFault where
  /-- The fields of a date or a time are out of range. -/
  | calendar (fault : CalendarFault)
  /-- A text is no whole number in a base. -/
  | notAnInteger (base : Nat) (given : String)
  /-- A decimal numeral has too many digits. -/
  | tooManyDigits (count : Nat)
  /-- A text is no decimal fraction. -/
  | notAFraction (given : String)
  /-- A code is beyond the last code point. -/
  | noCharacter
  /-- A text is no truth value. -/
  | notATruthValue (given : String)
  /-- A text is no date. -/
  | notADate
  /-- A number has no digits at all. -/
  | emptyNumber
  /-- A whole number has too many digits to be written. -/
  | tooLongToWrite
  deriving DecidableEq, Repr

inductive Fault where
  | invalid
  | conversion (fault : ConversionFault)
  deriving DecidableEq, Repr

end Yaml
end TrafficGraph

/-!
# Faults

Everything that can go wrong, as a cause.  Some causes have a wording for the
user; the others stand for a request that makes no sense of its operand.
-/

namespace TrafficGraph

inductive Fault where
  /-- A document of a manifest, counted from zero, is not valid, as a message tells. -/
  | invalidDocument (index : Nat) (message : String)
  /-- A scalar of a document cannot be converted. -/
  | conversion (fault : Yaml.ConversionFault)
  /-- A word is not one of those of a kind. -/
  | unknownWord (given : String) (kind : String)
  /-- A field is missing. -/
  | missingField (field : String)
  /-- A text is not valid interchange text. -/
  | invalidJson (message : String)
  /-- A value cannot be written as interchange text. -/
  | unwritable (fault : Json.WriteFault)
  /-- A numeral is no whole number. -/
  | notAnInteger (given : String)
  /-- Something that is no record was asked for a field. -/
  | notARecord
  /-- Something that is no text was joined to texts. -/
  | notAText
  /-- Something that is no list was gone through. -/
  | notAList
  /-- Bytes are not UTF-8. -/
  | notUtf8
  /-- A directory was read as a file. -/
  | aDirectory
  /-- The home directory cannot be told. -/
  | noHome
  /-- A value that contains itself was gone through to its end. -/
  | endless
  /-- The markup of a notice makes no sense to the console. -/
  | badMarkup
  deriving DecidableEq

namespace Fault

def integerMessage (base : Nat) (given : String) : String :=
  "invalid literal for int() with base " ++ toString base ++ ": " ++
    String.ofList ((Text.quote given.toList).take 200)

def digitsMessage (count : Nat) : String :=
  "Exceeds the limit (" ++ toString Text.maxDigits ++
    " digits) for integer string conversion: value has " ++ toString count ++
    " digits; use sys.set_int_max_str_digits() to increase the limit"

def writingMessage : String :=
  "Exceeds the limit (" ++ toString Text.maxDigits ++
    " digits) for integer string conversion; use sys.set_int_max_str_digits() to increase the limit"

def documentMessage (index : Nat) (message : String) : String :=
  "Document " ++ toString index ++ " is not valid YAML: " ++ message

def conversionMessage? : Yaml.ConversionFault → Option String
  | .calendar fault => some fault.message
  | .notAnInteger base given => some (integerMessage base given)
  | .tooManyDigits count => some (digitsMessage count)
  | .notAFraction given => some ("could not convert string to float: " ++ Text.quoted given)
  | .noCharacter => some "chr() arg not in range(0x110000)"
  | .notATruthValue given => some (Text.quoted given)
  | .notADate => none
  | .emptyNumber => none
  | .tooLongToWrite => some writingMessage

def message? : Fault → Option String
  | .invalidDocument index message => some (documentMessage index message)
  | .conversion fault => conversionMessage? fault
  | .unknownWord given kind => some (given ++ " is not a valid " ++ kind)
  | .missingField field => some (Text.quoted field)
  | .invalidJson message => some message
  | .unwritable .circular => some "Circular reference detected"
  | .unwritable .notFinite => some "Out of range float values are not JSON compliant"
  | .unwritable .noForm => none
  | .unwritable .tooLong => some writingMessage
  | .notAnInteger given => some (integerMessage 10 given)
  | .notARecord => none
  | .notAText => none
  | .notAList => none
  | .notUtf8 => none
  | .aDirectory => none
  | .noHome => none
  | .endless => none
  | .badMarkup => none

end Fault
end TrafficGraph

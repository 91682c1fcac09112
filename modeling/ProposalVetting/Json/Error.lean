import ProposalVetting.Json.Reading
import ProposalVetting.Text.Quoted

namespace ProposalVetting.Json
open ProposalVetting.Text

/-- What was met where something else was wanted. -/
inductive Found where
  | null
  | bool (value : Bool)
  | number (value : Number)
  | text (value : String)
  | sequence
  | map
deriving DecidableEq, Repr

def Found.message : Found → String
  | null => "null"
  | bool b => "boolean `" ++ (if b then "true" else "false") ++ "`"
  | number (.integer n) => "integer `" ++ toString n ++ "`"
  | number x => "floating point `" ++ x.text ++ "`"
  | text s => "string " ++ Quoted.text s
  | sequence => "sequence"
  | map => "map"

inductive Error where
  | fault (f : Fault)
  | missingField (name : String)
  | duplicateField (name : String)
  | unknownField (name : String) (known : List String)
  | unknownVariant (tag : String) (known : List String)
  | invalidType (found : Found) (wanted : String)
  | invalidValue (found : Found) (wanted : String)
  | invalidLength (length : Nat) (wanted : String)
  | noAlternative (name : String)
  | overflow (name : String)
deriving DecidableEq, Repr

def quoteName (name : String) : String := "`" ++ name ++ "`"

/-- The names that would have been accepted. -/
def choices : List String → String
  | [a, b] => quoteName a ++ " or " ++ quoteName b
  | [a] => quoteName a
  | names => "one of " ++ ", ".intercalate (names.map quoteName)

def Error.message : Error → String
  | fault .unfinished => "<eof>"
  | fault .malformed => "<syntax>"
  | missingField name => "missing field " ++ quoteName name
  | duplicateField name => "duplicate field " ++ quoteName name
  | unknownField name known => "unknown field " ++ quoteName name ++ ", expected " ++ choices known
  | unknownVariant tag known =>
    "unknown variant " ++ quoteName tag ++ ", expected " ++ choices known
  | invalidType found wanted => "invalid type: " ++ found.message ++ ", expected " ++ wanted
  | invalidValue found wanted => "invalid value: " ++ found.message ++ ", expected " ++ wanted
  | invalidLength length wanted => "invalid length " ++ toString length ++ ", expected " ++ wanted
  | noAlternative name => "data did not match any variant of untagged enum " ++ name
  | overflow name => "overflow deserializing " ++ name

abbrev Result (α : Type) := Except Error α

def Result.fault (f : Fault) : Result α := .error (.fault f)

end ProposalVetting.Json

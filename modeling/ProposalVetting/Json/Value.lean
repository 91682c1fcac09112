import ProposalVetting.Decimal.Shortest

namespace ProposalVetting
open Decimal

inductive Json.Number where
  | integer (value : Int)
  | float (negative : Bool) (magnitude : Double)
deriving DecidableEq, Repr

inductive Json where
  | null
  | bool (value : Bool)
  | number (value : Json.Number)
  | text (value : String)
  | array (items : List Json)
  | object (members : List (String × Json))

namespace Json

def Number.text : Number → String
  | integer n => toString n
  | float negative x => (if negative then "-" else "") ++ x.text

def natural (n : Nat) : Json := .number (.integer n)

def strings (items : List String) : Json := .array (items.map .text)

def optional (f : α → Json) : Option α → Json
  | none => .null
  | some a => f a

end Json
end ProposalVetting

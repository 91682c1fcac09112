import ProposalVetting.Json.Text
import ProposalVetting.Json.Value

namespace ProposalVetting.Json

mutual

def compact : Json → List Char
  | .null => ['n', 'u', 'l', 'l']
  | .bool true => ['t', 'r', 'u', 'e']
  | .bool false => ['f', 'a', 'l', 's', 'e']
  | .number n => n.text.toList
  | .text s => Text.write s
  | .array [] => ['[', ']']
  | .array (v :: items) => '[' :: compact v ++ compactItems items
  | .object [] => ['\x7b', '\x7d']
  | .object ((k, v) :: members) =>
    '\x7b' :: Text.write k ++ ':' :: compact v ++ compactMembers members

/-- The items behind the first, and the bracket. -/
def compactItems : List Json → List Char
  | [] => [']']
  | v :: items => ',' :: compact v ++ compactItems items

def compactMembers : List (String × Json) → List Char
  | [] => ['\x7d']
  | (k, v) :: members => ',' :: Text.write k ++ ':' :: compact v ++ compactMembers members

end

def newline (depth : Nat) : List Char := '\n' :: List.replicate (2 * depth) ' '

mutual

/-- The indented form, `depth` levels deep. -/
def indented (depth : Nat) : Json → List Char
  | .null => ['n', 'u', 'l', 'l']
  | .bool true => ['t', 'r', 'u', 'e']
  | .bool false => ['f', 'a', 'l', 's', 'e']
  | .number n => n.text.toList
  | .text s => Text.write s
  | .array [] => ['[', ']']
  | .array (v :: items) =>
    '[' :: newline (depth + 1) ++ indented (depth + 1) v ++ indentedItems depth items
  | .object [] => ['\x7b', '\x7d']
  | .object ((k, v) :: members) =>
    '\x7b' :: newline (depth + 1) ++ Text.write k ++ ':' :: ' ' :: indented (depth + 1) v ++
      indentedMembers depth members

def indentedItems (depth : Nat) : List Json → List Char
  | [] => newline depth ++ [']']
  | v :: items => ',' :: newline (depth + 1) ++ indented (depth + 1) v ++ indentedItems depth items

def indentedMembers (depth : Nat) : List (String × Json) → List Char
  | [] => newline depth ++ ['\x7d']
  | (k, v) :: members =>
    ',' :: newline (depth + 1) ++ Text.write k ++ ':' :: ' ' :: indented (depth + 1) v ++
      indentedMembers depth members

end

def write (v : Json) : String := String.ofList v.compact

def writeIndented (v : Json) : String := String.ofList (v.indented 0)

end ProposalVetting.Json

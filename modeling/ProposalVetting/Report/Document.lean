import ProposalVetting.Account.Document
import ProposalVetting.Report

namespace ProposalVetting
open Json

namespace AddressReport

def document (r : AddressReport) : Json :=
  .object <| ("address", .text r.address) ::
    match r.outcome with
    | .classified category => [("status", .text "classified"), ("category", category.document)]
    | .unclassified reason => [("status", .text "unclassified"), ("reason", .text reason)]

inductive Status where
  | classified
  | unclassified
deriving DecidableEq, Repr

def found : Json → Found
  | .null => .null
  | .bool b => .bool b
  | .number n => .number n
  | .text s => .text s
  | .array _ => .sequence
  | .object _ => .map

def Status.tags : List (String × Status) :=
  [("classified", .classified), ("unclassified", .unclassified)]

/-- A status may be given by its name or by its number. -/
def Status.ofJson : Json → Result Status
  | .text tag => Decode.choose Status.tags tag
  | .number (.integer n) =>
    if n = 0 then .ok .classified
    else if n = 1 then .ok .unclassified
    else if 0 ≤ n then .error (.invalidValue (.number (.integer n)) "variant index 0 <= i < 2")
    else .error (.invalidType (.number (.integer n)) "variant identifier")
  | v => .error (.invalidType (found v) "variant identifier")

def categoryOfJson : Json → Result Category
  | .text tag => Decode.choose Category.tags tag
  | .object [(tag, v)] => do
    let category ← Decode.choose Category.tags tag
    match v with
    | .null | .object [] => return category
    | v => .error (.invalidType (found v) "unit")
  | .object _ => .error (.invalidValue .map "map with a single key")
  | v => .error (.invalidType (found v) "string or map")

def textOfJson : Json → Result String
  | .text s => .ok s
  | v => .error (.invalidType (found v) "a string")

/-- The value of the only member of that name, read where it stands. -/
def single (name : String) (decode : Json → Result α) (members : List (String × Json)) :
    Result α := do
  let found ← members.foldlM (fun (found : Option α) m =>
    if m.1 ≠ name then .ok found
    else if found.isSome then .error (.duplicateField name)
    else some <$> decode m.2) none
  Decode.required name found

def outcomeOf (members : List (String × Json)) : Result Outcome := do
  match ← single "status" Status.ofJson members with
  | .classified => .classified <$> single "category" categoryOfJson members
  | .unclassified => .unclassified <$> single "reason" textOfJson members

/-- The address and all other members, which may be `levels` deep. -/
def gather (levels : Nat) (address : Option String) :
    Members → Result (Option String × List (String × Json))
  | .closed => .ok (address, [])
  | .stray _ found => .fault found.nameFault
  | .member none _ _ => .fault .malformed
  | .member (some name) value rest =>
    if name = "address" then do gather levels (← Decode.once name address Decode.text value) rest
    else do
      let v ← value.value levels
      let (address, vs) ← gather levels address rest
      return (address, (name, v) :: vs)

/-- `depth` counts the lists and objects around and including the address report. -/
def decode (depth : Nat) : Reading → Result AddressReport
  | .object ms => do
    let (address, members) ← gather (nestingLimit - depth) none ms
    let address ← Decode.required "address" address
    return ⟨address, ← outcomeOf members⟩
  | r => r.mismatch "struct AddressReport"

end AddressReport

namespace Report

def document (r : Report) : Json :=
  .object
    [("name", .text r.name),
     ("info", .strings r.info),
     ("warnings", .strings r.warnings),
     ("errors", .strings r.errors),
     ("addresses", .array (r.addresses.map AddressReport.document))]

structure Draft where
  name : Option String := none
  info : Option (List String) := none
  warnings : Option (List String) := none
  errors : Option (List String) := none
  addresses : Option (List AddressReport) := none

open Decode in
def Draft.read (name : String) (d : Draft) (r : Reading) : Result Draft :=
  match name with
  | "name" => return { d with name := ← once name d.name Decode.text r }
  | "info" => return { d with info := ← once name d.info (list Decode.text) r }
  | "warnings" => return { d with warnings := ← once name d.warnings (list Decode.text) r }
  | "errors" => return { d with errors := ← once name d.errors (list Decode.text) r }
  | "addresses" =>
    return { d with addresses := ← once name d.addresses (list (AddressReport.decode 3)) r }
  | _ => return d

open Decode in
def Draft.finish (d : Draft) : Result Report := do
  return {
    name := ← required "name" d.name
    info := ← required "info" d.info
    warnings := ← required "warnings" d.warnings
    errors := ← required "errors" d.errors
    addresses := ← required "addresses" d.addresses }

def layout : Layout Draft where
  name := "CheckReport"
  fields := ["name", "info", "warnings", "errors", "addresses"]
  needed := 5
  read := Draft.read

def decode : Reading → Result Report := layout.decode {} Draft.finish

end Report
end ProposalVetting

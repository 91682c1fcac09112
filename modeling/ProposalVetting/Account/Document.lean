import ProposalVetting.Account
import ProposalVetting.Json.Decode
import ProposalVetting.Json.Writer

namespace ProposalVetting
open Json

def Category.tags : List (String × Category) := Category.all.map fun c => (c.tag, c)

def Category.document (c : Category) : Json := .text c.tag

def Category.decode : Reading → Result Category := Decode.variant Category.tags

def Severity.tags : List (String × Severity) := Severity.all.map fun s => (s.tag, s)

def Severity.document (s : Severity) : Json := .text s.tag

def Severity.decode : Reading → Result Severity := Decode.variant Severity.tags

namespace Facts

/-- The bytes of code are written as numbers. -/
def document (f : Facts) : Json :=
  .object
    [("code", Json.optional (fun code => .array (code.map fun b => Json.natural b.toNat)) f.code),
     ("nonce", Json.natural f.nonce.toNat)]

structure Draft where
  code : Option (Option (List UInt8)) := none
  nonce : Option UInt64 := none

open Decode in
def Draft.read (name : String) (d : Draft) (r : Reading) : Result Draft :=
  match name with
  | "code" => return { d with code := ← once name d.code (optional (list byte)) r }
  | "nonce" => return { d with nonce := ← once name d.nonce (word "u64") r }
  | _ => return d

def Draft.finish (d : Draft) : Result Facts := do
  return { code := d.code.getD none, nonce := ← Decode.required "nonce" d.nonce }

def layout : Layout Draft where
  name := "AccountFacts"
  fields := ["code", "nonce"]
  needed := 2
  read := Draft.read

def decode : Reading → Result Facts := layout.decode {} Draft.finish

end Facts
end ProposalVetting

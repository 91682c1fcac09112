import ProposalVetting.Bytecode.Scan
import ProposalVetting.Json.Decode
import ProposalVetting.Json.Writer

namespace ProposalVetting.Bytecode
open Json

def Verdict.tags : List (String × Verdict) := Verdict.all.map fun v => (v.tag, v)

def Verdict.document (v : Verdict) : Json := .text v.tag

def Verdict.decode : Reading → Result Verdict := Decode.variant Verdict.tags

namespace ScanReport

def document (r : ScanReport) : Json :=
  .object
    [("verdict", r.verdict.document),
     ("selfdestruct_pc", Json.optional Json.natural r.selfDestruct),
     ("delegatecall_pcs", .array (r.delegateCalls.map Json.natural)),
     ("instructions_scanned", Json.natural r.visited),
     ("truncated_push", .bool r.truncated),
     ("code_len", Json.natural r.codeLength)]

structure Draft where
  verdict : Option Verdict := none
  selfDestruct : Option (Option Nat) := none
  delegateCalls : Option (List Nat) := none
  visited : Option Nat := none
  truncated : Option Bool := none
  codeLength : Option Nat := none

open Decode in
def Draft.read (name : String) (d : Draft) (r : Reading) : Result Draft :=
  match name with
  | "verdict" => return { d with verdict := ← once name d.verdict Verdict.decode r }
  | "selfdestruct_pc" =>
    return { d with selfDestruct := ← once name d.selfDestruct (optional count) r }
  | "delegatecall_pcs" =>
    return { d with delegateCalls := ← once name d.delegateCalls (list count) r }
  | "instructions_scanned" => return { d with visited := ← once name d.visited count r }
  | "truncated_push" => return { d with truncated := ← once name d.truncated bool r }
  | "code_len" => return { d with codeLength := ← once name d.codeLength count r }
  | _ => return d

open Decode in
def Draft.finish (d : Draft) : Result ScanReport := do
  return {
    verdict := ← required "verdict" d.verdict
    selfDestruct := d.selfDestruct.getD none
    delegateCalls := ← required "delegatecall_pcs" d.delegateCalls
    visited := ← required "instructions_scanned" d.visited
    truncated := ← required "truncated_push" d.truncated
    codeLength := ← required "code_len" d.codeLength }

def layout : Layout Draft where
  name := "ScanReport"
  fields :=
    ["verdict", "selfdestruct_pc", "delegatecall_pcs", "instructions_scanned", "truncated_push",
     "code_len"]
  needed := 6
  read := Draft.read

def decode : Reading → Result ScanReport := layout.decode {} Draft.finish

end ScanReport
end ProposalVetting.Bytecode

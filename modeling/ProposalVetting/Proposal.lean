import ProposalVetting.Settings
import ProposalVetting.TrustSet

namespace ProposalVetting
open Json

/-- A governance proposal. Addresses are kept as written and read when they are asked for. -/
structure Proposal where
  daoName : String
  governor : String
  timelock : String
  proposalId : Option String := none
  targets : List String := []
  touched : List String := []
  /-- Further addresses that are exempt from inspection. -/
  trusted : List String := []
deriving DecidableEq, Repr

namespace Proposal

def addressIn (field text : String) : Except ConfigError Address :=
  (Input.address text).mapError (.address field)

/-- The addresses of a list, or the first that cannot be read. -/
def addressesIn (field : String) (texts : List String) : Except ConfigError (List Address) :=
  texts.mapM (addressIn field)

def governorAddress (p : Proposal) : Except ConfigError Address :=
  addressIn "governorAddress" p.governor

def timelockAddress (p : Proposal) : Except ConfigError Address :=
  addressIn "timelockAddress" p.timelock

def targetAddresses (p : Proposal) : Except ConfigError (List Address) :=
  addressesIn "targets" p.targets

def touchedAddresses (p : Proposal) : Except ConfigError (List Address) :=
  addressesIn "touchedAddresses" p.touched

/-- Governor, timelock and the further trusted addresses. -/
def trustSet (p : Proposal) : Except ConfigError TrustSet := do
  let governor ← p.governorAddress
  let timelock ← p.timelockAddress
  let others ← addressesIn "trustedAddresses" p.trusted
  return (TrustSet.ofList [governor, timelock]).extend others

/-- Every address can be read. -/
def validate (p : Proposal) : Except ConfigError Unit := do
  let _ ← p.governorAddress
  let _ ← p.timelockAddress
  let _ ← p.trustSet
  let _ ← p.targetAddresses
  let _ ← p.touchedAddresses

/-- The proposal's number is left out when there is none. -/
def document (p : Proposal) : Json :=
  .object <|
    [("daoName", .text p.daoName), ("governorAddress", .text p.governor),
     ("timelockAddress", .text p.timelock)] ++
    (p.proposalId.toList.map fun id => ("proposalId", .text id)) ++
    [("targets", .strings p.targets), ("touchedAddresses", .strings p.touched),
     ("trustedAddresses", .strings p.trusted)]

structure Draft where
  daoName : Option String := none
  governor : Option String := none
  timelock : Option String := none
  proposalId : Option (Option String) := none
  targets : Option (List String) := none
  touched : Option (List String) := none
  trusted : Option (List String) := none

open Decode in
def Draft.read (name : String) (d : Draft) (r : Reading) : Result Draft :=
  match name with
  | "daoName" => return { d with daoName := ← once name d.daoName text r }
  | "governorAddress" => return { d with governor := ← once name d.governor text r }
  | "timelockAddress" => return { d with timelock := ← once name d.timelock text r }
  | "proposalId" => return { d with proposalId := ← once name d.proposalId (optional text) r }
  | "targets" => return { d with targets := ← once name d.targets (list text) r }
  | "touchedAddresses" => return { d with touched := ← once name d.touched (list text) r }
  | "trustedAddresses" => return { d with trusted := ← once name d.trusted (list text) r }
  | _ => return d

open Decode in
def Draft.finish (d : Draft) : Result Proposal := do
  return {
    daoName := ← required "daoName" d.daoName
    governor := ← required "governorAddress" d.governor
    timelock := ← required "timelockAddress" d.timelock
    proposalId := d.proposalId.getD none
    targets := d.targets.getD []
    touched := d.touched.getD []
    trusted := d.trusted.getD [] }

def layout : Layout Draft where
  name := "ProposalConfig"
  fields :=
    ["daoName", "governorAddress", "timelockAddress", "proposalId", "targets", "touchedAddresses",
     "trustedAddresses"]
  needed := 3
  read := Draft.read

def decode : Reading → Result Proposal := layout.decode {} Draft.finish

/-- Reads a proposal and makes sure of its addresses. -/
def parse (document : String) : Except ConfigError Proposal := do
  let p ← (Json.parse decode document).mapError .document
  p.validate
  return p

def load (files : Files) (path : String) : Except ConfigError Proposal :=
  match files path with
  | .ok document => parse document
  | .error fault => .error (.unreadable path fault)

end Proposal
end ProposalVetting

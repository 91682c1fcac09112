import ProposalVetting.Duration
import ProposalVetting.Input
import ProposalVetting.Json.Decode
import ProposalVetting.Json.Writer

namespace ProposalVetting
open Json

/-- What is wrong with settings or a proposal. -/
inductive ConfigError where
  | unreadable (path : String) (fault : FileFault)
  | document (e : Json.Error)
  | address (field : String) (e : InputError)
  | invalid (reason : String)
deriving DecidableEq, Repr

def ConfigError.message : ConfigError → String
  | unreadable path fault => "could not read '" ++ path ++ "': " ++ fault.message
  | document e => "malformed json: " ++ e.message
  | address field e => "invalid address in field '" ++ field ++ "': " ++ e.message
  | invalid reason => "invalid value: " ++ reason

namespace Duration

def document (d : Duration) : Json :=
  .object [("secs", Json.natural d.seconds.toNat), ("nanos", Json.natural d.nanos)]

structure Draft where
  seconds : Option UInt64 := none
  nanos : Option Nat := none

open Decode in
def Draft.read (name : String) (d : Draft) (r : Reading) : Result Draft :=
  match name with
  | "secs" => return { d with seconds := ← once name d.seconds (word "u64") r }
  | "nanos" => return { d with nanos := ← once name d.nanos (natural "u32" (UInt32.size - 1)) r }
  | _ => return d

open Decode in
def Draft.finish (d : Draft) : Result Duration := do
  let seconds ← required "secs" d.seconds
  let nanos ← required "nanos" d.nanos
  match ofParts? seconds nanos with
  | some duration => return duration
  | none => .error (.overflow "Duration")

def layout : Layout Draft where
  name := "Duration"
  fields := ["secs", "nanos"]
  needed := 2
  strict := true
  read := Draft.read

def decode : Reading → Result Duration := layout.decode {} Draft.finish

end Duration

structure Settings where
  /-- Limit for the lookups of one address. -/
  timeout : Duration
  /-- How many addresses may be looked up at once. -/
  concurrency : UInt64
  failOnWarning : Bool
deriving DecidableEq, Repr

namespace Settings

def default : Settings := ⟨.ofSeconds 30, 8, false⟩

def development : Settings := ⟨.ofSeconds 5, 1, false⟩

def strict : Settings := { default with failOnWarning := true }

def validate (s : Settings) : Except ConfigError Unit :=
  if s.timeout.isZero then .error (.invalid "fetch_timeout must be greater than 0")
  else if s.concurrency = 0 then .error (.invalid "max_concurrent_lookups must be greater than 0")
  else .ok ()

def document (s : Settings) : Json :=
  .object
    [("fetch_timeout", s.timeout.document),
     ("max_concurrent_lookups", Json.natural s.concurrency.toNat),
     ("fail_on_warning", .bool s.failOnWarning)]

structure Draft where
  timeout : Option Duration := none
  concurrency : Option UInt64 := none
  failOnWarning : Option Bool := none

open Decode in
def Draft.read (name : String) (d : Draft) (r : Reading) : Result Draft :=
  match name with
  | "fetch_timeout" => return { d with timeout := ← once name d.timeout Duration.decode r }
  | "max_concurrent_lookups" =>
    return { d with concurrency := ← once name d.concurrency (word "usize") r }
  | "fail_on_warning" => return { d with failOnWarning := ← once name d.failOnWarning bool r }
  | _ => return d

open Decode in
def Draft.finish (d : Draft) : Result Settings := do
  return {
    timeout := ← required "fetch_timeout" d.timeout
    concurrency := ← required "max_concurrent_lookups" d.concurrency
    failOnWarning := ← required "fail_on_warning" d.failOnWarning }

def layout : Layout Draft where
  name := "CheckConfig"
  fields := ["fetch_timeout", "max_concurrent_lookups", "fail_on_warning"]
  needed := 3
  read := Draft.read

def decode : Reading → Result Settings := layout.decode {} Draft.finish

end Settings
end ProposalVetting

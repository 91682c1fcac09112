import ProposalVetting.Account

namespace ProposalVetting

inductive Outcome where
  | classified (category : Category)
  /-- A lookup failed, so nothing can be said about the account. -/
  | unclassified (reason : String)
deriving DecidableEq, Repr

namespace Outcome

/-- A failed lookup is an error and never a pass. -/
def severity : Outcome → Severity
  | classified category => category.severity
  | unclassified _ => .error

def category? : Outcome → Option Category
  | classified category => some category
  | unclassified _ => none

end Outcome

structure AddressReport where
  address : String
  outcome : Outcome
deriving DecidableEq, Repr

namespace AddressReport

def of (a : Address) (outcome : Outcome) : AddressReport := ⟨a.checksum, outcome⟩

def severity (r : AddressReport) : Severity := r.outcome.severity

def message (r : AddressReport) : String :=
  match r.outcome with
  | .classified category => r.address ++ ": " ++ category.description
  | .unclassified reason => r.address ++ ": Unable to classify (" ++ reason ++ ")"

end AddressReport

structure Report where
  name : String
  info : List String := []
  warnings : List String := []
  errors : List String := []
  addresses : List AddressReport := []
deriving DecidableEq, Repr

namespace Report

/-- Adds an address to the list and its message to the bucket of its severity. -/
def push (r : Report) (a : AddressReport) : Report :=
  match a.severity with
  | .info => { r with info := r.info ++ [a.message], addresses := r.addresses ++ [a] }
  | .warning => { r with warnings := r.warnings ++ [a.message], addresses := r.addresses ++ [a] }
  | .error => { r with errors := r.errors ++ [a.message], addresses := r.addresses ++ [a] }

def build (name : String) (addresses : List AddressReport) : Report :=
  addresses.foldl push { name }

def maxSeverity (r : Report) : Option Severity := (r.addresses.map AddressReport.severity).max?

def passed (r : Report) (failOnWarning : Bool) : Bool :=
  r.errors.isEmpty && (!failOnWarning || r.warnings.isEmpty)

def countFailed (failOnWarning : Bool) (reports : List Report) : Nat :=
  reports.countP fun r => !r.passed failOnWarning

def bucketText (label : String) (messages : List String) : String :=
  if messages = [] then ""
  else "  " ++ label ++ ":\n" ++ String.join (messages.map fun m => "    - " ++ m ++ "\n")

/-- The name, then the buckets that hold anything, the worst first. -/
def text (r : Report) : String :=
  r.name ++ "\n" ++ bucketText "errors" r.errors ++ bucketText "warnings" r.warnings ++
    bucketText "info" r.info

end Report
end ProposalVetting

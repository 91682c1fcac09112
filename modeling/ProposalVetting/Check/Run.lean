import ProposalVetting.Check.Pool
import ProposalVetting.Proposal
import ProposalVetting.Report

namespace ProposalVetting

inductive CheckError where
  | config (e : ConfigError)
  | provider (e : ProviderError)
  /-- A lookup crashed and took the check with it. -/
  | crashed
  /-- A task ended without a result. -/
  | unanswered (a : Address)
  /-- No pool can hold that many permits; the program aborts. -/
  | permits (wanted : UInt64)
deriving DecidableEq

def CheckError.message : CheckError → String
  | config e => "configuration error: " ++ e.message
  | provider e => "provider error: " ++ e.message
  | crashed => "lookup task failed: crashed"
  | unanswered a => "lookup task failed: no lookup result for " ++ a.checksum
  | permits wanted => "no pool of " ++ toString wanted.toNat ++ " permits"

namespace Check

def maxPermits : UInt64 := 2305843009213693951

/-- Every address once, where it stands first. -/
def distinct : List Address → List Address
  | [] => []
  | a :: rest => a :: (distinct rest).filter (· ≠ a)

def tasks (trusted : TrustSet) (addresses : List Address) : List Task :=
  addresses.zipIdx.filterMap fun (a, i) => if trusted.contains a then none else some ⟨i, a⟩

/-- What is known before any lookup. -/
def slots (trusted : TrustSet) (addresses : List Address) : List (Option Outcome) :=
  addresses.map fun a =>
    if trusted.contains a then some (.classified (classify trusted a {})) else none

def outcome? (trusted : TrustSet) (a : Address) : Fetched → Option Outcome
  | .facts f => some (.classified (classify trusted a f))
  | .failed e => some (.unclassified e.message)
  | .crashed => none

/-- Enters results in the order in which the tasks ended. -/
def enter (trusted : TrustSet) :
    List (Option Outcome) → List Landing → Except CheckError (List (Option Outcome))
  | slots, [] => .ok slots
  | slots, l :: rest =>
    match outcome? trusted l.task.address l.result with
    | some o => enter trusted (slots.set l.task.index (some o)) rest
    | none => .error .crashed

/-- Pairs the addresses with their outcomes. -/
def pair : List Address → List (Option Outcome) → Except CheckError (List AddressReport)
  | a :: addresses, some o :: slots => do return .of a o :: (← pair addresses slots)
  | a :: _, none :: _ => .error (.unanswered a)
  | _, _ => .ok []

/-- The report from the results of all tasks, whatever their order. -/
def assemble (name : String) (trusted : TrustSet) (addresses : List Address)
    (landed : List Landing) :
    Except CheckError Report := do
  let filled ← enter trusted (slots trusted addresses) landed
  return Report.build name (← pair addresses filled)

end Check

/-- The two checks of a proposal. -/
inductive Check where
  | targets
  | touched
deriving DecidableEq, Repr

namespace Check

def all : List Check := [targets, touched]

def title : Check → String
  | targets => "Check all targets do not contain selfdestruct"
  | touched => "Check all touched contracts do not contain selfdestruct"

def addresses (p : Proposal) : Check → Except ConfigError (List Address)
  | targets => p.targetAddresses
  | touched => p.touchedAddresses

end Check

/-- A report with the addresses whose code was asked for. -/
structure Checked where
  report : Report
  asked : List Address

structure Checker where
  settings : Settings
  source : Source
  valid : settings.validate = .ok ()

namespace Checker

def ofSettings (settings : Settings) (source : Source) : Except CheckError Checker :=
  match h : settings.validate with
  | .ok () => .ok ⟨settings, source, h⟩
  | .error e => .error (.config e)

/-- Looks up every address that is not trusted, and reports all in the order of the list. -/
def checkAddresses (c : Checker) (name : String) (trusted : TrustSet) (addresses : List Address) :
    Except CheckError Checked := do
  let addresses := Check.distinct addresses
  if c.settings.concurrency > Check.maxPermits then throw (.permits c.settings.concurrency)
  let pool := Pool.ofTasks c.settings.concurrency.toNat (Check.tasks trusted addresses)
  let pool := pool.run (Fetch.of c.source c.settings.timeout)
  return ⟨← Check.assemble name trusted addresses pool.landed, pool.asked⟩

def run (c : Checker) (check : Check) (p : Proposal) : Except CheckError Checked := do
  let trusted ← p.trustSet.mapError .config
  let addresses ← (check.addresses p).mapError .config
  c.checkAddresses check.title trusted addresses

/-- Every check, in their order. -/
def runAll (c : Checker) (p : Proposal) : Except CheckError (List Checked) :=
  Check.all.mapM fun check => c.run check p

end Checker
end ProposalVetting

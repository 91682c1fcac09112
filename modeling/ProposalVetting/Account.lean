import ProposalVetting.Bytecode.Scan
import ProposalVetting.Input
import ProposalVetting.TrustSet

namespace ProposalVetting

inductive Severity where
  | info
  | warning
  | error
deriving DecidableEq, Repr

namespace Severity

def tag : Severity → String
  | info => "info"
  | warning => "warning"
  | error => "error"

def all : List Severity := [info, warning, error]

def rank : Severity → Nat
  | info => 0
  | warning => 1
  | error => 2

instance : LE Severity := ⟨fun s t => s.rank ≤ t.rank⟩

instance (s t : Severity) : Decidable (s ≤ t) := inferInstanceAs (Decidable (s.rank ≤ t.rank))

instance : Max Severity := ⟨fun s t => if s ≤ t then t else s⟩

instance : Min Severity := ⟨fun s t => if s ≤ t then s else t⟩

def sort (values : List Severity) : List Severity := values.mergeSort fun s t => s ≤ t

end Severity

inductive Category where
  | trusted
  /-- An externally owned account: no code, but transactions of its own. -/
  | external
  /-- No code yet; it may be deployed here later. -/
  | empty
  | safe
  | delegateCall
  | selfDestruct
deriving DecidableEq, Repr

namespace Category

def tag : Category → String
  | trusted => "trusted"
  | external => "eoa"
  | empty => "empty"
  | safe => "safe"
  | delegateCall => "delegatecall"
  | selfDestruct => "selfdestruct"

def all : List Category := [trusted, external, empty, safe, delegateCall, selfDestruct]

def severity : Category → Severity
  | trusted | external | safe => .info
  | empty | delegateCall => .warning
  | selfDestruct => .error

def description : Category → String
  | trusted => "Trusted contract (not checked)"
  | external => "EOA"
  | empty => "EOA (may have code later)"
  | safe => "Contract (looks safe)"
  | delegateCall => "Contract (with DELEGATECALL)"
  | selfDestruct => "Contract (with SELFDESTRUCT)"

def ofVerdict : Bytecode.Verdict → Category
  | .safe => safe
  | .delegateCall => delegateCall
  | .selfDestruct => selfDestruct

end Category

/-- What is known about an account; `code` is `none` when it could not be retrieved. -/
structure Facts where
  code : Option (List UInt8) := none
  nonce : UInt64 := 0
deriving DecidableEq, Repr

namespace Facts

/-- An account that was never used. -/
def unused : Facts := ⟨some [], 0⟩

end Facts

/-- Facts that were given as text and could not be read. -/
structure FactsError where
  cause : InputError
deriving DecidableEq, Repr

def FactsError.message (e : FactsError) : String := "invalid input: " ++ e.cause.message

def Facts.ofText (code : Option String) (nonce : String) : Except FactsError Facts := do
  let code ← (code.mapM Input.code).mapError FactsError.mk
  let nonce ← (Input.nonce nonce).mapError FactsError.mk
  return ⟨code, nonce⟩

/-- Trust comes first, then whether there is code at all, then what the sweep finds in it. -/
def classify (trusted : TrustSet) (a : Address) (facts : Facts) : Category :=
  if trusted.contains a then .trusted
  else
    match facts.code with
    | none => .empty
    | some [] => if facts.nonce > 0 then .external else .empty
    | some code => .ofVerdict (Bytecode.verdict code)

end ProposalVetting

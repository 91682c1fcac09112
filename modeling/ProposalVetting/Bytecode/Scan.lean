import ProposalVetting.Bytecode.Instruction

namespace ProposalVetting.Bytecode

/-- From harmless to worst. -/
inductive Verdict where
  | safe
  | delegateCall
  | selfDestruct
deriving DecidableEq, Repr

def Verdict.tag : Verdict → String
  | safe => "safe"
  | delegateCall => "delegatecall"
  | selfDestruct => "selfdestruct"

def Verdict.all : List Verdict := [.safe, .delegateCall, .selfDestruct]

/-- What a sweep has seen: where it ended, the live `DELEGATECALL`s on the way, how many
instructions it visited and whether an operand ran past the end. -/
structure Findings where
  selfDestruct : Option Nat := none
  delegateCalls : List Nat := []
  visited : Nat := 0
  truncated : Bool := false
deriving DecidableEq, Repr

/-- Adds an instruction in front of the rest of a sweep. -/
def Findings.after (dead : Bool) (i : Instruction) (rest : Findings) : Findings where
  selfDestruct := rest.selfDestruct
  delegateCalls :=
    if i.opcode = .delegateCall ∧ dead = false then i.position :: rest.delegateCalls
    else rest.delegateCalls
  visited := rest.visited + 1
  truncated := i.isTruncated || rest.truncated

/-- Whether what follows an instruction is dead. -/
def deadAfter (dead : Bool) (opcode : Opcode) : Bool :=
  opcode.halts || (dead && opcode != .jumpDest)

/-- Code behind a halting instruction is dead until the next `JUMPDEST`. The sweep ends at the first
live `SELFDESTRUCT`. -/
def sweep (dead : Bool) : List Instruction → Findings
  | [] => {}
  | i :: rest =>
    if i.opcode = .selfDestruct ∧ dead = false then
      { selfDestruct := some i.position, visited := 1 }
    else .after dead i (sweep (deadAfter dead i.opcode) rest)

structure ScanReport where
  verdict : Verdict
  selfDestruct : Option Nat
  delegateCalls : List Nat
  visited : Nat
  truncated : Bool
  codeLength : Nat
deriving DecidableEq, Repr

def Findings.verdict (f : Findings) : Verdict :=
  if f.selfDestruct.isSome then .selfDestruct
  else if f.delegateCalls.isEmpty then .safe
  else .delegateCall

def scan (code : List UInt8) : ScanReport :=
  let found := sweep false (instructions code)
  { verdict := found.verdict
    selfDestruct := found.selfDestruct
    delegateCalls := found.delegateCalls
    visited := found.visited
    truncated := found.truncated
    codeLength := code.length }

def verdict (code : List UInt8) : Verdict := (scan code).verdict

end ProposalVetting.Bytecode

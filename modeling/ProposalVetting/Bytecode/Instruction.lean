import ProposalVetting.Bytecode.Opcode

namespace ProposalVetting.Bytecode

/-- An opcode at its position, with those of its operand bytes that the code still holds. -/
structure Instruction where
  position : Nat
  opcode : Opcode
  operand : List UInt8
deriving DecidableEq, Repr

namespace Instruction

/-- The operand runs past the end of the code. -/
def isTruncated (i : Instruction) : Bool := decide (i.operand.length < i.opcode.operandSize)

def bytes (i : Instruction) : List UInt8 := i.opcode.toByte :: i.operand

/-- Position of the instruction behind this one. -/
def next (i : Instruction) : Nat := i.position + 1 + i.opcode.operandSize

end Instruction

/-- The instructions of `code` when its first byte stands at position `start`. Operands are stepped
over, so their bytes are never taken for opcodes. -/
def instructionsFrom (start : Nat) : List UInt8 → List Instruction
  | [] => []
  | b :: rest =>
    let opcode := Opcode.ofByte b
    ⟨start, opcode, rest.take opcode.operandSize⟩ ::
      instructionsFrom (start + 1 + opcode.operandSize) (rest.drop opcode.operandSize)
termination_by code => code.length

def instructions (code : List UInt8) : List Instruction := instructionsFrom 0 code

end ProposalVetting.Bytecode

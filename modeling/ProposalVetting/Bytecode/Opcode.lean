import ProposalVetting.Text.Hex

namespace ProposalVetting.Bytecode
open Text

inductive Opcode where
  | stop
  | jumpDest
  | push (size : UInt8)
  | ret
  | delegateCall
  | revert
  | invalid
  | selfDestruct
  | other (byte : UInt8)
deriving DecidableEq, Repr

namespace Opcode

def ofByte (b : UInt8) : Opcode :=
  if b = 0x00 then stop
  else if b = 0x5b then jumpDest
  else if 0x60 ≤ b ∧ b ≤ 0x7f then push (b - 0x5f)
  else if b = 0xf3 then ret
  else if b = 0xf4 then delegateCall
  else if b = 0xfd then revert
  else if b = 0xfe then invalid
  else if b = 0xff then selfDestruct
  else other b

/-- Only sizes 1 to 32 name an instruction; beyond them the byte wraps around. -/
def toByte : Opcode → UInt8
  | stop => 0x00
  | jumpDest => 0x5b
  | push n => 0x60 + n - 1
  | ret => 0xf3
  | delegateCall => 0xf4
  | revert => 0xfd
  | invalid => 0xfe
  | selfDestruct => 0xff
  | other b => b

/-- Number of operand bytes behind the opcode byte. -/
def operandSize : Opcode → Nat
  | push n => n.toNat
  | _ => 0

/-- Whether execution of the current block ends here. -/
def halts : Opcode → Bool
  | stop | ret | revert | invalid | selfDestruct => true
  | _ => false

theorem toByte_ofByte (b : UInt8) : (ofByte b).toByte = b := by
  unfold ofByte
  repeat' split
  all_goals grind [toByte]

/-- The way an opcode is spelled in a listing; unnamed bytes show as two hex digits. -/
def name : Opcode → String
  | stop => "STOP"
  | jumpDest => "JUMPDEST"
  | push n => "PUSH" ++ toString n.toNat
  | ret => "RETURN"
  | delegateCall => "DELEGATECALL"
  | revert => "REVERT"
  | invalid => "INVALID"
  | selfDestruct => "SELFDESTRUCT"
  | other b => "UNKNOWN" ++ String.ofList (Hex.ofByte b)

end Opcode
end ProposalVetting.Bytecode

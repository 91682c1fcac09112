import ProposalVetting.Text.Hex

namespace ProposalVetting.Text.Numeral

def digit? (radix : Nat) (c : Char) : Option Nat :=
  (Hex.value? c).filter (· < radix)

def value? (radix : Nat) (digits : List Char) : Option Nat :=
  digits.foldlM (fun n c => (digit? radix c).map (radix * n + ·)) 0

/-- At least one digit, and a value that fits into 64 bits. -/
def digits? (radix : Nat) : List Char → Option UInt64
  | [] => none
  | digits => ((value? radix digits).filter (· < UInt64.size)).map UInt64.ofNat

def word? (radix : Nat) : List Char → Option UInt64
  | '+' :: digits => digits? radix digits
  | digits => digits? radix digits

end ProposalVetting.Text.Numeral

import ProposalVetting.Text.Hex
import ProposalVetting.Text.Unprintable

namespace ProposalVetting.Text.Quoted

/-- One character between marks `mark`. -/
def escape (mark c : Char) : List Char :=
  if c = Char.ofNat 0 then ['\\', '0']
  else if c = '\t' then ['\\', 't']
  else if c = '\n' then ['\\', 'n']
  else if c = '\r' then ['\\', 'r']
  else if c = '\\' ∨ c = mark then ['\\', c]
  else if Unprintable.isUnprintable c then ['\\', 'u', '\x7b'] ++ Hex.ofNat c.toNat ++ ['\x7d']
  else [c]

def char (c : Char) : String :=
  String.ofList ('\'' :: escape '\'' c ++ ['\''])

def text (s : String) : String :=
  String.ofList ('"' :: s.toList.flatMap (escape '"') ++ ['"'])

end ProposalVetting.Text.Quoted

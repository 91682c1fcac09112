import ProposalVetting.Text.Hex

namespace ProposalVetting

/-- Why a document cannot be read on: it ends too early, or something else stands where it must
not. -/
inductive Json.Fault where
  | unfinished
  | malformed
deriving DecidableEq, Repr

namespace Json.Text
open ProposalVetting.Text

def escape (c : Char) : List Char :=
  if c = '"' then ['\\', '"']
  else if c = '\\' then ['\\', '\\']
  else if c = '\n' then ['\\', 'n']
  else if c = '\r' then ['\\', 'r']
  else if c = '\t' then ['\\', 't']
  else if c = Char.ofNat 8 then ['\\', 'b']
  else if c = Char.ofNat 12 then ['\\', 'f']
  else if c < ' ' then ['\\', 'u', '0', '0', Hex.digit (c.toNat / 16), Hex.digit (c.toNat % 16)]
  else [c]

def write (s : String) : List Char := '"' :: s.toList.flatMap escape ++ ['"']

/-- What one step of a written text stands for. -/
inductive Piece where
  | char (c : Char)
  | unit (code : Nat)
deriving DecidableEq, Repr

def unescape? : Char → Option Char
  | '"' => some '"'
  | '\\' => some '\\'
  | '/' => some '/'
  | 'b' => some (Char.ofNat 8)
  | 'f' => some (Char.ofNat 12)
  | 'n' => some '\n'
  | 'r' => some '\r'
  | 't' => some '\t'
  | _ => none

/-- The pieces up to the closing mark and what follows it, or the fault that comes before it. -/
structure Body where
  pieces : List Piece
  rest : Except Fault (List Char)

def Body.after (p : Piece) (b : Body) : Body := { b with pieces := p :: b.pieces }

/-- Four digits are asked for; when not even four bytes are left, the document has ended too
early. -/
def shortUnit (cs : List Char) : Fault :=
  if (cs.flatMap String.utf8EncodeChar).length < 4 then .unfinished else .malformed

def body : List Char → Body
  | [] => ⟨[], .error .unfinished⟩
  | c :: rest =>
    if c = '"' then ⟨[], .ok rest⟩
    else if c = '\\' then
      match rest with
      | [] => ⟨[], .error .unfinished⟩
      | 'u' :: a :: b :: c :: d :: rest =>
        match Hex.quad a b c d with
        | some n => (body rest).after (.unit n)
        | none => ⟨[], .error .malformed⟩
      | 'u' :: rest => ⟨[], .error (shortUnit rest)⟩
      | e :: rest =>
        match unescape? e with
        | some c => (body rest).after (.char c)
        | none => ⟨[], .error .malformed⟩
    else if c < ' ' then ⟨[], .error .malformed⟩
    else (body rest).after (.char c)

def isHigh (n : Nat) : Bool := 0xd800 ≤ n && n < 0xdc00

def isLow (n : Nat) : Bool := 0xdc00 ≤ n && n < 0xe000

/-- Pairs up surrogates; `none` at the first that stands alone. The last piece may still be waiting
for its partner when the text is `cut` off behind it. -/
def join? (cut : Bool) : List Piece → Option (List Char)
  | [] => some []
  | .char c :: rest => (join? cut rest).map (c :: ·)
  | [.unit n] =>
    if isHigh n then (if cut then some [] else none)
    else if isLow n then none
    else some [Char.ofNat n]
  | .unit n :: p :: rest =>
    if isHigh n then
      match p with
      | .unit m =>
        if isLow m then
          (join? cut rest).map (Char.ofNat (0x10000 + (n - 0xd800) * 0x400 + (m - 0xdc00)) :: ·)
        else none
      | .char _ => none
    else if isLow n then none
    else (join? cut (p :: rest)).map (Char.ofNat n :: ·)

end Json.Text
end ProposalVetting

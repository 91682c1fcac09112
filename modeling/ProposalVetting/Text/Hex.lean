namespace ProposalVetting.Text.Hex

def digit (n : Nat) : Char :=
  if n < 10 then Char.ofNat (48 + n) else Char.ofNat (87 + n)

def value? (c : Char) : Option Nat :=
  if '0' ≤ c ∧ c ≤ '9' then some (c.toNat - 48)
  else if 'a' ≤ c ∧ c ≤ 'f' then some (c.toNat - 87)
  else if 'A' ≤ c ∧ c ≤ 'F' then some (c.toNat - 55)
  else none

def isDigit (c : Char) : Bool := (value? c).isSome

def ofByte (b : UInt8) : List Char := [digit (b.toNat / 16), digit (b.toNat % 16)]

def encode (bytes : List UInt8) : List Char := bytes.flatMap ofByte

/-- Reads pairs of digits; refuses anything else, a lone last digit included. -/
def decode : List Char → Option (List UInt8)
  | [] => some []
  | [_] => none
  | c :: d :: rest =>
    match value? c, value? d with
    | some hi, some lo => (decode rest).map (UInt8.ofNat (16 * hi + lo) :: ·)
    | _, _ => none

/-- Four digits as one number. -/
def quad (a b c d : Char) : Option Nat :=
  match value? a, value? b, value? c, value? d with
  | some w, some x, some y, some z => some (((w * 16 + x) * 16 + y) * 16 + z)
  | _, _, _, _ => none

/-- A number without leading zeros. -/
def ofNat (n : Nat) : List Char := (Nat.toDigits 16 n)

end ProposalVetting.Text.Hex

namespace ProposalVetting.Decimal

/-- The number `mantissa * 2 ^ exponent`, with a mantissa below `2 ^ 53` and an exponent from -1074
to 971. -/
structure Double where
  mantissa : Nat
  exponent : Int
deriving DecidableEq, Repr

namespace Double

def zero : Double := ⟨0, -1074⟩

/-- The highest bit of a mantissa, `2 ^ 52`. -/
def leadingBit : Nat := 0x10000000000000

def isZero (x : Double) : Bool := x.mantissa == 0

/-- `num / den / 2 ^ e` as a ratio. -/
def scale (num den : Nat) (e : Int) : Nat × Nat :=
  if 0 ≤ e then (num, den * Nat.pow 2 e.toNat) else (num * Nat.pow 2 (-e).toNat, den)

def roundHalfEven (num den : Nat) : Nat :=
  let q := num / den
  let r := num % den
  if den < 2 * r ∨ (2 * r = den ∧ q % 2 = 1) then q + 1 else q

/-- The nearest double; `none` beyond the largest. -/
def nearest? (num den : Nat) : Option Double :=
  if num = 0 then some zero
  else
    let rough := max ((num.log2 : Int) - den.log2 - 53) (-1074)
    let (n, d) := scale num den rough
    let e := if n / d < 2 * leadingBit then rough else rough + 1
    let (n, d) := scale num den e
    let m := roundHalfEven n d
    let x : Double := if m < 2 * leadingBit then ⟨m, e⟩ else ⟨leadingBit, e + 1⟩
    if x.exponent ≤ 971 then some x else none

def ratio (x : Double) : Nat × Nat :=
  if 0 ≤ x.exponent then (x.mantissa * Nat.pow 2 x.exponent.toNat, 1)
  else (x.mantissa, Nat.pow 2 (-x.exponent).toNat)

def mul? (x y : Double) : Option Double :=
  nearest? (x.ratio.1 * y.ratio.1) (x.ratio.2 * y.ratio.2)

def div? (x y : Double) : Option Double :=
  nearest? (x.ratio.1 * y.ratio.2) (x.ratio.2 * y.ratio.1)

def pow10? (k : Nat) : Option Double := nearest? (Nat.pow 10 k) 1

/-- Divides by `10 ^ 308` as often as told and then by `10 ^ k`, unless nothing is left before. -/
def shrink? (x : Double) (k : Nat) : Nat → Option Double
  | 0 => do x.div? (← pow10? k)
  | n + 1 => if x.isZero then some x else do shrink? (← x.div? (← pow10? 308)) k n

/-- `significand * 10 ^ exponent`, rounded at each of the steps; `none` when it is too large. -/
def ofDecimal? (significand : Nat) (exponent : Int) : Option Double := do
  let x ← nearest? significand 1
  if exponent < 0 then shrink? x ((-exponent).toNat % 308) ((-exponent).toNat / 308)
  else if exponent ≤ 308 then x.mul? (← pow10? exponent.toNat)
  else if x.isZero then some x
  else none

end Double
end ProposalVetting.Decimal

import ProposalVetting.Json.Text
import ProposalVetting.Json.Value

namespace ProposalVetting.Json
open Decimal

structure Numeral where
  negative : Bool
  whole : List Char
  fraction : List Char := []
  /-- Sign and digits. -/
  exponent : Option (Bool × List Char) := none
deriving Repr

namespace Numeral

def isDigit (c : Char) : Bool := '0' ≤ c && c ≤ '9'

def digitValue (c : Char) : Nat := c.toNat - 48

/-- The digits in front, of which there must be one. -/
def digits (cs : List Char) : Except Fault (List Char × List Char) :=
  match cs.takeWhile isDigit, cs.dropWhile isDigit with
  | [], [] => .error .unfinished
  | [], _ => .error .malformed
  | ds, rest => .ok (ds, rest)

def readExponent (n : Numeral) : List Char → Except Fault (Numeral × List Char)
  | c :: rest =>
    if c = 'e' ∨ c = 'E' then do
      let (negative, rest) := match rest with
        | '-' :: rest => (true, rest)
        | '+' :: rest => (false, rest)
        | rest => (false, rest)
      let (ds, rest) ← digits rest
      return ({ n with exponent := some (negative, ds) }, rest)
    else return (n, c :: rest)
  | [] => return (n, [])

def readFraction (n : Numeral) : List Char → Except Fault (Numeral × List Char)
  | '.' :: rest => do
    let (ds, rest) ← digits rest
    readExponent { n with fraction := ds } rest
  | rest => readExponent n rest

def readWhole (negative : Bool) (cs : List Char) : Except Fault (Numeral × List Char) := do
  let (ds, rest) ← digits cs
  if ds.head? = some '0' ∧ ds.length ≠ 1 then throw .malformed
  readFraction { negative, whole := ds } rest

/-- Reads a numeral; a leading zero stands alone. -/
def read : List Char → Except Fault (Numeral × List Char)
  | '-' :: rest => readWhole true rest
  | rest => readWhole false rest

/-- Takes in digits as long as the number fits into 64 bits and counts those left over. -/
def accumulate (s : Nat) : List Char → Nat × Nat
  | [] => (s, 0)
  | d :: ds =>
    if 10 * s + digitValue d < UInt64.size then accumulate (10 * s + digitValue d) ds
    else (s, ds.length + 1)

def natOf (ds : List Char) : Nat := ds.foldl (fun n d => 10 * n + digitValue d) 0

/-- `none` when the number is too large for a double. -/
def float? (n : Numeral) : Option Number := do
  let (s, dropped) := accumulate 0 n.whole
  let (s, unused) := accumulate s n.fraction
  let scale : Int := dropped - (n.fraction.length - unused : Nat)
  match n.exponent with
  | none => return .float n.negative (← Double.ofDecimal? s scale)
  | some (down, ds) =>
    let e := natOf ds
    if e < 0x80000000 then
      return .float n.negative (← Double.ofDecimal? s (if down then scale - e else scale + e))
    else if s ≠ 0 ∧ !down then none
    else return .float n.negative .zero

/-- Whole numbers that fit into 64 bits are exact, and all others are floating point. -/
def value? (n : Numeral) : Option Number :=
  if n.fraction = [] ∧ n.exponent = none then
    let v := natOf n.whole
    if n.negative then
      if 0 < v ∧ v ≤ 0x8000000000000000 then some (.integer (-v)) else n.float?
    else if v < UInt64.size then some (.integer v)
    else n.float?
  else n.float?

end Numeral
end ProposalVetting.Json

import ProposalVetting.Decimal.Double

namespace ProposalVetting.Decimal

namespace Double

/-- A grid of decimals beside the binary grid of a double: `c * 10 ^ k` and `a * 2 ^ (e - 2)`
compare like `c * unit` and `a * quarter`. -/
structure Grid where
  unit : Nat
  quarter : Nat

def grid (x : Double) (k : Int) : Grid :=
  let e := x.exponent - 2
  { unit := (if 0 ≤ k then Nat.pow 10 k.toNat else 1) * (if 0 ≤ e then 1 else Nat.pow 2 (-e).toNat)
    quarter :=
      (if 0 ≤ k then 1 else Nat.pow 10 (-k).toNat) * (if 0 ≤ e then Nat.pow 2 e.toNat else 1) }

/-- Whether `c` on the grid lies where decimals round to `x`. -/
def accepts (x : Double) (g : Grid) (c : Nat) : Bool :=
  let low := 4 * x.mantissa - (if x.mantissa = leadingBit ∧ x.exponent ≠ -1074 then 1 else 2)
  let high := 4 * x.mantissa + 2
  if x.mantissa % 2 = 0 then low * g.quarter ≤ c * g.unit && c * g.unit ≤ high * g.quarter
  else low * g.quarter < c * g.unit && c * g.unit < high * g.quarter

/-- The decimal on the grid to show, if one of the two neighbours of `x` will do: the nearer one, of
two equally near ones the even one. -/
def onGrid? (x : Double) (k : Int) : Option Nat :=
  let g := grid x k
  let v := 4 * x.mantissa * g.quarter
  let c := v / g.unit
  let below := v - c * g.unit
  let above := (c + 1) * g.unit - v
  match accepts x g c, accepts x g (c + 1) with
  | true, false => some c
  | false, true => some (c + 1)
  | true, true => some (if below < above ∨ (below = above ∧ c % 2 = 0) then c else c + 1)
  | false, false => none

/-- The number of places before the point: the least `p` with `x < 10 ^ p`. -/
def places (x : Double) : Int :=
  ((List.range 640).map fun i : Nat => (i : Int) - 325).find? (fun p =>
    let g := grid x p
    4 * x.mantissa * g.quarter < g.unit) |>.getD 0

/-- Digits and exponent of the shortest decimal. -/
def shortest (x : Double) : Nat × Int :=
  let p := places x
  ((List.range 17).findSome? fun i : Nat => (onGrid? x (p - (i + 1))).map (·, p - (i + 1))).getD
    (0, 0)

/-- Positional from `1e-5` up to `1e16`, with the point always shown; otherwise one digit before the
point and a signed exponent. -/
def text (x : Double) : String :=
  if x.isZero then "0.0"
  else
    let (c, k) := shortest x
    let digits := Nat.toDigits 10 c
    let kept := (digits.reverse.dropWhile (· == '0')).reverse
    let scale := k + digits.length - 1
    String.ofList <|
      if 0 ≤ scale ∧ scale ≤ 15 then
        let whole := scale.toNat + 1
        let padded := kept ++ List.replicate (whole - kept.length) '0'
        let fraction := padded.drop whole
        padded.take whole ++ '.' :: (if fraction = [] then ['0'] else fraction)
      else if -5 ≤ scale ∧ scale < 0 then
        '0' :: '.' :: List.replicate ((-scale).toNat - 1) '0' ++ kept
      else
        kept.take 1 ++ (if kept.length = 1 then [] else '.' :: kept.drop 1) ++
          'e' :: (if scale < 0 then '-' else '+') :: Nat.toDigits 10 scale.natAbs

end Double
end ProposalVetting.Decimal

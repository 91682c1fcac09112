namespace ProposalVetting

structure Duration where
  seconds : UInt64
  nanos : Nat
  nanos_lt : nanos < 1000000000 := by omega
deriving DecidableEq, Repr

namespace Duration

def ofSeconds (seconds : UInt64) : Duration := { seconds, nanos := 0 }

/-- Nanoseconds of a second or more are carried over; `none` when the seconds do not fit. -/
def ofParts? (seconds : UInt64) (nanos : Nat) : Option Duration :=
  let total := seconds.toNat + nanos / 1000000000
  if total < UInt64.size then
    some {
      seconds := UInt64.ofNat total
      nanos := nanos % 1000000000
      nanos_lt := Nat.mod_lt _ (by decide) }
  else none

def isZero (d : Duration) : Bool := d.seconds == 0 && d.nanos == 0

def totalNanos (d : Duration) : Nat := d.seconds.toNat * 1000000000 + d.nanos

/-- The decimals of `part / 10 ^ places`, without zeros at the end. -/
def decimals (places part : Nat) : String :=
  let digits := Nat.toDigits 10 part
  let padded := List.replicate (places - digits.length) '0' ++ digits
  let kept := (padded.reverse.dropWhile (· == '0')).reverse
  if kept = [] then "" else String.ofList ('.' :: kept)

def text (d : Duration) : String :=
  if d.seconds ≠ 0 then toString d.seconds.toNat ++ decimals 9 d.nanos ++ "s"
  else if 1000000 ≤ d.nanos then
    toString (d.nanos / 1000000) ++ decimals 6 (d.nanos % 1000000) ++ "ms"
  else if 1000 ≤ d.nanos then toString (d.nanos / 1000) ++ decimals 3 (d.nanos % 1000) ++ "µs"
  else toString d.nanos ++ "ns"

end Duration
end ProposalVetting

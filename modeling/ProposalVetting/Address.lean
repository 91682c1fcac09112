import ProposalVetting.Hash.Keccak
import ProposalVetting.Text.Hex

namespace ProposalVetting
open Text

structure Address where
  bytes : List UInt8
  length_bytes : bytes.length = 20
deriving DecidableEq

namespace Address

def ofBytes? (bytes : List UInt8) : Option Address :=
  if h : bytes.length = 20 then some ⟨bytes, h⟩ else none

/-- Reads bytes behind `n` as the further digits of a number to the base 256. -/
def appendDigits (n : Nat) : List UInt8 → Nat
  | [] => n
  | b :: rest => appendDigits (256 * n + b.toNat) rest

theorem appendDigits_inj : ∀ {m n : Nat} {xs ys : List UInt8}, xs.length = ys.length →
    appendDigits m xs = appendDigits n ys → m = n ∧ xs = ys
  | m, n, [], [], _, h => ⟨h, rfl⟩
  | m, n, x :: xs, y :: ys, hl, h => by
    have ⟨hd, hr⟩ := appendDigits_inj (Nat.succ.inj hl) h
    have hx := x.toNat_lt
    have hy := y.toNat_lt
    have hxy : x.toNat = y.toNat := by omega
    exact ⟨by omega, by rw [UInt8.toNat_inj.1 hxy, hr]⟩

/-- The address as a number, its first byte the most significant. -/
def value (a : Address) : Nat := appendDigits 0 a.bytes

theorem value_inj : ∀ {a b : Address}, a.value = b.value → a = b
  | ⟨xs, hx⟩, ⟨ys, hy⟩, h => by
    have : xs = ys := (appendDigits_inj (hx.trans hy.symm) h).2
    subst this
    rfl

/-- Letters stand in upper case where the digit of the hash at their place is 8 or more. -/
def checksumDigits (digits : List Char) (hash : List Char) : List Char :=
  List.zipWith (fun c h => if '8' ≤ h then c.toUpper else c) digits hash

def checksum (a : Address) : String :=
  let digits := Hex.encode a.bytes
  let hash := Hex.encode (Hash.Keccak.hash (digits.map fun c => UInt8.ofNat c.toNat))
  String.ofList ('0' :: 'x' :: checksumDigits digits hash)

end Address
end ProposalVetting

namespace ProposalVetting.Hash.Keccak

/-- Lane `(x, y)` stands at index `x + 5 * y`. -/
abbrev State := List UInt64

def lane (s : State) (x y : Nat) : UInt64 := s.getD (x % 5 + 5 * (y % 5)) 0

def tabulate (f : Nat → Nat → UInt64) : State :=
  (List.range 25).map fun i => f (i % 5) (i / 5)

def rotateLeft (w : UInt64) (n : Nat) : UInt64 :=
  if n % 64 = 0 then w else w <<< UInt64.ofNat (n % 64) ||| w >>> UInt64.ofNat (64 - n % 64)

def rotations : List Nat :=
  [0, 1, 62, 28, 27, 36, 44, 6, 55, 20, 3, 10, 43, 25, 39, 41, 45, 15, 21, 8, 18, 2, 61, 56, 14]

def roundConstants : List UInt64 :=
  [0x0000000000000001, 0x0000000000008082, 0x800000000000808a, 0x8000000080008000,
   0x000000000000808b, 0x0000000080000001, 0x8000000080008081, 0x8000000000008009,
   0x000000000000008a, 0x0000000000000088, 0x0000000080008009, 0x000000008000000a,
   0x000000008000808b, 0x800000000000008b, 0x8000000000008089, 0x8000000000008003,
   0x8000000000008002, 0x8000000000000080, 0x000000000000800a, 0x800000008000000a,
   0x8000000080008081, 0x8000000000008080, 0x0000000080000001, 0x8000000080008008]

def theta (s : State) : State :=
  let column := (List.range 5).map fun x =>
    lane s x 0 ^^^ lane s x 1 ^^^ lane s x 2 ^^^ lane s x 3 ^^^ lane s x 4
  tabulate fun x y =>
    lane s x y ^^^ column.getD ((x + 4) % 5) 0 ^^^ rotateLeft (column.getD ((x + 1) % 5) 0) 1

/-- The rotations and the move of the lanes in one: lane `(x, y)` comes from `(x + 3 y, x)`. -/
def rhoPi (s : State) : State :=
  tabulate fun x y =>
    let source := (x + 3 * y) % 5
    rotateLeft (lane s source x) (rotations.getD (source + 5 * x) 0)

def chi (s : State) : State :=
  tabulate fun x y => lane s x y ^^^ (~~~lane s (x + 1) y &&& lane s (x + 2) y)

def iota (constant : UInt64) : State → State
  | [] => []
  | w :: rest => (w ^^^ constant) :: rest

def permute (s : State) : State :=
  roundConstants.foldl (fun s constant => iota constant (chi (rhoPi (theta s)))) s

def rate : Nat := 136

/-- Fills the last block: a first byte `0x01`, a last byte `0x80`, both in one when one byte is
left. -/
def pad (message : List UInt8) : List UInt8 :=
  let gap := rate - message.length % rate
  if gap = 1 then message ++ [0x81] else message ++ 0x01 :: List.replicate (gap - 2) 0 ++ [0x80]

/-- Eight bytes as a word, the first byte lowest. -/
def word (bytes : List UInt8) : UInt64 :=
  bytes.foldr (fun b w => w <<< 8 ||| b.toUInt64) 0

def words : Nat → List UInt8 → List UInt64
  | 0, _ => []
  | n + 1, bytes => word (bytes.take 8) :: words n (bytes.drop 8)

def absorbBlock (s : State) (block : List UInt8) : State :=
  permute (List.zipWith (· ^^^ ·) s (words 25 block))

def absorb : Nat → State → List UInt8 → State
  | 0, s, _ => s
  | n + 1, s, bytes => absorb n (absorbBlock s (bytes.take rate)) (bytes.drop rate)

def wordBytes (w : UInt64) : List UInt8 :=
  (List.range 8).map fun i => (w >>> UInt64.ofNat (8 * i)).toUInt8

/-- Keccak-256. -/
def hash (message : List UInt8) : List UInt8 :=
  let padded := pad message
  ((absorb (padded.length / rate) (List.replicate 25 0) padded).take 4).flatMap wordBytes

end ProposalVetting.Hash.Keccak

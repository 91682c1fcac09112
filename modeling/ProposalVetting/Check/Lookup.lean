import ProposalVetting.Snapshot

namespace ProposalVetting

inductive Answer (α : Type) where
  | value (a : α)
  | failure (e : ProviderError)
  | crash
deriving DecidableEq, Repr

/-- What comes back, and after how many nanoseconds; `none` is never. -/
structure Lookup (α : Type) where
  latency : Option Nat
  answer : Answer α
deriving DecidableEq, Repr

namespace Lookup

def immediate (a : α) : Lookup α := ⟨some 0, .value a⟩

/-- The answer to a lookup begun at `start`, with the moment it comes, unless that is after the
deadline. -/
def arrival? (start deadline : Nat) (l : Lookup α) : Option (Nat × Answer α) :=
  match l.latency with
  | some d => if start + d ≤ deadline then some (start + d, l.answer) else none
  | none => none

end Lookup

/-- Where codes and nonces come from. -/
structure Source where
  code : Address → Lookup (Option (List UInt8))
  nonce : Address → Lookup UInt64

def Snapshot.source (s : Snapshot) : Source where
  code a := .immediate (s.lookup a).code
  nonce a := .immediate (s.lookup a).nonce

inductive Fetched where
  | facts (f : Facts)
  | failed (e : ProviderError)
  | crashed
deriving DecidableEq, Repr

/-- How the lookups of one address end, and when. -/
structure Fetch where
  ends : Nat
  result : Fetched
deriving DecidableEq, Repr

namespace Fetch

/-- An answer that decides without the other. -/
def stop? : Nat × Answer α → Option Fetch
  | (_, .value _) => none
  | (t, .failure e) => some ⟨t, .failed e⟩
  | (t, .crash) => some ⟨t, .crashed⟩

/-- The one that ends first, and at the same moment the first of the two. -/
def first : Option Fetch → Option Fetch → Option Fetch
  | some x, some y => some (if x.ends ≤ y.ends then x else y)
  | some x, none => some x
  | none, y => y

def both? :
    Option (Nat × Answer (Option (List UInt8))) → Option (Nat × Answer UInt64) → Option Fetch
  | some (t, .value code), some (u, .value nonce) => some ⟨max t u, .facts ⟨code, nonce⟩⟩
  | _, _ => none

/-- Both lookups of `a`, begun at `start`. The first failure decides, two answers in time make the
facts, and otherwise the limit runs out. -/
def of (source : Source) (limit : Duration) (start : Nat) (a : Address) : Fetch :=
  let deadline := start + limit.totalNanos
  let code := (source.code a).arrival? start deadline
  let nonce := (source.nonce a).arrival? start deadline
  ((first (code.bind stop?) (nonce.bind stop?)).or (both? code nonce)).getD
    ⟨deadline, .failed (.timeout a.checksum limit)⟩

end Fetch
end ProposalVetting

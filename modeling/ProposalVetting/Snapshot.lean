import ProposalVetting.Account.Document
import ProposalVetting.Duration

namespace ProposalVetting
open Json

inductive ProviderError where
  | fetch (what address reason : String)
  | timeout (address : String) (limit : Duration)
  | snapshot (reason : String)
deriving DecidableEq, Repr

def ProviderError.message : ProviderError → String
  | fetch what address reason => "failed to fetch " ++ what ++ " for " ++ address ++ ": " ++ reason
  | timeout address limit => "lookup for " ++ address ++ " timed out after " ++ limit.text
  | snapshot reason => "invalid state snapshot: " ++ reason

structure Snapshot where
  accounts : AddressMap Facts
deriving DecidableEq

namespace Snapshot

/-- An account as written: no code means that it could not be retrieved, and the nonce may be a
number or a text. -/
structure Entry where
  code : Option String := some "0x"
  nonce : UInt64 ⊕ String := .inl 0
deriving DecidableEq, Repr

namespace Entry

structure Draft where
  code : Option (Option String) := none
  nonce : Option (UInt64 ⊕ String) := none

/-- A value of any other kind is still read in full before it is refused. -/
def decodeNonce (r : Reading) : Result (UInt64 ⊕ String) := do
  match ← r.value (nestingLimit - 2) with
  | .number (.integer n) =>
    if 0 ≤ n then return .inl (UInt64.ofNat n.toNat) else .error (.noAlternative "NonceField")
  | .text s => return .inr s
  | _ => .error (.noAlternative "NonceField")

open Decode in
def Draft.read (name : String) (d : Draft) (r : Reading) : Result Draft :=
  match name with
  | "code" => return { d with code := ← once name d.code (optional text) r }
  | "nonce" => return { d with nonce := ← once name d.nonce decodeNonce r }
  | _ => return d

def Draft.finish (d : Draft) : Result Entry :=
  return { code := d.code.getD (some "0x"), nonce := d.nonce.getD (.inl 0) }

def layout : Layout Draft where
  name := "SnapshotAccount"
  fields := ["code", "nonce"]
  needed := 0
  read := Draft.read

def decode : Reading → Result Entry := layout.decode {} Draft.finish

def facts (e : Entry) : Except InputError Facts := do
  let code ← e.code.mapM Input.code
  let nonce ← match e.nonce with
    | .inl n => pure n
    | .inr written => Input.nonce written
  return ⟨code, nonce⟩

end Entry

def empty : Snapshot := ⟨.empty⟩

def size (s : Snapshot) : Nat := s.accounts.size

def isEmpty (s : Snapshot) : Bool := s.accounts.isEmpty

def get? (s : Snapshot) (a : Address) : Option Facts := s.accounts.get? a

def withAccount (s : Snapshot) (a : Address) (facts : Facts) : Snapshot :=
  ⟨s.accounts.insert a facts⟩

/-- Stores the facts of an address and says which stood there before. -/
def insert (s : Snapshot) (a : Address) (facts : Facts) : Snapshot × Option Facts :=
  (s.withAccount a facts, s.get? a)

/-- The facts of any address; one that is not stored counts as never used. -/
def lookup (s : Snapshot) (a : Address) : Facts := (s.get? a).getD .unused

/-- The entries of a document, each name once with its last value, in the order of the names. -/
def collect (entries : List (String × Entry)) : List (String × Entry) :=
  entries.foldl (fun kept e => put e kept) []
where
  put (e : String × Entry) : List (String × Entry) → List (String × Entry)
    | [] => [e]
    | d :: rest =>
      if e.1 < d.1 then e :: d :: rest
      else if e.1 = d.1 then e :: rest
      else d :: put e rest

def add (s : Snapshot) (name : String) (e : Entry) : Except ProviderError Snapshot := do
  let address ← (Input.address name).mapError fun e => .snapshot e.message
  let facts ← e.facts.mapError fun e => .snapshot (name ++ ": " ++ e.message)
  if (s.get? address).isSome then throw (.snapshot ("duplicate entry for " ++ address.checksum))
  return s.withAccount address facts

def ofEntries (entries : List (String × Entry)) : Except ProviderError Snapshot :=
  (collect entries).foldlM (fun s e => s.add e.1 e.2) empty

def parse (document : String) : Except ProviderError Snapshot := do
  let entries ← (Json.parse (Decode.map Entry.decode) document).mapError fun e =>
    .snapshot e.message
  ofEntries entries

def load (files : Files) (path : String) : Except ProviderError Snapshot :=
  match files path with
  | .ok document => parse document
  | .error fault => .error (.snapshot (path ++ ": " ++ fault.message))

end Snapshot
end ProposalVetting

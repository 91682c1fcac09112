import ProposalVetting.Address.Map

namespace ProposalVetting

/-- The addresses that are exempt from inspection. -/
structure TrustSet where
  members : AddressMap Unit
deriving DecidableEq

namespace TrustSet

def empty : TrustSet := ⟨.empty⟩

def contains (s : TrustSet) (a : Address) : Bool := s.members.contains a

/-- Adds an address and says whether it was new. -/
def insert (s : TrustSet) (a : Address) : TrustSet × Bool :=
  if s.contains a then (s, false) else (⟨s.members.insert a ()⟩, true)

def extend (s : TrustSet) (addresses : List Address) : TrustSet :=
  addresses.foldl (fun s a => (s.insert a).1) s

def ofList (addresses : List Address) : TrustSet := empty.extend addresses

def size (s : TrustSet) : Nat := s.members.size

def isEmpty (s : TrustSet) : Bool := s.members.isEmpty

def toList (s : TrustSet) : List Address := s.members.keys

end TrustSet
end ProposalVetting

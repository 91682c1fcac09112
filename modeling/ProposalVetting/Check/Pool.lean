import ProposalVetting.Check.Lookup

namespace ProposalVetting

structure Task where
  index : Nat
  address : Address
deriving DecidableEq

structure Flight where
  task : Task
  fetch : Fetch
deriving DecidableEq

structure Landing where
  task : Task
  result : Fetched
deriving DecidableEq

/-- A task waits for a permit, flies while it holds one, and gives it back when it lands. -/
structure Pool where
  now : Nat
  free : Nat
  waiting : List Task
  flying : List Flight := []
  landed : List Landing := []
  /-- The addresses whose code was asked for, in this order. -/
  asked : List Address := []

namespace Pool

def ofTasks (permits : Nat) (tasks : List Task) : Pool :=
  { now := 0, free := permits, waiting := tasks }

/-- The first task that waits takes a permit, if there is one. -/
def start? (fetch : Nat → Address → Fetch) (p : Pool) : Option Pool :=
  match p.free, p.waiting with
  | free + 1, t :: waiting =>
    some { p with
      free, waiting
      flying := p.flying ++ [⟨t, fetch p.now t.address⟩]
      asked := p.asked ++ [t.address] }
  | _, _ => none

/-- The flight that ends first, of several the one that began first. -/
def next? : List Flight → Option Flight
  | [] => none
  | f :: rest =>
    match next? rest with
    | some g => some (if f.fetch.ends ≤ g.fetch.ends then f else g)
    | none => some f

/-- The flight that ends first lands and gives its permit back. -/
def land? (p : Pool) : Option Pool :=
  match next? p.flying with
  | some f =>
    some { p with
      now := f.fetch.ends
      free := p.free + 1
      flying := p.flying.erase f
      landed := p.landed ++ [⟨f.task, f.fetch.result⟩] }
  | none => none

/-- Starts what can start, and otherwise lets the next flight land. -/
def step? (fetch : Nat → Address → Fetch) (p : Pool) : Option Pool :=
  (p.start? fetch).or p.land?

/-- Steps left to take: two for a task that waits and one for a flight. -/
def work (p : Pool) : Nat := 2 * p.waiting.length + p.flying.length

def runFor (fetch : Nat → Address → Fetch) : Nat → Pool → Pool
  | 0, p => p
  | n + 1, p =>
    match p.step? fetch with
    | some q => runFor fetch n q
    | none => p

def run (fetch : Nat → Address → Fetch) (p : Pool) : Pool := runFor fetch p.work p

end Pool
end ProposalVetting

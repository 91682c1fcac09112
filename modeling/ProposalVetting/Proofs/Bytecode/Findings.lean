import ProposalVetting.Proofs.Bytecode.Liveness
import Mathlib.Data.Nat.Basic
import Mathlib.Order.Basic

namespace ProposalVetting.Bytecode

namespace Verdict

def rank : Verdict → Nat
  | safe => 0
  | delegateCall => 1
  | selfDestruct => 2

theorem rank_injective : Function.Injective rank := by
  intro u v h
  cases u <;> cases v <;> simp_all [rank]

instance : LinearOrder Verdict := LinearOrder.lift' rank rank_injective

end Verdict

namespace Findings

variable {f f' g g' : Findings}

/-- The second sweep goes on where the first one ends. Behind a live `SELFDESTRUCT` nothing is
swept. -/
def append (f g : Findings) : Findings :=
  if f.selfDestruct.isSome then f
  else
    { selfDestruct := g.selfDestruct
      delegateCalls := f.delegateCalls ++ g.delegateCalls
      visited := f.visited + g.visited
      truncated := f.truncated || g.truncated }

instance : Append Findings := ⟨append⟩

theorem append_of_isSome (h : f.selfDestruct.isSome) : f ++ g = f := if_pos h

theorem append_of_eq_none (h : f.selfDestruct = none) :
    f ++ g =
      { selfDestruct := g.selfDestruct
        delegateCalls := f.delegateCalls ++ g.delegateCalls
        visited := f.visited + g.visited
        truncated := f.truncated || g.truncated } := if_neg (by simp [h])

theorem selfDestruct_append (f g : Findings) :
    (f ++ g).selfDestruct = f.selfDestruct.or g.selfDestruct := by
  obtain ⟨_ | pc, _, _, _⟩ := f <;> rfl

theorem delegateCalls_append (f g : Findings) :
    (f ++ g).delegateCalls =
      f.delegateCalls ++ if f.selfDestruct.isSome then [] else g.delegateCalls := by
  obtain ⟨_ | pc, calls, _, _⟩ := f
  · rfl
  · exact (List.append_nil calls).symm

theorem verdict_of_isSome (h : f.selfDestruct.isSome) : f.verdict = .selfDestruct := if_pos h

theorem verdict_append (f g : Findings) : (f ++ g).verdict = max f.verdict g.verdict := by
  obtain ⟨_ | pc, _ | ⟨dc, calls⟩, _, _⟩ := f <;>
    obtain ⟨_ | pc', _ | ⟨dc', calls'⟩, _, _⟩ := g <;> rfl

theorem nil_append (f : Findings) : ({} : Findings) ++ f = f := by
  rw [append_of_eq_none rfl]
  simp

theorem append_nil (f : Findings) : f ++ ({} : Findings) = f := by
  obtain ⟨_ | pc, calls, n, t⟩ := f
  · simp [append_of_eq_none]
  · rfl

theorem append_assoc (f g k : Findings) : f ++ g ++ k = f ++ (g ++ k) := by
  obtain ⟨_ | pc, calls, n, t⟩ := f
  · obtain ⟨_ | pc', calls', n', t'⟩ := g
    · simp [append_of_eq_none, Nat.add_assoc, Bool.or_assoc]
    · rfl
  · rfl

/-- Nothing is flagged, however much was swept. -/
structure Quiet (f : Findings) : Prop where
  selfDestruct : f.selfDestruct = none
  delegateCalls : f.delegateCalls = []

/-- The same is flagged, however much was swept for it. -/
structure SameFlags (f g : Findings) : Prop where
  selfDestruct : f.selfDestruct = g.selfDestruct
  delegateCalls : f.delegateCalls = g.delegateCalls

namespace SameFlags

theorem refl (f : Findings) : SameFlags f f := ⟨rfl, rfl⟩

theorem verdict (h : SameFlags f g) : f.verdict = g.verdict := by
  rw [Findings.verdict, h.selfDestruct, h.delegateCalls, ← Findings.verdict]

theorem append (hf : SameFlags f f') (hg : SameFlags g g') : SameFlags (f ++ g) (f' ++ g') where
  selfDestruct := by rw [selfDestruct_append, selfDestruct_append, hf.selfDestruct, hg.selfDestruct]
  delegateCalls := by
    rw [delegateCalls_append, delegateCalls_append, hf.selfDestruct, hf.delegateCalls,
      hg.delegateCalls]

end SameFlags

theorem Quiet.append_left (h : f.Quiet) (g : Findings) : SameFlags (f ++ g) g where
  selfDestruct := by rw [selfDestruct_append, h.selfDestruct, Option.none_or]
  delegateCalls := by
    rw [delegateCalls_append, h.selfDestruct, h.delegateCalls]
    rfl

theorem Quiet.append_right (h : g.Quiet) (f : Findings) : SameFlags (f ++ g) f where
  selfDestruct := by rw [selfDestruct_append, h.selfDestruct, Option.or_none]
  delegateCalls := by rw [delegateCalls_append, h.delegateCalls, ite_self, List.append_nil]

/-- The same findings at other positions. -/
def relocate (move : Nat → Nat) (f : Findings) : Findings :=
  { f with selfDestruct := f.selfDestruct.map move, delegateCalls := f.delegateCalls.map move }

theorem relocate_append (move : Nat → Nat) (f g : Findings) :
    (f ++ g).relocate move = f.relocate move ++ g.relocate move := by
  obtain ⟨_ | pc, calls, n, t⟩ := f
  · simp [append_of_eq_none, relocate]
  · rfl

theorem verdict_relocate (move : Nat → Nat) (f : Findings) :
    (f.relocate move).verdict = f.verdict := by
  obtain ⟨_ | pc, _ | ⟨dc, calls⟩, _, _⟩ := f <;> rfl

/-- The report on a code of `n` bytes. -/
def report (f : Findings) (n : Nat) : ScanReport where
  verdict := f.verdict
  selfDestruct := f.selfDestruct
  delegateCalls := f.delegateCalls
  visited := f.visited
  truncated := f.truncated
  codeLength := n

end Findings

theorem scan_eq_report (code : List UInt8) :
    scan code = (sweep false (instructions code)).report code.length := rfl

/-- The same instruction at another position. -/
def Instruction.relocate (move : Nat → Nat) (i : Instruction) : Instruction :=
  { i with position := move i.position }

/-- The flag that a sweep leaves behind, unless it ends at a live `SELFDESTRUCT` before. -/
def deadBehind (dead : Bool) (is : List Instruction) : Bool :=
  is.foldl (fun dead i => deadAfter dead i.opcode) dead

theorem Instruction.isTruncated_of_selfDestruct {i : Instruction} (h : i.opcode = .selfDestruct) :
    i.isTruncated = false := by
  rw [isTruncated, h]
  exact decide_eq_false (Nat.not_lt_zero _)

theorem sweep_singleton (dead : Bool) (i : Instruction) :
    sweep dead [i] =
      { selfDestruct := if i.opcode = .selfDestruct ∧ dead = false then some i.position else none
        delegateCalls := if i.opcode = .delegateCall ∧ dead = false then [i.position] else []
        visited := 1
        truncated := i.isTruncated } := by
  by_cases hop : i.opcode = .selfDestruct ∧ dead = false
  · simp [sweep, hop, Instruction.isTruncated_of_selfDestruct hop.1]
  · simp [sweep, hop, Findings.after]

theorem sweep_cons (dead : Bool) (i : Instruction) (rest : List Instruction) :
    sweep dead (i :: rest) = sweep dead [i] ++ sweep (deadAfter dead i.opcode) rest := by
  by_cases hop : i.opcode = .selfDestruct ∧ dead = false
  · rw [sweep, sweep, if_pos hop, if_pos hop]
    rfl
  · rw [sweep_singleton, if_neg hop, Findings.append_of_eq_none rfl, sweep, if_neg hop,
      Findings.after, Nat.add_comm 1]
    by_cases hdc : i.opcode = .delegateCall ∧ dead = false <;> simp [hdc]

theorem sweep_append (dead : Bool) (is js : List Instruction) :
    sweep dead (is ++ js) = sweep dead is ++ sweep (deadBehind dead is) js := by
  induction is generalizing dead with
  | nil => exact (Findings.nil_append _).symm
  | cons i rest ih =>
    rw [List.cons_append, sweep_cons, ih, ← Findings.append_assoc, ← sweep_cons]
    rfl

/-- A change of the instructions that leaves their opcodes shows in the findings as it does in those
of one instruction. -/
theorem sweep_map (changed : Instruction → Instruction) (shown : Findings → Findings)
    (hop : ∀ i, (changed i).opcode = i.opcode) (hnil : shown {} = {})
    (happend : ∀ f g, shown (f ++ g) = shown f ++ shown g)
    (hone : ∀ dead i, sweep dead [changed i] = shown (sweep dead [i])) (dead : Bool)
    (is : List Instruction) :
    sweep dead (is.map changed) = shown (sweep dead is) := by
  induction is generalizing dead with
  | nil => exact hnil.symm
  | cons i rest ih => rw [List.map_cons, sweep_cons, sweep_cons dead i rest, happend, hone, hop, ih]

theorem sweep_relocate (move : Nat → Nat) (dead : Bool) (is : List Instruction) :
    sweep dead (is.map (.relocate move)) = (sweep dead is).relocate move := by
  refine sweep_map (.relocate move) (.relocate move)
    (fun _ => rfl) rfl (Findings.relocate_append move) (fun dead i => ?_) dead is
  simp only [sweep_singleton, Findings.relocate, apply_ite (Option.map move),
    apply_ite (List.map move)]
  rfl

/-- A sweep flags nothing where nothing alive is a `SELFDESTRUCT` or a `DELEGATECALL`. -/
theorem quiet_sweep {dead : Bool} {is : List Instruction}
    (h : ∀ i ∈ alive dead is, i.opcode ≠ .selfDestruct ∧ i.opcode ≠ .delegateCall) :
    (sweep dead is).Quiet where
  selfDestruct := by
    rw [sweep_selfDestruct, Option.map_eq_none_iff, List.find?_eq_none]
    exact fun i hi hop => (h i hi).1 (of_decide_eq_true hop)
  delegateCalls := by
    rw [sweep_delegateCalls, List.map_eq_nil_iff, List.filter_eq_nil_iff]
    exact fun i hi hop => (h i ((List.takeWhile_sublist _).subset hi)).2 (of_decide_eq_true hop)

end ProposalVetting.Bytecode

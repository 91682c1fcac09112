import ProposalVetting.Proofs.Bytecode.Composition

namespace ProposalVetting.Bytecode

/-- Where a position comes to lie when `size` bytes are put in at position `n`. -/
def pushedBack (n size pc : Nat) : Nat := if pc < n then pc else pc + size

section Sweep

variable {is js rest : List Instruction} {halt : Instruction}

theorem deadAfter_true {op : Opcode} (hop : op ≠ .jumpDest) : deadAfter true op = true := by
  simp [deadAfter, hop]

theorem deadBehind_of_no_jumpDest (h : ∀ i ∈ is, i.opcode ≠ .jumpDest) :
    deadBehind true is = true := by
  induction is with
  | nil => rfl
  | cons i rest ih =>
    obtain ⟨hi, hrest⟩ := List.forall_mem_cons.1 h
    rw [deadBehind, List.foldl_cons, deadAfter_true hi]
    exact ih hrest

theorem alive_of_no_jumpDest (h : ∀ i ∈ is, i.opcode ≠ .jumpDest) : alive true is = [] := by
  induction is with
  | nil => rfl
  | cons i rest ih =>
    obtain ⟨hi, hrest⟩ := List.forall_mem_cons.1 h
    rw [alive, if_pos rfl, deadAfter_true hi, ih hrest]

theorem sweep_cons_of_halts (hhalts : halt.opcode.halts = true) (dead : Bool)
    (rest : List Instruction) :
    sweep dead (halt :: rest) = sweep dead [halt] ++ sweep true rest := by
  rw [sweep_cons, deadAfter, hhalts, Bool.true_or]

/-- Left out of a list of instructions, a dead stretch takes no flag with it. -/
theorem sweep_without_dead_code (hhalts : halt.opcode.halts = true)
    (h : ∀ i ∈ js, i.opcode ≠ .jumpDest) (dead : Bool) :
    (sweep dead (is ++ halt :: (js ++ rest))).SameFlags (sweep dead (is ++ halt :: rest)) := by
  rw [sweep_append, sweep_append, sweep_cons_of_halts hhalts, sweep_cons_of_halts hhalts _ rest]
  rw [sweep_append true js, deadBehind_of_no_jumpDest h]
  have hquiet : (sweep true js).Quiet := quiet_sweep fun i hi => by
    rw [alive_of_no_jumpDest h] at hi
    cases hi
  exact (Findings.SameFlags.refl _).append
    ((Findings.SameFlags.refl _).append (hquiet.append_left _))

end Sweep

section Code

variable {p d s : List UInt8} {h : UInt8} {start : Nat}

theorem Opcode.operandSize_of_halts {op : Opcode} (hop : op.halts = true) : op.operandSize = 0 := by
  cases op with
  | push n => cases hop
  | _ => rfl

theorem instructionsFrom_cons_of_halts (hh : (Opcode.ofByte h).halts = true) (start : Nat)
    (rest : List UInt8) :
    instructionsFrom start (h :: rest) =
      ⟨start, .ofByte h, []⟩ :: instructionsFrom (start + 1) rest := by
  have hsize : ([] : List UInt8).length = (Opcode.ofByte h).operandSize :=
    (Opcode.operandSize_of_halts hh).symm
  exact instructionsFrom_cons hsize

/-- A last operand that is cut off does no harm where nothing follows. -/
theorem instructionsFrom_append_of (hd : s = [] ∨ Complete d) (start : Nat) :
    instructionsFrom start (d ++ s) =
      instructionsFrom start d ++ instructionsFrom (start + d.length) s := by
  rcases hd with rfl | hd
  · rw [List.append_nil, instructionsFrom.eq_1, List.append_nil]
  · exact hd.instructionsFrom_append start s

theorem opcode_ne_jumpDest (hjump : ∀ pc, ¬ Holds d .jumpDest pc) :
    ∀ i ∈ instructionsFrom start d, i.opcode ≠ .jumpDest := by
  intro i hi hop
  rw [← Nat.zero_add start, instructionsFrom_add, List.mem_map] at hi
  obtain ⟨j, hj, rfl⟩ := hi
  exact hjump j.position (holds_iff_exists_mem.2 ⟨j, hj, hop, rfl⟩)

theorem relocate_pushedBack_of_lt {i : Instruction} {n size : Nat} (hi : i.position < n) :
    i.relocate (pushedBack n size) = i := by
  rw [Instruction.relocate, pushedBack, if_pos hi]

theorem relocate_pushedBack_of_le {i : Instruction} {n size : Nat} (hi : n ≤ i.position) :
    i.relocate (pushedBack n size) = i.relocate (· + size) := by
  rw [Instruction.relocate, pushedBack, if_neg (Nat.not_lt.2 hi)]
  rfl

theorem Complete.instructions_append_cons (hp : Complete p) (hh : (Opcode.ofByte h).halts = true)
    (rest : List UInt8) :
    instructions (p ++ h :: rest) =
      instructions p ++ ⟨p.length, .ofByte h, []⟩ :: instructionsFrom (p.length + 1) rest := by
  rw [instructions, hp.instructionsFrom_append, Nat.zero_add, instructionsFrom_cons_of_halts hh]
  rfl

/-- The instructions in front stay where they are, and those behind move by the size of what was put
in. -/
theorem instructions_pushedBack (hp : Complete p) (hh : (Opcode.ofByte h).halts = true) (size : Nat)
    (s : List UInt8) :
    (instructions (p ++ h :: s)).map (.relocate (pushedBack (p.length + 1) size)) =
      instructions p ++ ⟨p.length, .ofByte h, []⟩ :: instructionsFrom (p.length + 1 + size) s := by
  have hfront : (instructions p).map (.relocate (pushedBack (p.length + 1) size)) =
      instructions p := by
    refine (List.map_congr_left fun i hi => ?_).trans (List.map_id _)
    have hlt := position_lt_of_mem_instructionsFrom hi
    exact relocate_pushedBack_of_lt (by omega)
  have hback :
      (instructionsFrom (p.length + 1) s).map (.relocate (pushedBack (p.length + 1) size)) =
        instructionsFrom (p.length + 1 + size) s := by
    rw [instructionsFrom_add _ size]
    exact List.map_congr_left fun i hi =>
      relocate_pushedBack_of_le (le_position_of_mem_instructionsFrom hi)
  have hhalt : (Instruction.mk p.length (.ofByte h) []).relocate (pushedBack (p.length + 1) size) =
      ⟨p.length, .ofByte h, []⟩ := relocate_pushedBack_of_lt (Nat.lt_succ_self _)
  rw [hp.instructions_append_cons hh, List.map_append, List.map_cons, hfront, hhalt, hback]

/-- Dead code is irrelevant, be it complete or, where nothing follows, cut off by the end of the
code. Left out, it takes no flag with it, whichever halt stands before it and whether or not a
`JUMPDEST` follows. -/
theorem scan_without_dead_code (hp : Complete p) (hh : (Opcode.ofByte h).halts = true)
    (hjump : ∀ pc, ¬ Holds d .jumpDest pc) (hd : s = [] ∨ Complete d) :
    verdict (p ++ h :: (d ++ s)) = verdict (p ++ h :: s) ∧
    (scan (p ++ h :: (d ++ s))).selfDestruct =
      (scan (p ++ h :: s)).selfDestruct.map (pushedBack (p.length + 1) d.length) ∧
    (scan (p ++ h :: (d ++ s))).delegateCalls =
      (scan (p ++ h :: s)).delegateCalls.map (pushedBack (p.length + 1) d.length) := by
  have hsame : (sweep false (instructions (p ++ h :: (d ++ s)))).SameFlags
      ((sweep false (instructions (p ++ h :: s))).relocate
        (pushedBack (p.length + 1) d.length)) := by
    rw [← sweep_relocate, instructions_pushedBack hp hh, hp.instructions_append_cons hh,
      instructionsFrom_append_of hd]
    exact sweep_without_dead_code hh (opcode_ne_jumpDest hjump) false
  exact ⟨hsame.verdict.trans (Findings.verdict_relocate _ _), hsame.selfDestruct,
    hsame.delegateCalls⟩

/-- A `SELFDESTRUCT`, a `JUMPDEST` byte that is an operand, and a `DELEGATECALL`. -/
def deadBlock : List UInt8 := [0xff, 0x60, 0x5b, 0xf4]

/-- Behind a `REVERT` the block is dead, and what the `JUMPDEST` behind it wakes is found four bytes
earlier without it. -/
theorem scan_without_dead_block :
    Complete [0xf4] ∧ (Opcode.ofByte 0xfd).halts = true ∧
      (∀ pc, ¬ Holds deadBlock .jumpDest pc) ∧ Complete deadBlock ∧
      verdict ([0xf4] ++ 0xfd :: (deadBlock ++ [0x5b, 0xf4, 0xff])) =
        verdict ([0xf4] ++ 0xfd :: [0x5b, 0xf4, 0xff]) ∧
      (scan ([0xf4] ++ 0xfd :: (deadBlock ++ [0x5b, 0xf4, 0xff]))).selfDestruct =
        (scan ([0xf4] ++ 0xfd :: [0x5b, 0xf4, 0xff])).selfDestruct.map (pushedBack 2 4) ∧
      (scan ([0xf4] ++ 0xfd :: (deadBlock ++ [0x5b, 0xf4, 0xff]))).delegateCalls =
        (scan ([0xf4] ++ 0xfd :: [0x5b, 0xf4, 0xff])).delegateCalls.map (pushedBack 2 4) := by
  have hp : Complete [0xf4] := .cons 0xf4 [] _ rfl .nil
  have hd : Complete deadBlock :=
    .cons 0xff [] _ rfl (.cons 0x60 [0x5b] _ rfl (.cons 0xf4 [] _ rfl .nil))
  have hops : (instructions deadBlock).map Instruction.opcode =
      [.selfDestruct, .push 1, .delegateCall] := by cbv
  have hjump (pc : Nat) : ¬ Holds deadBlock .jumpDest pc := by
    rw [holds_iff_exists_mem]
    rintro ⟨i, hi, hop, -⟩
    have hmem := List.mem_map_of_mem (f := Instruction.opcode) hi
    rw [hops, hop] at hmem
    revert hmem
    decide
  exact ⟨hp, rfl, hjump, hd, scan_without_dead_code hp rfl hjump (.inr hd)⟩

end Code

end ProposalVetting.Bytecode

import ProposalVetting.Proofs.Bytecode.Operands

namespace ProposalVetting.Bytecode

/-- How far a sweep has come: the position to read next, whether the code there is dead, what was
visited and found so far. -/
structure Walk where
  pc : Nat := 0
  dead : Bool := false
  passed : List Instruction := []
  found : Findings := {}

/-- The instruction that byte `b` begins at `pc`. Its operand ends where the code does, if not
before. -/
def instructionOf (code : List UInt8) (pc : Nat) (b : UInt8) : Instruction :=
  ⟨pc, .ofByte b, (code.drop (pc + 1)).take (Opcode.ofByte b).operandSize⟩

namespace Walk

/-- The walk behind the instruction `i` of a code of `n` bytes. -/
def pass (n : Nat) (w : Walk) (i : Instruction) : Walk where
  pc := i.next
  dead := deadAfter w.dead i.opcode
  passed := w.passed ++ [i]
  found :=
    { selfDestruct := if i.opcode = .selfDestruct ∧ w.dead = false then some i.position else none
      delegateCalls :=
        w.found.delegateCalls ++
          if i.opcode = .delegateCall ∧ w.dead = false then [i.position] else []
      visited := w.found.visited + 1
      truncated :=
        w.found.truncated ||
          decide (0 < i.opcode.operandSize ∧ n ≤ i.position + i.opcode.operandSize) }

@[simp] theorem pc_pass (n : Nat) (w : Walk) (i : Instruction) : (w.pass n i).pc = i.next := rfl
@[simp] theorem dead_pass (n : Nat) (w : Walk) (i : Instruction) :
    (w.pass n i).dead = deadAfter w.dead i.opcode := rfl
@[simp] theorem passed_pass (n : Nat) (w : Walk) (i : Instruction) :
    (w.pass n i).passed = w.passed ++ [i] := rfl
@[simp] theorem visited_pass (n : Nat) (w : Walk) (i : Instruction) :
    (w.pass n i).found.visited = w.found.visited + 1 := rfl

/-- One turn. There is none behind a live `SELFDESTRUCT`, nor where the code has ended. -/
def turn? (code : List UInt8) (w : Walk) : Option Walk :=
  if w.found.selfDestruct.isSome then none
  else if h : w.pc < code.length then some (w.pass code.length (instructionOf code w.pc code[w.pc]))
  else none

/-- The walk after `n` turns, or where it is over before. -/
def after (code : List UInt8) : Nat → Walk
  | 0 => {}
  | n + 1 => ((after code n).turn? code).getD (after code n)

variable {code : List UInt8} {w v : Walk} {n : Nat}

theorem turn?_eq_some_iff :
    w.turn? code = some v ↔
      w.found.selfDestruct = none ∧
        ∃ h : w.pc < code.length, v = w.pass code.length (instructionOf code w.pc code[w.pc]) := by
  unfold turn?
  by_cases hsome : w.found.selfDestruct.isSome
  · rw [if_pos hsome]
    exact iff_of_false nofun fun h => by simp [h.1] at hsome
  · rw [if_neg hsome, ← Option.not_isSome_iff_eq_none, and_iff_right hsome]
    by_cases hlt : w.pc < code.length
    · rw [dif_pos hlt, exists_prop_of_true hlt, Option.some.injEq, eq_comm]
    · rw [dif_neg hlt]
      exact iff_of_false nofun fun h => hlt h.1

theorem turn?_eq_none_iff :
    w.turn? code = none ↔ w.found.selfDestruct.isSome ∨ code.length ≤ w.pc := by
  unfold turn?
  by_cases hsome : w.found.selfDestruct.isSome
  · simp [hsome]
  · by_cases hlt : w.pc < code.length
    · simp [hsome, hlt]
    · simp [hsome, Nat.le_of_not_lt hlt]

theorem next_instructionOf (code : List UInt8) (pc : Nat) (b : UInt8) :
    (instructionOf code pc b).next = pc + 1 + (Opcode.ofByte b).operandSize := rfl

/-- The bytes of an instruction fill the code up to where it ends. -/
theorem take_append_bytes {pc : Nat} {b : UInt8} (hb : code[pc]? = some b) :
    code.take pc ++ (instructionOf code pc b).bytes = code.take (instructionOf code pc b).next := by
  rw [next_instructionOf, List.take_add, List.take_add_one, hb, Instruction.bytes, instructionOf,
    Opcode.toByte_ofByte]
  simp

theorem isTruncated_instructionOf_iff {pc : Nat} (hlt : pc < code.length) (b : UInt8) :
    (instructionOf code pc b).isTruncated = true ↔
      code.length < (instructionOf code pc b).next := by
  rw [next_instructionOf]
  simp only [Instruction.isTruncated, instructionOf, List.length_take, List.length_drop,
    decide_eq_true_eq]
  omega

/-- A turn finds what a sweep over the one instruction finds. -/
theorem found_pass {i : Instruction} (hnone : w.found.selfDestruct = none)
    (hcut : i.isTruncated = true ↔ n < i.next) (hlt : i.position < n) :
    (w.pass n i).found = w.found ++ sweep w.dead [i] := by
  have htruncated : i.isTruncated =
      decide (0 < i.opcode.operandSize ∧ n ≤ i.position + i.opcode.operandSize) := by
    rw [Bool.eq_iff_iff, hcut, Instruction.next, decide_eq_true_iff]
    omega
  rw [Findings.append_of_eq_none hnone, sweep_singleton, htruncated]
  rfl

/-- What holds before the first turn and after each one. -/
structure Inv (code : List UInt8) (w : Walk) : Prop where
  /-- The first instruction stands at position 0, and each other one where the one before it
  ends. -/
  adjoining : 0 :: w.passed.map Instruction.next = w.passed.map Instruction.position ++ [w.pc]
  placed : ∀ i ∈ w.passed, ∃ h : i.position < code.length,
    i = instructionOf code i.position code[i.position]
  spelled : w.passed.flatMap Instruction.bytes = code.take w.pc
  counted : w.found.visited = w.passed.length
  short : w.passed.length ≤ w.pc ∧ w.passed.length ≤ code.length
  flagged : ∀ sd, w.found.selfDestruct = some sd → sd < code.length ∧ w.pc = sd + 1
  cut : w.found.truncated = true ↔ code.length < w.pc
  /-- What a sweep over the rest adds makes up the findings of the whole sweep. -/
  completed : w.found ++ sweep w.dead (instructionsFrom w.pc (code.drop w.pc)) =
    sweep false (instructions code)

theorem inv_start (code : List UInt8) : Inv code {} where
  adjoining := rfl
  placed _ hi := nomatch hi
  spelled := rfl
  counted := rfl
  short := ⟨Nat.zero_le _, Nat.zero_le _⟩
  flagged _ h := nomatch h
  cut := iff_of_false Bool.false_ne_true (Nat.not_lt_zero _)
  completed := Findings.nil_append _

theorem Inv.turn (hinv : Inv code w) (h : w.turn? code = some v) : Inv code v := by
  obtain ⟨hnone, hlt, rfl⟩ := turn?_eq_some_iff.1 h
  have hb : code[w.pc]? = some code[w.pc] := List.getElem?_eq_getElem hlt
  have hcut := isTruncated_instructionOf_iff hlt code[w.pc]
  have hfound := found_pass hnone hcut hlt
  constructor
  case adjoining =>
    rw [passed_pass, List.map_append, List.map_append, ← List.cons_append, hinv.adjoining]
    rfl
  case placed =>
    intro i hi
    rcases List.mem_append.1 hi with hi | hi
    · exact hinv.placed i hi
    · rw [List.mem_singleton.1 hi]
      exact ⟨hlt, rfl⟩
  case spelled =>
    rw [passed_pass, pc_pass, List.flatMap_append, hinv.spelled, List.flatMap_singleton,
      take_append_bytes hb]
  case counted =>
    rw [visited_pass, passed_pass, List.length_append, hinv.counted, List.length_singleton]
  case short =>
    obtain ⟨hpc, -⟩ := hinv.short
    rw [passed_pass, pc_pass, List.length_append, List.length_singleton, next_instructionOf]
    omega
  case flagged =>
    intro sd hsd
    change (if _ then some w.pc else none) = some sd at hsd
    split at hsd
    · next hop =>
      cases hsd
      exact ⟨hlt, congrArg (w.pc + 1 + Opcode.operandSize ·) hop.1⟩
    · cases hsd
  case cut =>
    -- a turn is only taken while nothing was cut off
    have hwhole : w.found.truncated = false := by
      rw [← Bool.not_eq_true, hinv.cut]
      omega
    rw [pc_pass, hfound, Findings.append_of_eq_none hnone, sweep_singleton, hwhole,
      Bool.false_or, hcut]
  case completed =>
    have hrest : instructionsFrom w.pc (code.drop w.pc) = instructionOf code w.pc code[w.pc] ::
        instructionsFrom (instructionOf code w.pc code[w.pc]).next
          (code.drop (instructionOf code w.pc code[w.pc]).next) := instructionsFrom_drop hb
    rw [hfound, Findings.append_assoc, pc_pass, dead_pass, ← sweep_cons, ← hrest, hinv.completed]

theorem inv_after (code : List UInt8) (n : Nat) : Inv code (after code n) := by
  induction n with
  | zero => exact inv_start code
  | succ n ih =>
    rw [after]
    cases h : (after code n).turn? code with
    | none => exact ih
    | some v => exact ih.turn h

theorem length_passed_of_turn (h : w.turn? code = some v) :
    v.passed.length = w.passed.length + 1 := by
  obtain ⟨-, -, rfl⟩ := turn?_eq_some_iff.1 h
  rw [passed_pass, List.length_append, List.length_singleton]

/-- As long as the walk goes on, each turn visits one instruction. -/
theorem over_or_length_after (code : List UInt8) (n : Nat) :
    (after code n).turn? code = none ∨ (after code n).passed.length = n := by
  induction n with
  | zero => exact .inr rfl
  | succ n ih =>
    rw [after]
    cases hturn : (after code n).turn? code with
    | none => exact .inl hturn
    | some v =>
      have hlength : (after code n).passed.length = n := ih.resolve_left (by rw [hturn]; nofun)
      refine .inr ?_
      rw [Option.getD_some, length_passed_of_turn hturn, hlength]

/-- As many turns as the code has bytes are enough. -/
theorem turn?_after_length (code : List UInt8) : (after code code.length).turn? code = none := by
  rcases over_or_length_after code code.length with hover | hlength
  · exact hover
  · -- one more turn would visit more instructions than there are bytes
    by_contra hturn
    obtain ⟨v, hv⟩ := Option.ne_none_iff_exists'.1 hturn
    have hshort := ((inv_after code code.length).turn hv).short.2
    rw [length_passed_of_turn hv, hlength] at hshort
    exact absurd hshort (Nat.not_succ_le_self _)

theorem Inv.found_of_over (hinv : Inv code w) (hover : w.turn? code = none) :
    w.found = sweep false (instructions code) := by
  rw [← hinv.completed]
  rcases turn?_eq_none_iff.1 hover with hsome | hle
  · rw [Findings.append_of_isSome hsome]
  · rw [List.drop_eq_nil_of_le hle, instructionsFrom, sweep, Findings.append_nil]

theorem Inv.spelled_of_over (hinv : Inv code w) (hover : w.turn? code = none) :
    w.passed.flatMap Instruction.bytes =
      w.found.selfDestruct.elim code fun sd => code.take (sd + 1) := by
  rw [hinv.spelled]
  cases hsd : w.found.selfDestruct with
  | some sd => rw [(hinv.flagged sd hsd).2, Option.elim]
  | none =>
    rcases turn?_eq_none_iff.1 hover with hsome | hle
    · rw [hsd] at hsome
      cases hsome
    · exact List.take_of_length_le hle

/-- The walk stands behind the last instruction that it visited. -/
theorem Inv.pc_eq (hinv : Inv code w) : w.pc = (w.passed.getLast?.map Instruction.next).getD 0 := by
  have hlast := congrArg List.getLast? hinv.adjoining
  rw [List.getLast?_cons, List.getLast?_concat, List.getLast?_map] at hlast
  exact (Option.some.inj hlast).symm

theorem exists_push_of_operandSize_pos (op : Opcode) (h : 0 < op.operandSize) :
    ∃ size, op = .push size := by
  cases op with
  | push size => exact ⟨size, rfl⟩
  | _ => exact absurd h (Nat.lt_irrefl 0)

theorem Inv.selfDestruct_eq_none (hinv : Inv code w) (hcut : code.length < w.pc) :
    w.found.selfDestruct = none := by
  rw [Option.eq_none_iff_forall_ne_some]
  intro sd hsd
  have hflagged := hinv.flagged sd hsd
  omega

/-- Only a `PUSH` that lacks a byte of its operand leads past the end of the code. -/
theorem Inv.length_lt_pc_iff (hinv : Inv code w) :
    code.length < w.pc ↔ ∃ i size, w.passed.getLast? = some i ∧ i.opcode = .push size ∧
      code.length ≤ i.position + size.toNat := by
  rw [hinv.pc_eq]
  cases hlast : w.passed.getLast? with
  | none => simp
  | some i =>
    obtain ⟨hlt, -⟩ := hinv.placed i (List.mem_of_getLast? hlast)
    rw [Option.map_some, Option.getD_some, Instruction.next]
    constructor
    · intro hcut
      obtain ⟨size, hop⟩ := exists_push_of_operandSize_pos i.opcode (by omega)
      rw [hop, Opcode.operandSize] at hcut
      exact ⟨i, size, rfl, hop, by omega⟩
    · rintro ⟨j, size, hj, hop, hle⟩
      cases hj
      rw [hop, Opcode.operandSize]
      omega

theorem Inv.truncated_iff (hinv : Inv code w) :
    w.found.truncated = true ↔
      w.found.selfDestruct = none ∧ ∃ i size, w.passed.getLast? = some i ∧ i.opcode = .push size ∧
        code.length ≤ i.position + size.toNat := by
  rw [hinv.cut, ← hinv.length_lt_pc_iff, iff_and_self]
  exact hinv.selfDestruct_eq_none

end Walk

/-- The sweep as a loop ends after at most as many turns as the code has bytes, and every turn reads
a byte inside the code. It visits position 0 and then, each time, the position behind the operand;
the bytes of what it visits are those of the code, up to the `SELFDESTRUCT` that is flagged or else
to the end. A scan reports what the loop finds, counts what it visits, and calls an operand
truncated exactly when nothing is flagged and the last instruction is a `PUSH` that lacks a byte. -/
theorem walk_tiles_code (code : List UInt8) :
    let w := Walk.after code code.length
    w.turn? code = none ∧
    scan code = w.found.report code.length ∧
    0 :: w.passed.map Instruction.next = w.passed.map Instruction.position ++ [w.pc] ∧
    (∀ i ∈ w.passed, ∃ h : i.position < code.length,
      i = instructionOf code i.position code[i.position]) ∧
    w.passed.length ≤ code.length ∧
    (scan code).visited = w.passed.length ∧
    (w.passed.flatMap Instruction.bytes =
      (scan code).selfDestruct.elim code fun sd => code.take (sd + 1)) ∧
    ((scan code).truncated = true ↔
      (scan code).selfDestruct = none ∧ ∃ i size, w.passed.getLast? = some i ∧
        i.opcode = .push size ∧ code.length ≤ i.position + size.toNat) := by
  intro w
  have hinv : w.Inv code := Walk.inv_after code code.length
  have hover : w.turn? code = none := Walk.turn?_after_length code
  have hscan : scan code = w.found.report code.length := by
    rw [scan_eq_report, hinv.found_of_over hover]
  refine ⟨hover, hscan, hinv.adjoining, hinv.placed, hinv.short.2, ?_, ?_, ?_⟩
  · rw [hscan]
    exact hinv.counted
  · rw [hscan]
    exact hinv.spelled_of_over hover
  · rw [hscan]
    exact hinv.truncated_iff

/-- The last byte of the code ends the operand in the first code; in the second the operand lacks
one. -/
example :
    (scan [0x61, 0xff, 0xff]).truncated = false ∧ (scan [0x61, 0xff]).truncated = true := by cbv

end ProposalVetting.Bytecode

import ProposalVetting.Bytecode.Instruction

namespace ProposalVetting.Bytecode

/-- Position 0, and behind every instruction inside the code the position that follows its
operand. -/
inductive Position (code : List UInt8) : Nat → Prop where
  | start : Position code 0
  | next {pc : Nat} {b : UInt8} (h : Position code pc) (hb : code[pc]? = some b) :
    Position code (pc + 1 + (Opcode.ofByte b).operandSize)

/-- An instruction position inside the code, and the opcode found there. -/
structure Holds (code : List UInt8) (opcode : Opcode) (pc : Nat) : Prop where
  position : Position code pc
  opcode_at : code[pc]?.map Opcode.ofByte = some opcode

variable {code : List UInt8} {op op' : Opcode} {pc : Nat}

theorem Holds.opcode_unique (h : Holds code op pc) (h' : Holds code op' pc) : op = op' :=
  Option.some.inj (h.opcode_at.symm.trans h'.opcode_at)

theorem Holds.position_next (h : Holds code op pc) : Position code (pc + 1 + op.operandSize) := by
  obtain ⟨b, hb, rfl⟩ := Option.map_eq_some_iff.1 h.opcode_at
  exact .next h.position hb

/-- At an instruction position the decoding of the whole code goes on like that of the rest. -/
theorem instructionsFrom_drop {b : UInt8} (hb : code[pc]? = some b) :
    instructionsFrom pc (code.drop pc) =
      ⟨pc, .ofByte b, (code.drop (pc + 1)).take (Opcode.ofByte b).operandSize⟩ ::
        instructionsFrom (pc + 1 + (Opcode.ofByte b).operandSize)
          (code.drop (pc + 1 + (Opcode.ofByte b).operandSize)) := by
  obtain ⟨hlt, rfl⟩ := List.getElem?_eq_some_iff.1 hb
  rw [List.drop_eq_getElem_cons hlt, instructionsFrom]
  simp only [List.drop_drop]

theorem exists_instructions_eq_append (h : Position code pc) :
    ∃ before, instructions code = before ++ instructionsFrom pc (code.drop pc) := by
  induction h with
  | start => exact ⟨[], rfl⟩
  | next h hb ih =>
    obtain ⟨before, ih⟩ := ih
    rw [instructionsFrom_drop hb] at ih
    exact ⟨before ++ [_], by rw [ih, List.append_assoc]; rfl⟩

theorem getElem?_of_drop_eq_cons {b : UInt8} {rest : List UInt8} (hr : code.drop pc = b :: rest) :
    code[pc]? = some b := by
  rw [← List.head?_drop, hr, List.head?_cons]

theorem drop_next {b : UInt8} {rest : List UInt8} (hr : code.drop pc = b :: rest) (size : Nat) :
    code.drop (pc + 1 + size) = rest.drop size := by
  rw [Nat.add_assoc, ← List.drop_drop, hr, Nat.add_comm 1, List.drop_succ_cons]

theorem holds_of_mem_instructionsFrom {start : Nat} {rest : List UInt8} {i : Instruction}
    (hs : Position code start) (hr : code.drop start = rest)
    (hi : i ∈ instructionsFrom start rest) :
    Holds code i.opcode i.position := by
  induction start, rest using instructionsFrom.induct with
  | case1 start => simp [instructionsFrom] at hi
  | case2 start b rest opcode ih =>
    have hb := getElem?_of_drop_eq_cons hr
    rw [instructionsFrom, List.mem_cons] at hi
    rcases hi with rfl | hi
    · exact ⟨hs, by rw [hb]; rfl⟩
    · -- a truncated operand leads past the end, where both sides are empty
      exact ih (.next hs hb) (drop_next hr _) hi

/-- Decoding finds what stands at the instruction positions, and nothing else. -/
theorem holds_iff_exists_mem :
    Holds code op pc ↔ ∃ i ∈ instructions code, i.opcode = op ∧ i.position = pc := by
  constructor
  · intro h
    obtain ⟨b, hb, rfl⟩ := Option.map_eq_some_iff.1 h.opcode_at
    obtain ⟨before, heq⟩ := exists_instructions_eq_append h.position
    rw [instructionsFrom_drop hb] at heq
    exact ⟨_, by rw [heq]; exact List.mem_append_right _ List.mem_cons_self, rfl, rfl⟩
  · rintro ⟨i, hi, rfl, rfl⟩
    exact holds_of_mem_instructionsFrom .start rfl hi

theorem le_position_of_mem_instructionsFrom {start : Nat} {rest : List UInt8} {i : Instruction}
    (hi : i ∈ instructionsFrom start rest) : start ≤ i.position := by
  induction start, rest using instructionsFrom.induct with
  | case1 start => simp [instructionsFrom] at hi
  | case2 start b rest opcode ih =>
    rw [instructionsFrom, List.mem_cons] at hi
    rcases hi with rfl | hi
    · exact Nat.le_refl _
    · have := ih hi
      omega

/-- Each instruction ends before the next one begins. -/
theorem pairwise_instructionsFrom (start : Nat) (rest : List UInt8) :
    (instructionsFrom start rest).Pairwise fun i j => i.next ≤ j.position := by
  induction start, rest using instructionsFrom.induct with
  | case1 start => simp [instructionsFrom]
  | case2 start b rest opcode ih =>
    rw [instructionsFrom]
    exact List.pairwise_cons.2 ⟨fun j hj => le_position_of_mem_instructionsFrom hj, ih⟩

theorem Instruction.position_lt_next (i : Instruction) : i.position < i.next := by
  unfold Instruction.next
  omega

/-- The positions of the instructions ascend. -/
abbrev Ascending (is : List Instruction) : Prop := is.Pairwise fun i j => i.position < j.position

theorem ascending_instructions (code : List UInt8) : Ascending (instructions code) :=
  (pairwise_instructionsFrom 0 code).imp fun {i _} h => Nat.lt_of_lt_of_le i.position_lt_next h

/-- No instruction begins inside another one. -/
theorem Holds.next_le {qc : Nat} (h : Holds code op pc) (h' : Holds code op' qc) (hlt : pc < qc) :
    pc + 1 + op.operandSize ≤ qc := by
  obtain ⟨i, hi, rfl, rfl⟩ := holds_iff_exists_mem.1 h
  obtain ⟨j, hj, -, rfl⟩ := holds_iff_exists_mem.1 h'
  obtain ⟨m, hm, rfl⟩ := List.getElem_of_mem hi
  obtain ⟨n, hn, rfl⟩ := List.getElem_of_mem hj
  -- the one that begins first stands first in the list, and ends before the other begins
  rcases Nat.lt_trichotomy m n with hmn | rfl | hmn
  · exact List.pairwise_iff_getElem.1 (pairwise_instructionsFrom 0 code) m n hm hn hmn
  · exact absurd hlt (Nat.lt_irrefl _)
  · have := List.pairwise_iff_getElem.1 (ascending_instructions code) n m hn hm hmn
    omega

end ProposalVetting.Bytecode

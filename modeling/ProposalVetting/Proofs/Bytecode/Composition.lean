import ProposalVetting.Proofs.Bytecode.Operands

namespace ProposalVetting.Bytecode

/-- Instructions one behind the other, each with its whole operand. -/
inductive Complete : List UInt8 → Prop where
  | nil : Complete []
  | cons (b : UInt8) (operand rest : List UInt8)
    (hsize : operand.length = (Opcode.ofByte b).operandSize)
    (hrest : Complete rest) : Complete (b :: (operand ++ rest))

variable {p q : List UInt8} {start : Nat} {i : Instruction}

theorem instructionsFrom_cons {b : UInt8} {operand rest : List UInt8}
    (hsize : operand.length = (Opcode.ofByte b).operandSize) :
    instructionsFrom start (b :: (operand ++ rest)) =
      ⟨start, .ofByte b, operand⟩ :: instructionsFrom (start + 1 + operand.length) rest := by
  rw [instructionsFrom, ← hsize, List.take_left, List.drop_left]

/-- Decoding goes on where complete instructions end. -/
theorem Complete.instructionsFrom_append (hp : Complete p) (start : Nat) (q : List UInt8) :
    instructionsFrom start (p ++ q) =
      instructionsFrom start p ++ instructionsFrom (start + p.length) q := by
  induction hp generalizing start with
  | nil => rw [instructionsFrom]; rfl
  | cons b operand rest hsize hrest ih =>
    rw [List.cons_append, List.append_assoc, instructionsFrom_cons hsize,
      instructionsFrom_cons hsize, ih]
    rw [List.length_cons, List.length_append, List.cons_append]
    congr 3
    omega

theorem Complete.next_le (hp : Complete p) (hi : i ∈ instructionsFrom start p) :
    i.next ≤ start + p.length := by
  induction hp generalizing start with
  | nil => simp [instructionsFrom] at hi
  | cons b operand rest hsize hrest ih =>
    rw [instructionsFrom_cons hsize, List.mem_cons] at hi
    rw [List.length_cons, List.length_append]
    rcases hi with rfl | hi
    · rw [Instruction.next, ← hsize]
      dsimp only
      omega
    · have := ih hi
      omega

/-- The decoding of code that stands further back. -/
theorem instructionsFrom_add (start n : Nat) (code : List UInt8) :
    instructionsFrom (start + n) code = (instructionsFrom start code).map (.relocate (· + n)) := by
  induction start, code using instructionsFrom.induct with
  | case1 start => rw [instructionsFrom, instructionsFrom]; rfl
  | case2 start b rest opcode ih =>
    have hnext : start + n + 1 + opcode.operandSize = start + 1 + opcode.operandSize + n := by omega
    rw [instructionsFrom, instructionsFrom, List.map_cons, ← ih, ← hnext]
    rfl

/-- A `JUMPDEST` takes the flag down, whatever stands before it. -/
theorem sweep_of_jumpDest (hq : Holds q .jumpDest 0) (dead : Bool) (start : Nat) :
    sweep dead (instructionsFrom start q) = sweep false (instructionsFrom start q) := by
  cases q with
  | nil => cases hq.opcode_at
  | cons b rest =>
    have hb : Opcode.ofByte b = .jumpDest := Option.some.inj hq.opcode_at
    rw [instructionsFrom, hb]
    cases dead <;> rfl

theorem Complete.sweep_instructions_append (hp : Complete p) (q : List UInt8) :
    sweep false (instructions (p ++ q)) =
      sweep false (instructions p) ++
        (sweep (deadBehind false (instructions p)) (instructions q)).relocate (· + p.length) := by
  rw [instructions, hp.instructionsFrom_append, instructionsFrom_add, sweep_append, sweep_relocate]
  rfl

theorem Complete.truncated_eq_false (hp : Complete p) : (scan p).truncated = false := by
  rw [← Bool.not_eq_true, scan_truncated_iff]
  rintro ⟨-, i, hi, hlt⟩
  have := hp.next_le hi
  omega

/-- The report of one code followed by that of another, whose positions come behind all of the
first. -/
def ScanReport.append (r s : ScanReport) : ScanReport where
  verdict := max r.verdict s.verdict
  selfDestruct := s.selfDestruct.map (· + r.codeLength)
  delegateCalls := r.delegateCalls ++ s.delegateCalls.map (· + r.codeLength)
  visited := r.visited + s.visited
  truncated := s.truncated
  codeLength := r.codeLength + s.codeLength

instance : Append ScanReport := ⟨ScanReport.append⟩

theorem Findings.report_append {f g : Findings} {m n : Nat} (hnone : f.selfDestruct = none)
    (hwhole : f.truncated = false) :
    (f ++ g.relocate (· + m)).report (m + n) = f.report m ++ g.report n := by
  rw [report, verdict_append, verdict_relocate, append_of_eq_none hnone, hwhole, Bool.false_or]
  rfl

/-- Scanning is compositional at a `JUMPDEST`, unless the scan ends before it. -/
theorem scan_append_of_jumpDest (hp : Complete p) (hsafe : verdict p ≠ .selfDestruct)
    (hq : Holds q .jumpDest 0) :
    scan (p ++ q) = scan p ++ scan q := by
  have hnone : (sweep false (instructions p)).selfDestruct = none := by
    by_contra hsome
    exact hsafe (Findings.verdict_of_isSome (Option.isSome_iff_ne_none.2 hsome))
  have hflag : sweep (deadBehind false (instructions p)) (instructions q) =
      sweep false (instructions q) :=
    sweep_of_jumpDest hq _ 0
  rw [scan_eq_report, hp.sweep_instructions_append, hflag, List.length_append,
    Findings.report_append hnone hp.truncated_eq_false, ← scan_eq_report, ← scan_eq_report]

/-- A `SELFDESTRUCT` behind the `STOP` stays dead, and the `JUMPDEST` of the second part wakes what
follows it. -/
theorem scan_append_behind_stop :
    Complete [0xf4, 0x60, 0xff, 0x00, 0xff] ∧
      verdict [0xf4, 0x60, 0xff, 0x00, 0xff] ≠ .selfDestruct ∧
      Holds [0x5b, 0xf4, 0xff] .jumpDest 0 ∧
      scan ([0xf4, 0x60, 0xff, 0x00, 0xff] ++ [0x5b, 0xf4, 0xff]) =
        scan [0xf4, 0x60, 0xff, 0x00, 0xff] ++ scan [0x5b, 0xf4, 0xff] := by
  have hp : Complete [0xf4, 0x60, 0xff, 0x00, 0xff] :=
    .cons 0xf4 [] _ rfl (.cons 0x60 [0xff] _ rfl (.cons 0x00 [] _ rfl (.cons 0xff [] _ rfl .nil)))
  have hsafe : verdict [0xf4, 0x60, 0xff, 0x00, 0xff] ≠ .selfDestruct := by
    have : verdict [0xf4, 0x60, 0xff, 0x00, 0xff] = .delegateCall := by cbv
    rw [this]
    decide
  have hq : Holds [0x5b, 0xf4, 0xff] .jumpDest 0 := ⟨.start, rfl⟩
  exact ⟨hp, hsafe, hq, scan_append_of_jumpDest hp hsafe hq⟩

end ProposalVetting.Bytecode

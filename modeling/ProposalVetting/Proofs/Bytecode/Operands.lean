import ProposalVetting.Proofs.Bytecode.Findings
import ProposalVetting.Proofs.Bytecode.Position

namespace ProposalVetting.Bytecode

/-- The instruction with an operand of zeros, which no end of the code cuts off. -/
def Instruction.padded (i : Instruction) : Instruction :=
  { i with operand := List.replicate i.opcode.operandSize 0 }

theorem Instruction.isTruncated_padded (i : Instruction) : i.padded.isTruncated = false := by
  simp [isTruncated, padded]

namespace Findings

def untruncated (f : Findings) : Findings := { f with truncated := false }

theorem untruncated_append (f g : Findings) :
    (f ++ g).untruncated = f.untruncated ++ g.untruncated := by
  obtain ⟨_ | pc, _, _, _⟩ := f <;> rfl

theorem selfDestruct_of_untruncated {f g : Findings} (h : f.untruncated = g.untruncated) :
    f.selfDestruct = g.selfDestruct := by
  change f.untruncated.selfDestruct = g.untruncated.selfDestruct
  rw [h]

theorem eq_of_untruncated {f g : Findings} (h : f.untruncated = g.untruncated)
    (ht : f.truncated = true ↔ g.truncated = true) : f = g := by
  have ht : f.truncated = g.truncated := Bool.eq_iff_iff.2 ht
  cases f
  cases g
  simp_all [untruncated]

end Findings

/-- What an operand holds never matters to a sweep. -/
theorem sweep_padded (dead : Bool) (is : List Instruction) :
    sweep dead (is.map .padded) = (sweep dead is).untruncated := by
  refine sweep_map .padded .untruncated (fun _ => rfl) rfl Findings.untruncated_append
    (fun dead i => ?_) dead is
  rw [sweep_singleton, sweep_singleton, Instruction.isTruncated_padded]
  rfl

section Truncation

variable {dead : Bool} {start : Nat} {code : List UInt8} {is : List Instruction} {i : Instruction}

theorem position_lt_of_mem_instructionsFrom (hi : i ∈ instructionsFrom start code) :
    i.position < start + code.length := by
  induction start, code using instructionsFrom.induct with
  | case1 start => simp [instructionsFrom] at hi
  | case2 start b rest opcode ih =>
    rw [instructionsFrom, List.mem_cons] at hi
    rw [List.length_cons]
    rcases hi with rfl | hi
    · exact Nat.lt_add_of_pos_right (Nat.succ_pos _)
    · have hlt := ih hi
      have hle : start + 1 + opcode.operandSize ≤ i.position :=
        le_position_of_mem_instructionsFrom hi
      rw [List.length_drop] at hlt
      omega

theorem isTruncated_iff_of_mem (hi : i ∈ instructionsFrom start code) :
    i.isTruncated = true ↔ start + code.length < i.next := by
  induction start, code using instructionsFrom.induct with
  | case1 start => simp [instructionsFrom] at hi
  | case2 start b rest opcode ih =>
    rw [instructionsFrom, List.mem_cons] at hi
    rw [List.length_cons]
    rcases hi with rfl | hi
    · simp only [Instruction.isTruncated, Instruction.next, decide_eq_true_iff, List.length_take]
      omega
    · -- an instruction behind this one shows that the operand of this one is complete
      have hlt : i.position <
          start + 1 + opcode.operandSize + (rest.drop opcode.operandSize).length :=
        position_lt_of_mem_instructionsFrom hi
      have hle : start + 1 + opcode.operandSize ≤ i.position :=
        le_position_of_mem_instructionsFrom hi
      rw [ih hi, List.length_drop]
      rw [List.length_drop] at hlt
      omega

/-- Only the last instruction can be cut off. -/
theorem pairwise_isTruncated (start : Nat) (code : List UInt8) :
    (instructionsFrom start code).Pairwise fun i _ => i.isTruncated = false := by
  refine (pairwise_instructionsFrom start code).imp_of_mem fun {i j} hi hj hij => ?_
  rw [← Bool.not_eq_true, isTruncated_iff_of_mem hi, Nat.not_lt]
  exact Nat.le_of_lt (Nat.lt_of_le_of_lt hij (position_lt_of_mem_instructionsFrom hj))

/-- A sweep that ends at a live `SELFDESTRUCT` never comes to the last operand. -/
theorem sweep_truncated_iff (hlast : is.Pairwise fun i _ => i.isTruncated = false) :
    (sweep dead is).truncated = true ↔
      (sweep dead is).selfDestruct = none ∧ ∃ i ∈ is, i.isTruncated = true := by
  induction is generalizing dead with
  | nil => simp [sweep]
  | cons k rest ih =>
    obtain ⟨hk, hrest⟩ := List.pairwise_cons.1 hlast
    rw [sweep]
    split
    · simp
    · -- where an operand is cut off nothing follows, and no `SELFDESTRUCT` either
      simp only [Findings.after, Bool.or_eq_true, ih hrest, List.mem_cons, exists_eq_or_imp]
      cases rest with
      | nil => simp [sweep]
      | cons j rest => simp [hk j List.mem_cons_self]

theorem scan_truncated_iff :
    (scan code).truncated = true ↔
      (scan code).selfDestruct = none ∧ ∃ i ∈ instructions code, code.length < i.next := by
  refine (sweep_truncated_iff (pairwise_isTruncated 0 code)).trans (and_congr_right fun _ => ?_)
  refine exists_congr fun i => and_congr_right fun hi => ?_
  rw [isTruncated_iff_of_mem hi, Nat.zero_add]

end Truncation

section Lockstep

variable {code other : List UInt8}

/-- Two codes of one length with the same positions and opcodes have the same report. -/
theorem scan_eq_of_padded (hlen : other.length = code.length)
    (h : (instructions other).map Instruction.padded = (instructions code).map Instruction.padded) :
    scan other = scan code := by
  have hfound : (sweep false (instructions other)).untruncated =
      (sweep false (instructions code)).untruncated := by
    rw [← sweep_padded, h, sweep_padded]
  have hsd : (scan other).selfDestruct = (scan code).selfDestruct :=
    Findings.selfDestruct_of_untruncated hfound
  have hcut {c : List UInt8} {n : Nat} :
      (∃ i ∈ instructions c, n < i.next) ↔
        ∃ i ∈ (instructions c).map Instruction.padded, n < i.next := by
    simp only [List.mem_map, exists_exists_and_eq_and]
    rfl
  have htruncated : (scan other).truncated = true ↔ (scan code).truncated = true := by
    rw [scan_truncated_iff, scan_truncated_iff, hsd, hlen, hcut, h, ← hcut]
  rw [scan_eq_report, scan_eq_report, Findings.eq_of_untruncated hfound htruncated, hlen]

/-- Both decodings keep step: the next position follows from the opcode alone. -/
theorem padded_instructionsFrom_drop (hlen : other.length = code.length)
    (hsame : ∀ pc, Position code pc → other[pc]? = code[pc]?) {start : Nat} {rest : List UInt8}
    (hs : Position code start) (hr : code.drop start = rest) :
    (instructionsFrom start (other.drop start)).map Instruction.padded =
      (instructionsFrom start rest).map Instruction.padded := by
  induction start, rest using instructionsFrom.induct with
  | case1 start =>
    have hnil : other.drop start = [] := by
      rw [List.drop_eq_nil_iff] at hr ⊢
      rwa [hlen]
    rw [hnil]
  | case2 start b rest opcode ih =>
    have hb := getElem?_of_drop_eq_cons hr
    have hb' : other[start]? = some b := (hsame start hs).trans hb
    rw [instructionsFrom_drop hb', instructionsFrom, List.map_cons, List.map_cons]
    exact congrArg _ (ih (.next hs hb) (drop_next hr _))

/-- Operands never influence a scan. Codes of one length that agree at the instruction positions of
one of them have the same report, so a byte that one of them holds in operands only may be any other
there. -/
theorem scan_ignores_operands (hlen : other.length = code.length) :
    ((∀ pc, Position code pc → other[pc]? = code[pc]?) → scan other = scan code) ∧
    ∀ op, (∀ pc, ¬ Holds code op pc) →
      (∀ (pc : Nat) (b : UInt8), code[pc]? = some b → Opcode.ofByte b ≠ op → other[pc]? = some b) →
      scan other = scan code := by
  have hfirst (hsame : ∀ pc, Position code pc → other[pc]? = code[pc]?) : scan other = scan code :=
    scan_eq_of_padded hlen (padded_instructionsFrom_drop hlen hsame .start rfl)
  refine ⟨hfirst, fun op hop hsame => hfirst fun pc hpc => ?_⟩
  cases hb : code[pc]? with
  | none =>
    rw [List.getElem?_eq_none_iff] at hb ⊢
    rwa [hlen]
  | some b => exact hsame pc b hb fun h => hop pc ⟨hpc, by rw [hb, ← h]; rfl⟩

/-- A complete operand and one that is cut off, each with a `SELFDESTRUCT` and a `JUMPDEST` byte in
it. -/
def veiled : List UInt8 := [0x61, 0xff, 0x5b, 0x00, 0x62, 0x5b, 0xff]

theorem scan_ignores_veiled_bytes :
    (∀ pc, Position veiled pc → [0x61, 0x00, 0xff, 0x00, 0x62, 0xf4, 0x7f][pc]? = veiled[pc]?) ∧
    scan [0x61, 0x00, 0xff, 0x00, 0x62, 0xf4, 0x7f] = scan veiled ∧
    (∀ pc, ¬ Holds veiled .selfDestruct pc) ∧
    scan [0x61, 0x00, 0x5b, 0x00, 0x62, 0x5b, 0x60] = scan veiled := by
  have hpos (pc : Nat) (h : Position veiled pc) : pc = 0 ∨ pc = 3 ∨ pc = 4 ∨ pc = 8 := by
    induction h with
    | start => exact .inl rfl
    | next h hb ih => rcases ih with rfl | rfl | rfl | rfl <;> cases hb <;> decide
  have hsame (pc : Nat) (h : Position veiled pc) :
      [0x61, 0x00, 0xff, 0x00, 0x62, 0xf4, 0x7f][pc]? = veiled[pc]? := by
    rcases hpos pc h with rfl | rfl | rfl | rfl <;> rfl
  have hnone (pc : Nat) (h : Holds veiled .selfDestruct pc) : False := by
    have hop := h.opcode_at
    rcases hpos pc h.position with rfl | rfl | rfl | rfl <;> cases hop
  have hbyte : ∀ pc < veiled.length,
      [0x61, 0x00, 0x5b, 0x00, 0x62, 0x5b, 0x60][pc]? = veiled[pc]? ∨
      veiled[pc]? = some 0xff := by decide
  refine ⟨hsame, (scan_ignores_operands (by rfl)).1 hsame, hnone, ?_⟩
  refine (scan_ignores_operands (by rfl)).2 .selfDestruct hnone fun pc b hb hne => ?_
  rcases hbyte pc (List.getElem?_eq_some_iff.1 hb).1 with h | h
  · exact h.trans hb
  · rw [hb] at h
    cases h
    exact absurd rfl hne

end Lockstep

end ProposalVetting.Bytecode

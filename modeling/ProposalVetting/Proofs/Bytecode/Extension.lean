import ProposalVetting.Proofs.Bytecode.Operands

namespace ProposalVetting.Bytecode

variable {c t : List UInt8} {start : Nat} {i : Instruction}

/-- The instructions stay the same but for their operands. What the last of them does not take in
follows them. -/
theorem exists_padded_append (start : Nat) (c t : List UInt8) :
    ∃ next n, (instructionsFrom start (c ++ t)).map Instruction.padded =
      (instructionsFrom start c).map Instruction.padded ++
        (instructionsFrom next (t.drop n)).map Instruction.padded := by
  induction start, c using instructionsFrom.induct generalizing t with
  | case1 start => exact ⟨start, 0, by rw [instructionsFrom.eq_1]; rfl⟩
  | case2 start b rest opcode ih =>
    -- the bytes that `rest` lacks for this operand come from `t`
    obtain ⟨next, n, htail⟩ := ih (t.drop (opcode.operandSize - rest.length))
    refine ⟨next, opcode.operandSize - rest.length + n, ?_⟩
    rw [List.cons_append, instructionsFrom, instructionsFrom, List.drop_append, List.map_cons,
      List.map_cons, htail, List.drop_drop]
    rfl

/-- What a sweep finds in extended code: what it found before, then what stands in the part that is
new. -/
theorem exists_sweep_append (c t : List UInt8) :
    ∃ dead next n, (sweep false (instructions (c ++ t))).untruncated =
      (sweep false (instructions c)).untruncated ++
        (sweep dead (instructionsFrom next (t.drop n))).untruncated := by
  obtain ⟨next, n, h⟩ := exists_padded_append 0 c t
  refine ⟨deadBehind false ((instructionsFrom 0 c).map Instruction.padded), next, n, ?_⟩
  rw [← sweep_padded, instructions, h, sweep_append, sweep_padded, sweep_padded]
  rfl

theorem exists_opcode_of_mem (hi : i ∈ instructionsFrom start c) :
    ∃ b ∈ c, i.opcode = .ofByte b := by
  induction start, c using instructionsFrom.induct with
  | case1 start => simp [instructionsFrom] at hi
  | case2 start b rest opcode ih =>
    rw [instructionsFrom, List.mem_cons] at hi
    rcases hi with rfl | hi
    · exact ⟨b, List.mem_cons_self, rfl⟩
    · obtain ⟨b', hb', hop⟩ := ih hi
      exact ⟨b', List.mem_cons_of_mem _ (List.mem_of_mem_drop hb'), hop⟩

/-- Zero bytes decode to `STOP`s. -/
theorem quiet_sweep_of_zeros (h : ∀ b ∈ c, b = 0) (dead : Bool) :
    (sweep dead (instructionsFrom start c)).Quiet := by
  refine quiet_sweep fun i hi => ?_
  obtain ⟨b, hb, hop⟩ := exists_opcode_of_mem ((alive_sublist _ _).subset hi)
  rw [hop, h b hb]
  decide

theorem not_truncated_of_selfDestruct (h : (sweep false (instructions c)).selfDestruct.isSome) :
    ¬ (sweep false (instructions c)).truncated = true := by
  intro htruncated
  have hnone : (sweep false (instructions c)).selfDestruct = none :=
    (scan_truncated_iff.1 htruncated).1
  rw [hnone] at h
  cases h

/-- Behind a live `SELFDESTRUCT` nothing matters. -/
theorem sweep_append_of_selfDestruct (h : (sweep false (instructions c)).selfDestruct.isSome)
    (t : List UInt8) :
    sweep false (instructions (c ++ t)) = sweep false (instructions c) := by
  obtain ⟨dead, next, n, hsweep⟩ := exists_sweep_append c t
  rw [Findings.append_of_isSome (f := (sweep false (instructions c)).untruncated) h] at hsweep
  have h' := h
  rw [← Findings.selfDestruct_of_untruncated hsweep] at h'
  exact Findings.eq_of_untruncated hsweep
    (iff_of_false (not_truncated_of_selfDestruct h') (not_truncated_of_selfDestruct h))

/-- Extending code never hides a finding: the verdict gets no milder, the `DELEGATECALL`s that were
flagged come first, and a live `SELFDESTRUCT` ends the scan as before. The zero bytes that stand
behind all code change no flag. -/
theorem extension_hides_nothing (c t : List UInt8) :
    verdict c ≤ verdict (c ++ t) ∧
    (scan c).delegateCalls <+: (scan (c ++ t)).delegateCalls ∧
    (verdict c = .selfDestruct → scan (c ++ t) = { scan c with codeLength := (c ++ t).length }) ∧
    ((∀ b ∈ t, b = 0) →
      verdict (c ++ t) = verdict c ∧ (scan (c ++ t)).selfDestruct = (scan c).selfDestruct ∧
      (scan (c ++ t)).delegateCalls = (scan c).delegateCalls) := by
  obtain ⟨dead, next, n, hsweep⟩ := exists_sweep_append c t
  refine ⟨?_, ?_, fun hverdict => ?_, fun hzeros => ?_⟩
  · have hmax := congrArg Findings.verdict hsweep
    rw [Findings.verdict_append] at hmax
    exact (le_max_left _ _).trans_eq hmax.symm
  · have hcalls := congrArg Findings.delegateCalls hsweep
    rw [Findings.delegateCalls_append] at hcalls
    exact ⟨_, hcalls.symm⟩
  · have hsome := scan_verdict_eq_selfDestruct_iff.1 hverdict
    rw [scan_eq_report, sweep_append_of_selfDestruct hsome]
    rfl
  · have hsweep_quiet : (sweep dead (instructionsFrom next (t.drop n))).Quiet :=
      quiet_sweep_of_zeros (fun b hb => hzeros b (List.mem_of_mem_drop hb)) dead
    have hquiet : (sweep dead (instructionsFrom next (t.drop n))).untruncated.Quiet :=
      ⟨hsweep_quiet.selfDestruct, hsweep_quiet.delegateCalls⟩
    have hsame := hquiet.append_right (sweep false (instructions c)).untruncated
    rw [← hsweep] at hsame
    exact ⟨hsame.verdict, hsame.selfDestruct, hsame.delegateCalls⟩

/-- A `PUSH2` that lacks one byte takes the first zero for it, and the other zeros are `STOP`s. -/
theorem extension_fills_operand :
    (∀ b ∈ [0, 0, 0], b = (0 : UInt8)) ∧
      verdict ([0xf4, 0x61, 0xff] ++ [0, 0, 0]) = verdict [0xf4, 0x61, 0xff] ∧
      verdict [0xf4, 0xff, 0x60] = .selfDestruct ∧
      scan ([0xf4, 0xff, 0x60] ++ [0xff, 0xf4]) =
        { scan [0xf4, 0xff, 0x60] with codeLength := 5 } := by
  have hzeros : ∀ b ∈ [0, 0, 0], b = (0 : UInt8) := by simp
  have hverdict : verdict [0xf4, 0xff, 0x60] = .selfDestruct := by cbv
  exact ⟨hzeros, ((extension_hides_nothing _ _).2.2.2 hzeros).1, hverdict,
    (extension_hides_nothing [0xf4, 0xff, 0x60] [0xff, 0xf4]).2.2.1 hverdict⟩

end ProposalVetting.Bytecode

import ProposalVetting.Bytecode.Scan
import ProposalVetting.Proofs.Bytecode.Position
import Mathlib.Order.Bounds.Basic

namespace ProposalVetting.Bytecode

/-- Every halting instruction before `pc` has a `JUMPDEST` between itself and `pc`. -/
def Live (code : List UInt8) (pc : Nat) : Prop :=
  ∀ op h, Holds code op h → op.halts → h < pc → ∃ j, Holds code .jumpDest j ∧ h < j ∧ j < pc

structure LiveAt (code : List UInt8) (op : Opcode) (pc : Nat) : Prop where
  holds : Holds code op pc
  live : Live code pc

/-- The instructions at which the flag of a sweep is down. -/
def alive (dead : Bool) : List Instruction → List Instruction
  | [] => []
  | i :: rest =>
    if dead then alive (deadAfter dead i.opcode) rest
    else i :: alive (deadAfter dead i.opcode) rest

/-- The condition of liveness on a list of instructions. A flag that is up at the start counts as a
halt before them. -/
structure Answered (dead : Bool) (is : List Instruction) (i : Instruction) : Prop where
  flag : dead = true → ∃ j ∈ is, j.opcode = .jumpDest ∧ j.position < i.position
  halts : ∀ h ∈ is, h.opcode.halts = true → h.position < i.position →
    ∃ j ∈ is, j.opcode = .jumpDest ∧ h.position < j.position ∧ j.position < i.position

variable {dead : Bool} {is rest : List Instruction} {i k : Instruction}

theorem alive_sublist (dead : Bool) (is : List Instruction) : (alive dead is).Sublist is := by
  induction is generalizing dead with
  | nil => exact .refl _
  | cons k rest ih =>
    rw [alive]
    split
    · exact (ih _).cons k
    · exact (ih _).cons_cons k

theorem answered_head (hk : ∀ j ∈ rest, k.position < j.position) :
    Answered dead (k :: rest) k ↔ dead = false := by
  have hfirst : ∀ j ∈ k :: rest, ¬ j.position < k.position := by
    intro j hj
    rcases List.mem_cons.1 hj with rfl | hj
    · exact Nat.lt_irrefl _
    · exact Nat.lt_asymm (hk j hj)
  constructor
  · intro h
    by_contra hd
    obtain ⟨j, hj, -, hlt⟩ := h.flag (by simpa using hd)
    exact hfirst j hj hlt
  · intro hd
    exact ⟨fun h => by simp [hd] at h, fun h hh _ hlt => absurd hlt (hfirst h hh)⟩

/-- One step of the flag: a halt puts it up for all that follows, a `JUMPDEST` takes it down, all
else leaves it. -/
theorem answered_tail (hk : ∀ j ∈ rest, k.position < j.position) (hi : i ∈ rest) :
    Answered dead (k :: rest) i ↔ Answered (deadAfter dead k.opcode) rest i := by
  have hki := hk i hi
  constructor
  · rintro ⟨hflag, hhalts⟩
    refine ⟨fun hd => ?_, fun h hh hop hlt => ?_⟩
    -- the flag is up behind `k`: `k` halts, or the flag was up before and `k` is no `JUMPDEST`
    · rcases Bool.or_eq_true_iff.1 hd with hop | hd
      · obtain ⟨j, hj, hjd, hkj, hji⟩ := hhalts k List.mem_cons_self hop hki
        rcases List.mem_cons.1 hj with rfl | hj
        · exact absurd hkj (Nat.lt_irrefl _)
        · exact ⟨j, hj, hjd, hji⟩
      · obtain ⟨hd, hne⟩ := Bool.and_eq_true_iff.1 hd
        obtain ⟨j, hj, hjd, hji⟩ := hflag hd
        rcases List.mem_cons.1 hj with rfl | hj
        · simp [hjd] at hne
        · exact ⟨j, hj, hjd, hji⟩
    · obtain ⟨j, hj, hjd, hhj, hji⟩ := hhalts h (List.mem_cons_of_mem _ hh) hop hlt
      rcases List.mem_cons.1 hj with rfl | hj
      · exact absurd hhj (Nat.lt_asymm (hk h hh))
      · exact ⟨j, hj, hjd, hhj, hji⟩
  · rintro ⟨hflag, hhalts⟩
    refine ⟨fun hd => ?_, fun h hh hop hlt => ?_⟩
    -- either `k` itself lowers the flag, or something behind it has to
    · by_cases hjd : k.opcode = .jumpDest
      · exact ⟨k, List.mem_cons_self, hjd, hki⟩
      · obtain ⟨j, hj, h⟩ := hflag (by simp [deadAfter, hd, hjd])
        exact ⟨j, List.mem_cons_of_mem _ hj, h⟩
    · rcases List.mem_cons.1 hh with rfl | hh
      · obtain ⟨j, hj, hjd, hji⟩ := hflag (by simp [deadAfter, hop])
        exact ⟨j, List.mem_cons_of_mem _ hj, hjd, hk j hj, hji⟩
      · obtain ⟨j, hj, h⟩ := hhalts h hh hop hlt
        exact ⟨j, List.mem_cons_of_mem _ hj, h⟩

/-- The flag and the declarative condition agree. -/
theorem mem_alive_iff (hs : Ascending is) :
    i ∈ alive dead is ↔ i ∈ is ∧ Answered dead is i := by
  induction is generalizing dead with
  | nil => simp [alive]
  | cons k rest ih =>
    obtain ⟨hk, hr⟩ := List.pairwise_cons.1 hs
    have hself : k ∉ rest := fun h => Nat.lt_irrefl _ (hk k h)
    have hrest : k ∉ alive (deadAfter dead k.opcode) rest :=
      fun h => hself ((alive_sublist _ _).subset h)
    -- the head is judged by the flag at the start, all others by the flag behind the head
    by_cases hik : i = k
    · subst hik
      rw [answered_head hk, alive]
      cases dead <;> simp [hrest]
    · have hmem : i ∈ alive dead (k :: rest) ↔ i ∈ alive (deadAfter dead k.opcode) rest := by
        rw [alive]
        split <;> simp [hik]
      rw [hmem, ih hr, List.mem_cons, or_iff_right hik]
      exact and_congr_right fun hi => (answered_tail hk hi).symm

theorem ascending_alive (code : List UInt8) : Ascending (alive false (instructions code)) :=
  (ascending_instructions code).sublist (alive_sublist _ _)

/-- What a sweep finds alive is what is live. -/
theorem liveAt_iff_exists_mem {code : List UInt8} {op : Opcode} {pc : Nat} :
    LiveAt code op pc ↔ ∃ i ∈ alive false (instructions code), i.opcode = op ∧ i.position = pc := by
  constructor
  · rintro ⟨hholds, hlive⟩
    obtain ⟨i, hi, rfl, rfl⟩ := holds_iff_exists_mem.1 hholds
    refine ⟨i, (mem_alive_iff (ascending_instructions code)).2 ⟨hi, by simp, ?_⟩, rfl, rfl⟩
    intro h hh hop hlt
    obtain ⟨j, hj, hhj, hji⟩ := hlive _ _ (holds_iff_exists_mem.2 ⟨h, hh, rfl, rfl⟩) hop hlt
    obtain ⟨j, hmem, hjd, rfl⟩ := holds_iff_exists_mem.1 hj
    exact ⟨j, hmem, hjd, hhj, hji⟩
  · rintro ⟨i, hi, rfl, rfl⟩
    obtain ⟨hmem, -, hhalts⟩ := (mem_alive_iff (ascending_instructions code)).1 hi
    refine ⟨holds_iff_exists_mem.2 ⟨i, hmem, rfl, rfl⟩, ?_⟩
    intro op pc hh hop hlt
    obtain ⟨h, hmem, rfl, rfl⟩ := holds_iff_exists_mem.1 hh
    obtain ⟨j, hj, hjd, hhj, hji⟩ := hhalts h hmem hop hlt
    exact ⟨j.position, holds_iff_exists_mem.2 ⟨j, hj, hjd, rfl⟩, hhj, hji⟩

/-- A sweep ends at the first `SELFDESTRUCT` that it finds alive. -/
theorem sweep_selfDestruct (dead : Bool) (is : List Instruction) :
    (sweep dead is).selfDestruct =
      ((alive dead is).find? fun i => i.opcode = .selfDestruct).map Instruction.position := by
  induction is generalizing dead with
  | nil => rfl
  | cons k rest ih =>
    rw [sweep, alive]
    cases dead with
    | true => simpa [Findings.after] using ih _
    | false =>
      by_cases hop : k.opcode = .selfDestruct
      · simp [hop]
      · simpa [hop, Findings.after] using ih _

theorem sweep_delegateCalls (dead : Bool) (is : List Instruction) :
    (sweep dead is).delegateCalls =
      (((alive dead is).takeWhile fun i => i.opcode ≠ .selfDestruct).filter
        fun i => i.opcode = .delegateCall).map Instruction.position := by
  induction is generalizing dead with
  | nil => rfl
  | cons k rest ih =>
    rw [sweep, alive]
    cases dead with
    | true => simpa [Findings.after] using ih _
    | false =>
      by_cases hop : k.opcode = .selfDestruct
      · simp [hop]
      · by_cases hdc : k.opcode = .delegateCall
        · simpa [hdc, Findings.after] using ih _
        · simpa [hop, hdc, Findings.after] using ih _

/-- In ascending order the instructions before the first `SELFDESTRUCT` are those below every
`SELFDESTRUCT`. -/
theorem mem_takeWhile_iff (hs : Ascending is) :
    i ∈ is.takeWhile (fun j => j.opcode ≠ .selfDestruct) ↔
      i ∈ is ∧ ∀ j ∈ is, j.opcode = .selfDestruct → i.position < j.position := by
  induction is with
  | nil => simp
  | cons k rest ih =>
    obtain ⟨hk, hr⟩ := List.pairwise_cons.1 hs
    by_cases hop : k.opcode = .selfDestruct
    · rw [List.takeWhile_cons_of_neg (by simp [hop])]
      constructor
      · intro h
        cases h
      · rintro ⟨hi, hall⟩
        have hik := hall k List.mem_cons_self hop
        rcases List.mem_cons.1 hi with rfl | hi
        · exact absurd hik (Nat.lt_irrefl _)
        · exact absurd hik (Nat.lt_asymm (hk i hi))
    · rw [List.takeWhile_cons_of_pos (by simp [hop]), List.mem_cons, List.mem_cons, ih hr]
      constructor
      · rintro (rfl | ⟨hi, hall⟩)
        · refine ⟨.inl rfl, fun j hj hjs => ?_⟩
          rcases List.mem_cons.1 hj with rfl | hj
          · exact absurd hjs hop
          · exact hk j hj
        · refine ⟨.inr hi, fun j hj hjs => ?_⟩
          rcases List.mem_cons.1 hj with rfl | hj
          · exact absurd hjs hop
          · exact hall j hj hjs
      · rintro ⟨rfl | hi, hall⟩
        · exact .inl rfl
        · exact .inr ⟨hi, fun j hj => hall j (List.mem_cons_of_mem _ hj)⟩

variable {code : List UInt8} {pc : Nat}

theorem isLeast_of_scan_selfDestruct (h : (scan code).selfDestruct = some pc) :
    IsLeast {p | LiveAt code .selfDestruct p} pc := by
  change (sweep false (instructions code)).selfDestruct = some pc at h
  rw [sweep_selfDestruct] at h
  obtain ⟨i, hfind, rfl⟩ := Option.map_eq_some_iff.1 h
  obtain ⟨hop, before, behind, heq, hbefore⟩ := List.find?_eq_some_iff_append.1 hfind
  have hop : i.opcode = .selfDestruct := by simpa using hop
  have hsorted := ascending_alive code
  rw [heq] at hsorted
  have hbehind := (List.pairwise_cons.1 (List.pairwise_append.1 hsorted).2.1).1
  refine ⟨liveAt_iff_exists_mem.2 ⟨i, by simp [heq], hop, rfl⟩, fun p hp => ?_⟩
  obtain ⟨j, hj, hjop, rfl⟩ := liveAt_iff_exists_mem.1 hp
  rw [heq, List.mem_append, List.mem_cons] at hj
  rcases hj with hj | rfl | hj
  · have := hbefore j hj
    simp [hjop] at this
  · exact Nat.le_refl _
  · exact Nat.le_of_lt (hbehind j hj)

theorem scan_selfDestruct_eq_none_iff :
    (scan code).selfDestruct = none ↔ ∀ p, ¬ LiveAt code .selfDestruct p := by
  change (sweep false (instructions code)).selfDestruct = none ↔ _
  rw [sweep_selfDestruct, Option.map_eq_none_iff, List.find?_eq_none]
  constructor
  · intro hall p hp
    obtain ⟨i, hi, hop, -⟩ := liveAt_iff_exists_mem.1 hp
    exact hall i hi (by simpa using hop)
  · intro hnone i hi hop
    exact hnone _ (liveAt_iff_exists_mem.2 ⟨i, hi, by simpa using hop, rfl⟩)

theorem scan_selfDestruct_eq_some_iff :
    (scan code).selfDestruct = some pc ↔ IsLeast {p | LiveAt code .selfDestruct p} pc := by
  constructor
  · exact isLeast_of_scan_selfDestruct
  · intro hleast
    cases h : (scan code).selfDestruct with
    | none => exact absurd hleast.1 (scan_selfDestruct_eq_none_iff.1 h pc)
    | some sd => rw [(isLeast_of_scan_selfDestruct h).unique hleast]

/-- Being below the first live `SELFDESTRUCT` is being below all of them. -/
theorem lt_scan_selfDestruct_iff :
    (∀ sd, (scan code).selfDestruct = some sd → pc < sd) ↔
      ∀ j ∈ alive false (instructions code), j.opcode = .selfDestruct → pc < j.position := by
  constructor
  · intro h j hj hop
    have hlive := liveAt_iff_exists_mem.2 ⟨j, hj, hop, rfl⟩
    cases hsd : (scan code).selfDestruct with
    | none => exact absurd hlive (scan_selfDestruct_eq_none_iff.1 hsd _)
    | some sd => exact Nat.lt_of_lt_of_le (h sd hsd) ((isLeast_of_scan_selfDestruct hsd).2 hlive)
  · intro h sd hsd
    obtain ⟨j, hj, hop, rfl⟩ := liveAt_iff_exists_mem.1 (isLeast_of_scan_selfDestruct hsd).1
    exact h j hj hop

theorem mem_scan_delegateCalls_iff :
    pc ∈ (scan code).delegateCalls ↔
      LiveAt code .delegateCall pc ∧ ∀ sd, (scan code).selfDestruct = some sd → pc < sd := by
  change pc ∈ (sweep false (instructions code)).delegateCalls ↔ _
  rw [sweep_delegateCalls, lt_scan_selfDestruct_iff, liveAt_iff_exists_mem, List.mem_map]
  simp only [List.mem_filter, mem_takeWhile_iff (ascending_alive code), decide_eq_true_eq]
  constructor
  · rintro ⟨i, ⟨⟨hi, hall⟩, hop⟩, rfl⟩
    exact ⟨⟨i, hi, hop, rfl⟩, hall⟩
  · rintro ⟨⟨i, hi, hop, rfl⟩, hall⟩
    exact ⟨i, ⟨⟨hi, hall⟩, hop⟩, rfl⟩

theorem ascending_scan_delegateCalls (code : List UInt8) :
    (scan code).delegateCalls.Pairwise (· < ·) := by
  change (sweep false (instructions code)).delegateCalls.Pairwise _
  rw [sweep_delegateCalls, List.pairwise_map]
  exact (ascending_alive code).sublist (List.filter_sublist.trans (List.takeWhile_sublist _))

theorem scan_verdict (code : List UInt8) :
    (scan code).verdict =
      if (scan code).selfDestruct.isSome then .selfDestruct
      else if (scan code).delegateCalls.isEmpty then .safe else .delegateCall := rfl

theorem scan_verdict_eq_selfDestruct_iff :
    (scan code).verdict = .selfDestruct ↔ (scan code).selfDestruct.isSome := by
  rw [scan_verdict]
  cases (scan code).selfDestruct <;> cases (scan code).delegateCalls <;> simp

theorem scan_verdict_eq_delegateCall_iff :
    (scan code).verdict = .delegateCall ↔
      (scan code).selfDestruct = none ∧ (scan code).delegateCalls ≠ [] := by
  rw [scan_verdict]
  cases (scan code).selfDestruct <;> cases (scan code).delegateCalls <;> simp

theorem scan_verdict_eq_safe_iff :
    (scan code).verdict = .safe ↔
      (scan code).selfDestruct = none ∧ (scan code).delegateCalls = [] := by
  rw [scan_verdict]
  cases (scan code).selfDestruct <;> cases (scan code).delegateCalls <;> simp

theorem verdict_eq_selfDestruct_iff :
    verdict code = .selfDestruct ↔ ∃ p, LiveAt code .selfDestruct p := by
  change (scan code).verdict = _ ↔ _
  rw [scan_verdict_eq_selfDestruct_iff, ← Option.ne_none_iff_isSome, Ne,
    scan_selfDestruct_eq_none_iff, not_forall_not]

theorem verdict_eq_safe_iff :
    verdict code = .safe ↔
      (∀ p, ¬ LiveAt code .selfDestruct p) ∧ ∀ p, ¬ LiveAt code .delegateCall p := by
  change (scan code).verdict = _ ↔ _
  rw [scan_verdict_eq_safe_iff, scan_selfDestruct_eq_none_iff]
  apply and_congr_right
  intro hnone
  rw [← scan_selfDestruct_eq_none_iff] at hnone
  rw [List.eq_nil_iff_forall_not_mem]
  apply forall_congr'
  intro p
  rw [mem_scan_delegateCalls_iff, hnone]
  simp

/-- The report of a scan, read off the live instructions: the first live `SELFDESTRUCT`, the live
`DELEGATECALL`s below it in ascending order, and the verdict that the two give. -/
theorem scan_reports_live_instructions (code : List UInt8) :
    (∀ pc, (scan code).selfDestruct = some pc ↔ IsLeast {p | LiveAt code .selfDestruct p} pc) ∧
    ((scan code).selfDestruct = none ↔ ∀ p, ¬ LiveAt code .selfDestruct p) ∧
    ((scan code).verdict = .selfDestruct ↔ (scan code).selfDestruct.isSome) ∧
    (scan code).delegateCalls.Pairwise (· < ·) ∧
    (∀ pc, pc ∈ (scan code).delegateCalls ↔
      LiveAt code .delegateCall pc ∧ ∀ sd, (scan code).selfDestruct = some sd → pc < sd) ∧
    ((scan code).verdict = .delegateCall ↔
      (scan code).selfDestruct = none ∧ (scan code).delegateCalls ≠ []) ∧
    ((scan code).verdict = .safe ↔
      (scan code).selfDestruct = none ∧ (scan code).delegateCalls = []) := by
  exact ⟨fun _ => scan_selfDestruct_eq_some_iff, scan_selfDestruct_eq_none_iff,
    scan_verdict_eq_selfDestruct_iff, ascending_scan_delegateCalls code,
    fun _ => mem_scan_delegateCalls_iff, scan_verdict_eq_delegateCall_iff,
    scan_verdict_eq_safe_iff⟩

/-- The operand `0xff`, the dead `DELEGATECALL` behind the `STOP` and all behind the live
`SELFDESTRUCT` go unreported. -/
example : (scan [0x60, 0xff, 0x00, 0xf4, 0x5b, 0xf4, 0xff, 0xf4]).delegateCalls = [5] := by cbv

end ProposalVetting.Bytecode

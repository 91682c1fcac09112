import ProposalVetting.Proofs.Bytecode.Liveness
import Mathlib.Data.List.Chain

namespace ProposalVetting.Bytecode

/-- A halting instruction ends an execution. Any other goes on behind its operand, or jumps to a
`JUMPDEST`. -/
inductive Step (code : List UInt8) : Nat → Nat → Prop where
  | fall {op : Opcode} {pc : Nat} (h : Holds code op pc) (hop : op.halts = false) :
    Step code pc (pc + 1 + op.operandSize)
  | jump {op : Opcode} {pc dest : Nat} (h : Holds code op pc) (hop : op.halts = false)
    (hdest : Holds code .jumpDest dest) : Step code pc dest

/-- The positions that an execution visits, one after the other. -/
structure Run (code : List UInt8) (path : List Nat) : Prop where
  starts : path.head? = some 0
  steps : path.IsChain (Step code)

/-- The invariant of an execution. A `JUMPDEST` behind a halt is not live itself, but all that
follows it is. -/
def Awake (code : List UInt8) (pc : Nat) : Prop := Live code pc ∨ Holds code .jumpDest pc

variable {code : List UInt8} {op : Opcode} {pc dest : Nat}

theorem live_zero : Live code 0 := by
  intro _ h _ _ hlt
  exact absurd hlt (Nat.not_lt_zero h)

theorem Awake.live_next (h : Awake code pc) (hpc : Holds code op pc) (hop : op.halts = false) :
    Live code (pc + 1 + op.operandSize) := by
  intro op' halt hhalt hhalts hlt
  -- a halt before `pc` is answered before `pc` or by `pc`; at `pc` is none, and none begins inside
  -- the operand
  rcases Nat.lt_trichotomy halt pc with hbefore | rfl | hbehind
  · rcases h with hlive | hjump
    · obtain ⟨j, hj, hhj, hjpc⟩ := hlive op' halt hhalt hhalts hbefore
      exact ⟨j, hj, hhj, by omega⟩
    · exact ⟨pc, hjump, hbefore, by omega⟩
  · rw [hhalt.opcode_unique hpc, hop] at hhalts
    exact absurd hhalts Bool.false_ne_true
  · have := hpc.next_le hhalt hbehind
    omega

theorem Awake.step (h : Awake code pc) (hstep : Step code pc dest) : Awake code dest := by
  cases hstep with
  | fall hpc hop => exact .inl (h.live_next hpc hop)
  | jump _ _ hdest => exact .inr hdest

theorem Run.awake {path : List Nat} (h : Run code path) : ∀ pc ∈ path, Awake code pc := by
  refine List.IsChain.induction _ path h.steps (fun _ _ hstep hpc => hpc.step hstep) ?_
  intro hne
  have : path.head hne = 0 := Option.some.inj ((List.head?_eq_some_head hne).symm.trans h.starts)
  rw [this]
  exact .inl live_zero

theorem Awake.liveAt (h : Awake code pc) (hpc : Holds code op pc) (hop : op ≠ .jumpDest) :
    LiveAt code op pc := by
  rcases h with hlive | hjump
  · exact ⟨hpc, hlive⟩
  · exact absurd (hpc.opcode_unique hjump) hop

theorem LiveAt.exists_scan_selfDestruct (h : LiveAt code .selfDestruct pc) :
    ∃ sd, (scan code).selfDestruct = some sd ∧ sd ≤ pc := by
  cases hsd : (scan code).selfDestruct with
  | none => exact absurd h (scan_selfDestruct_eq_none_iff.1 hsd pc)
  | some sd => exact ⟨sd, rfl, (isLeast_of_scan_selfDestruct hsd).2 h⟩

theorem LiveAt.mem_delegateCalls_or (h : LiveAt code .delegateCall pc) :
    pc ∈ (scan code).delegateCalls ∨ ∃ sd, (scan code).selfDestruct = some sd ∧ sd < pc := by
  cases hsd : (scan code).selfDestruct with
  | none =>
    left
    rw [mem_scan_delegateCalls_iff, hsd]
    exact ⟨h, fun _ hsome => by cases hsome⟩
  | some sd =>
    have hne : pc ≠ sd := by
      rintro rfl
      have := h.holds.opcode_unique (isLeast_of_scan_selfDestruct hsd).1.holds
      cases this
    rcases Nat.lt_or_gt_of_ne hne with hlt | hlt
    · left
      rw [mem_scan_delegateCalls_iff, hsd]
      exact ⟨h, fun _ hsome => Option.some.inj hsome ▸ hlt⟩
    · exact .inr ⟨sd, rfl, hlt⟩

/-- A scan misses nothing that an execution can visit, however often it jumps back. -/
theorem scan_covers_execution {path : List Nat} (hrun : Run code path) (hpc : pc ∈ path) :
    (Holds code .selfDestruct pc →
      (scan code).verdict = .selfDestruct ∧ ∃ sd, (scan code).selfDestruct = some sd ∧ sd ≤ pc) ∧
    (Holds code .delegateCall pc → pc ∈ (scan code).delegateCalls ∨
      (scan code).verdict = .selfDestruct ∧ ∃ sd, (scan code).selfDestruct = some sd ∧ sd < pc) ∧
    (verdict code = .safe → ¬ Holds code .selfDestruct pc ∧ ¬ Holds code .delegateCall pc) := by
  have hawake := hrun.awake pc hpc
  have hself (h : Holds code .selfDestruct pc) :
      (scan code).verdict = .selfDestruct ∧ ∃ sd, (scan code).selfDestruct = some sd ∧ sd ≤ pc := by
    obtain ⟨sd, hsd, hle⟩ := (hawake.liveAt h (by decide)).exists_scan_selfDestruct
    exact ⟨scan_verdict_eq_selfDestruct_iff.2 (by simp [hsd]), sd, hsd, hle⟩
  have hdelegate (h : Holds code .delegateCall pc) : pc ∈ (scan code).delegateCalls ∨
      (scan code).verdict = .selfDestruct ∧ ∃ sd, (scan code).selfDestruct = some sd ∧ sd < pc := by
    rcases (hawake.liveAt h (by decide)).mem_delegateCalls_or with hmem | ⟨sd, hsd, hlt⟩
    · exact .inl hmem
    · exact .inr ⟨scan_verdict_eq_selfDestruct_iff.2 (by simp [hsd]), sd, hsd, hlt⟩
  refine ⟨hself, hdelegate, fun hsafe => ?_⟩
  obtain ⟨hnone, hempty⟩ := scan_verdict_eq_safe_iff.1 hsafe
  constructor
  · intro h
    obtain ⟨-, sd, hsd, -⟩ := hself h
    rw [hnone] at hsd
    cases hsd
  · intro h
    rcases hdelegate h with hmem | ⟨-, sd, hsd, -⟩
    · rw [hempty] at hmem
      cases hmem
    · rw [hnone] at hsd
      cases hsd

/-- A loop over a `DELEGATECALL`, then a `STOP` and a `SELFDESTRUCT` that only a jump comes to. -/
def loop : List UInt8 := [0x5b, 0xf4, 0x60, 0xff, 0x00, 0x5b, 0xff]

theorem scan_covers_loop :
    Run loop [0, 1, 2, 0, 1, 2, 5, 6] ∧ 6 ∈ [0, 1, 2, 0, 1, 2, 5, 6] ∧ Holds loop .selfDestruct 6 ∧
      (scan loop).verdict = .selfDestruct ∧ ∃ sd, (scan loop).selfDestruct = some sd ∧ sd ≤ 6 := by
  have h0 : Holds loop .jumpDest 0 := ⟨.start, rfl⟩
  have h1 : Holds loop .delegateCall 1 := ⟨h0.position_next, rfl⟩
  have h2 : Holds loop (.push 1) 2 := ⟨h1.position_next, rfl⟩
  have h4 : Holds loop .stop 4 := ⟨h2.position_next, rfl⟩
  have h5 : Holds loop .jumpDest 5 := ⟨h4.position_next, rfl⟩
  have h6 : Holds loop .selfDestruct 6 := ⟨h5.position_next, rfl⟩
  have s0 : Step loop 0 1 := .fall h0 rfl
  have s1 : Step loop 1 2 := .fall h1 rfl
  have s5 : Step loop 5 6 := .fall h5 rfl
  have hrun : Run loop [0, 1, 2, 0, 1, 2, 5, 6] := by
    refine ⟨rfl, ?_⟩
    simp only [List.isChain_cons_cons, List.isChain_singleton, and_true]
    exact ⟨s0, s1, .jump h2 rfl h0, s0, s1, .jump h2 rfl h5, s5⟩
  have hmem : 6 ∈ [0, 1, 2, 0, 1, 2, 5, 6] := by decide
  exact ⟨hrun, hmem, h6, (scan_covers_execution hrun hmem).1 h6⟩

end ProposalVetting.Bytecode

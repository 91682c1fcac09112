import ProposalVetting.Proofs.Check.Completion

namespace ProposalVetting

namespace Round

/-- A step, in which the lookups of a task that starts may end in any way. -/
def Moves (r s : Round) : Prop := ∃ result, Step result r s

/-- The books of a check: its permits, its tasks, and the codes it has asked for. -/
structure Balanced (permits : Nat) (tasks : List Task) (r : Round) : Prop where
  pool : r.pool.Balanced permits tasks
  traced : r.pool.Traced

variable {permits : Nat} {tasks : List Task} {r s : Round} {result : Address → Fetched}

theorem balanced_start (permits : Nat) (tasks : List Task) :
    Balanced permits tasks ⟨.ofTasks permits tasks, []⟩ :=
  ⟨Pool.balanced_ofTasks permits tasks, Pool.traced_ofTasks permits tasks⟩

theorem Balanced.step (h : Balanced permits tasks r) (hstep : Step result r s) :
    Balanced permits tasks s := by
  cases hstep with
  | advance hp => exact ⟨h.pool.step hp, h.traced.step hp⟩
  | join => exact ⟨h.pool, h.traced⟩

theorem Balanced.moves (h : Balanced permits tasks r) (hs : Relation.ReflTransGen Moves r s) :
    Balanced permits tasks s := by
  induction hs with
  | refl => exact h
  | tail _ hmove ih =>
    obtain ⟨_, hstep⟩ := hmove
    exact ih.step hstep

theorem Reachable.moves (h : Reachable result r s) : Relation.ReflTransGen Moves r s := by
  induction h with
  | refl => exact .refl
  | tail _ hstep ih => exact ih.tail ⟨result, hstep⟩

/-- Every start has taken one permit, and every landing has given one back. -/
theorem Balanced.taken (h : Balanced permits tasks r) :
    r.pool.free + r.pool.asked.length = permits + r.pool.landed.length := by
  have hconserved := h.pool.conserved
  have hlength := h.traced.length_eq
  simp only [List.length_map, List.length_append] at hlength
  omega

/-- A move starts a task, or lets a flight land, or leaves the pool alone. -/
theorem Moves.pool_cases (h : Moves r s) :
    (∃ t, Pool.Started t r.pool s.pool) ∨ (∃ f, Pool.Ended f r.pool s.pool) ∨ s.pool = r.pool := by
  obtain ⟨_, hstep⟩ := h
  cases hstep with
  | advance hp =>
    rcases hp.started_or_ended with hstart | hend
    · exact .inl hstart
    · exact .inr (.inl hend)
  | join => exact .inr (.inr rfl)

/-- Whatever will come of its lookups, a task that waits can take a free permit. -/
theorem exists_moves_start {t : Task} (ht : t ∈ r.pool.waiting) (hfree : 0 < r.pool.free)
    (x : Fetched) :
    ∃ s f, Moves r s ∧ Pool.Started t r.pool s.pool ∧ f ∈ s.pool.flying ∧ f.task = t ∧
      f.fetch.result = x := by
  obtain ⟨p, f, hstep, hstarted⟩ := Pool.exists_start (fun _ => x) hfree ht
  exact ⟨{ r with pool := p }, f, ⟨_, .advance hstep⟩, hstarted⟩

/-- Whatever came of its lookups, a flight can land. -/
theorem exists_moves_land {f : Flight} (hf : f ∈ r.pool.flying) :
    ∃ s, Moves r s ∧ Pool.Ended f r.pool s.pool := by
  obtain ⟨p, hstep, hended⟩ := Pool.exists_land (fun _ => f.fetch.result) hf
  exact ⟨{ r with pool := p }, ⟨_, .advance hstep⟩, hended⟩

end Round

namespace Checker

/-- The permits of a check in every state that it can come to, its own run among others. -/
theorem permits_are_conserved (c : Checker) (trusted : TrustSet) (addresses : List Address) :
    let permits := c.settings.concurrency.toNat
    let tasks := Check.tasks trusted (Check.distinct addresses)
    (∀ n, Relation.ReflTransGen Round.Moves (c.start trusted addresses)
      ⟨(c.start trusted addresses).pool.runFor (Fetch.of c.source c.settings.timeout) n, []⟩) ∧
    ∀ r, Relation.ReflTransGen Round.Moves (c.start trusted addresses) r →
      r.pool.flying.length ≤ permits ∧
      r.pool.free + r.pool.flying.length = permits ∧
      r.pool.free + r.pool.asked.length = permits + r.pool.landed.length ∧
      (r.pool.waiting ++ r.pool.flying.map Flight.task ++
        r.pool.landed.map Landing.task).Perm tasks ∧
      tasks.Nodup ∧
      (∀ s, Round.Moves r s →
        (∃ t, Pool.Started t r.pool s.pool) ∨ (∃ f, Pool.Ended f r.pool s.pool) ∨ s.pool = r.pool) ∧
      (∀ f ∈ r.pool.flying, ∃ s, Round.Moves r s ∧ Pool.Ended f r.pool s.pool) ∧
      (∀ t ∈ r.pool.waiting, 0 < r.pool.free → ∀ x,
        ∃ s f, Round.Moves r s ∧ Pool.Started t r.pool s.pool ∧ f ∈ s.pool.flying ∧ f.task = t ∧
          f.fetch.result = x) ∧
      (r.pool.flying = [] → 0 < r.pool.free) := by
  intro permits tasks
  constructor
  · intro n
    have hrun := Pool.runFor_reachable c.result_of n (c.start trusted addresses).pool
    exact (Round.reachable_of_pool (r := c.start trusted addresses) hrun).moves
  · intro r hr
    have hbooks : r.Balanced permits tasks := (Round.balanced_start permits tasks).moves hr
    have hconserved := hbooks.pool.conserved
    have hnodup : tasks.Nodup := by
      apply List.Nodup.of_map Task.address
      rw [Check.map_address_tasks]
      exact (Check.nodup_distinct addresses).filter _
    refine ⟨by omega, hconserved, hbooks.taken, hbooks.pool.accounted, hnodup,
      fun s => Round.Moves.pool_cases, fun f => Round.exists_moves_land,
      fun t ht hfree x => Round.exists_moves_start ht hfree x, ?_⟩
    exact hbooks.pool.free_pos c.concurrency_pos

/-- The first of two accounts holds the only permit, and its lookups are about to crash. -/
def crashing : Round where
  pool :=
    { now := 0
      free := 0
      waiting := [⟨1, .uniform 3⟩]
      flying := [⟨⟨0, .uniform 2⟩, ⟨0, .crashed⟩⟩]
      asked := [.uniform 2] }

/-- The crash gives the permit back, and the second account can start. -/
theorem crashing_frees_permit :
    Relation.ReflTransGen Round.Moves
      (sequential.start .empty [.uniform 2, .uniform 3, .uniform 2]) crashing ∧
      crashing.pool.free + crashing.pool.flying.length = 1 ∧
      ∃ s, Round.Moves crashing s ∧
        Pool.Ended ⟨⟨0, .uniform 2⟩, ⟨0, .crashed⟩⟩ crashing.pool s.pool := by
  have hfree : (sequential.start .empty [.uniform 2, .uniform 3, .uniform 2]).pool.free =
      0 + 1 := rfl
  have hwaiting : (sequential.start .empty [.uniform 2, .uniform 3, .uniform 2]).pool.waiting =
      [] ++ ⟨0, .uniform 2⟩ :: [⟨1, .uniform 3⟩] := rfl
  have hstart :
      Round.Moves (sequential.start .empty [.uniform 2, .uniform 3, .uniform 2]) crashing :=
    ⟨fun _ => .crashed, .advance (.start hfree hwaiting rfl)⟩
  obtain ⟨-, hconserved⟩ :=
    permits_are_conserved sequential .empty [.uniform 2, .uniform 3, .uniform 2]
  obtain ⟨-, hpermits, -, -, -, -, hland, -⟩ := hconserved crashing (.single hstart)
  exact ⟨.single hstart, hpermits, hland _ List.mem_cons_self⟩

end Checker
end ProposalVetting

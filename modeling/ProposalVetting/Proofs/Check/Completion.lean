import ProposalVetting.Proofs.Check.Assembly
import ProposalVetting.Proofs.Check.Fetch
import ProposalVetting.Proofs.Check.Schedule
import ProposalVetting.Proofs.Report.Buckets
import Mathlib.Data.List.Perm.Subperm

namespace ProposalVetting

/-- A check under way, with the results joined so far in the order of joining. -/
structure Round where
  pool : Pool
  joined : List Landing := []

namespace Round

/-- A result can be joined once its task has landed. -/
inductive Step (result : Address → Fetched) : Round → Round → Prop where
  | advance {r : Round} {p : Pool} (h : r.pool.Step result p) : Step result r { r with pool := p }
  | join {r : Round} {l : Landing} (h : (r.joined ++ [l]).Subperm r.pool.landed) :
    Step result r { r with joined := r.joined ++ [l] }

abbrev Reachable (result : Address → Fetched) : Round → Round → Prop :=
  Relation.ReflTransGen (Step result)

/-- A check is over when it has joined a crash or when no step is left. -/
def Over (result : Address → Fetched) (r : Round) : Prop :=
  (∃ l ∈ r.joined, l.result = .crashed) ∨ ∀ s, ¬ Step result r s

structure Inv (result : Address → Fetched) (permits : Nat) (tasks : List Task)
    (r : Round) : Prop where
  pool : r.pool.Inv result permits tasks
  joined : r.joined.Subperm r.pool.landed

variable {result : Address → Fetched} {permits : Nat} {tasks : List Task} {p : Pool} {r s : Round}

theorem inv_start (result : Address → Fetched) (permits : Nat) (tasks : List Task) :
    Inv result permits tasks ⟨.ofTasks permits tasks, []⟩ :=
  ⟨Pool.inv_ofTasks result permits tasks, List.nil_subperm⟩

theorem Inv.step (h : Inv result permits tasks r) (hstep : Step result r s) :
    Inv result permits tasks s := by
  cases hstep with
  | advance hp => exact ⟨h.pool.step hp, h.joined.trans hp.landed_sublist.subperm⟩
  | join hl => exact ⟨h.pool, hl⟩

theorem Inv.reachable (h : Inv result permits tasks r) (hs : Reachable result r s) :
    Inv result permits tasks s := by
  induction hs with
  | refl => exact h
  | tail _ hstep ih => exact ih.step hstep

theorem Inv.landed_length_le (h : Inv result permits tasks r) :
    r.pool.landed.length ≤ tasks.length := by
  have hlength := h.pool.accounted.length_eq
  simp only [List.length_append, List.length_map] at hlength
  omega

/-- What is left to do: the work of the pool, and one joining for each task. -/
def left (tasks : List Task) (r : Round) : Nat := r.pool.work + (tasks.length - r.joined.length)

theorem Inv.left_lt (h : Inv result permits tasks r) (hstep : Step result r s) :
    s.left tasks < r.left tasks := by
  cases hstep with
  | advance hp => exact Nat.add_lt_add_right hp.work_lt _
  | @join l hl =>
    have hjoined := hl.length_le
    have hlanded := h.landed_length_le
    rw [List.length_append, List.length_singleton] at hjoined
    unfold left
    simp only [List.length_append, List.length_singleton]
    omega

theorem Inv.not_forever {rounds : Nat → Round} (h : Inv result permits tasks (rounds 0)) :
    ¬ ∀ n, Step result (rounds n) (rounds (n + 1)) := by
  intro hsteps
  have hinv (n : Nat) : Inv result permits tasks (rounds n) := by
    induction n with
    | zero => exact h
    | succ n ih => exact ih.step (hsteps n)
  -- each step spends at least one unit of what was left at the beginning
  have hspent (n : Nat) : (rounds n).left tasks + n ≤ (rounds 0).left tasks := by
    induction n with
    | zero => exact Nat.le_refl _
    | succ n ih =>
      have := (hinv n).left_lt (hsteps n)
      omega
  have := hspent ((rounds 0).left tasks + 1)
  omega

/-- When no step is left, every task has landed and every result is joined. -/
theorem Inv.joined_perm (h : Inv result permits tasks r) (hpermits : 0 < permits)
    (hstuck : ∀ s, ¬ Step result r s) :
    r.joined.Perm (tasks.map fun t => ⟨t, result t.address⟩) := by
  obtain ⟨hwaiting, hflying⟩ := h.pool.done_of_stuck hpermits fun q hq => hstuck _ (.advance hq)
  refine List.Perm.trans ?_ (h.pool.landed_perm hwaiting hflying)
  -- if fewer are joined than have landed, one more can be joined
  apply h.joined.perm_of_length_le
  by_contra hlt
  obtain ⟨l, hl⟩ := h.joined.exists_of_length_lt (by omega)
  exact hstuck _ (.join ((List.perm_append_singleton l r.joined).subperm_right.2 hl))

theorem reachable_of_pool (hp : r.pool.Reachable result p) :
    Reachable result r { r with pool := p } :=
  hp.lift (fun p => { r with pool := p }) fun _ _ hstep => .advance hstep

/-- What has landed can be joined in the order of landing, in any system where results are joined
like this. -/
theorem reachable_join {step : Round → Round → Prop}
    (hjoin : ∀ (r : Round) l, (r.joined ++ [l]).Subperm r.pool.landed →
      step r { r with joined := r.joined ++ [l] })
    (behind : List Landing) : ∀ {joined : List Landing}, joined ++ behind = p.landed →
      Relation.ReflTransGen step ⟨p, joined⟩ ⟨p, p.landed⟩ := by
  induction behind with
  | nil =>
    intro joined h
    rw [← h, List.append_nil]
  | cons l rest ih =>
    intro joined h
    rw [List.append_cons] at h
    have hl : (joined ++ [l]).Subperm p.landed := by
      rw [← h]
      exact (List.sublist_append_left _ _).subperm
    exact .head (hjoin ⟨p, joined⟩ l hl) (ih h)

theorem not_step_of_done (hwaiting : p.waiting = []) (hflying : p.flying = []) (s : Round) :
    ¬ Step result ⟨p, p.landed⟩ s := by
  intro h
  cases h with
  | advance hp => exact Pool.not_step_of_done hwaiting hflying _ hp
  | @join l hl =>
    have := hl.length_le
    rw [List.length_append, List.length_singleton] at this
    change p.landed.length + 1 ≤ p.landed.length at this
    omega

/-- The run that lands the earliest flight first, and joins in that order, is one of the
schedules. -/
theorem run_over (tasks : List Task) {fetch : Nat → Address → Fetch} (hpermits : 0 < permits)
    (hfetch : ∀ now a, (fetch now a).result = result a) :
    let p := (Pool.ofTasks permits tasks).run fetch
    Reachable result ⟨.ofTasks permits tasks, []⟩ ⟨p, p.landed⟩ ∧
      ∀ s, ¬ Step result ⟨p, p.landed⟩ s := by
  intro p
  have hreach : (Pool.ofTasks permits tasks).Reachable result p := Pool.run_reachable hfetch _
  obtain ⟨hwaiting, hflying⟩ := (Pool.inv_ofTasks result permits tasks).run_done hpermits hfetch
  exact ⟨(reachable_of_pool (r := ⟨_, []⟩) hreach).trans
    (reachable_join (fun _ _ => .join) p.landed rfl), not_step_of_done hwaiting hflying⟩

end Round

/-- The address whose bytes are all the same. -/
def Address.uniform (b : UInt8) : Address := ⟨List.replicate 20 b, List.length_replicate⟩

namespace Checker

variable (c : Checker) (result : Address → Fetched) (name : String) (trusted : TrustSet)
  (addresses : List Address)

/-- A check at its beginning. -/
def start : Round :=
  ⟨.ofTasks c.settings.concurrency.toNat (Check.tasks trusted (Check.distinct addresses)), []⟩

/-- What a check can return when the lookups of each address end as `result` says. -/
inductive Returns : Except CheckError Report → Prop where
  | refused (h : Check.maxPermits < c.settings.concurrency) :
    Returns (.error (.permits c.settings.concurrency))
  | finished {r : Round} (h : c.settings.concurrency ≤ Check.maxPermits)
    (hrun : Round.Reachable result (c.start trusted addresses) r) (hover : r.Over result) :
    Returns (Check.assemble name trusted (Check.distinct addresses) r.joined)

/-- How the lookups of an address end at this checker's source, within its limit. -/
def results (a : Address) : Fetched := (Fetch.of c.source c.settings.timeout 0 a).result

variable {c result name trusted addresses}

theorem concurrency_pos (c : Checker) : 0 < c.settings.concurrency.toNat := by
  have hvalid := c.valid
  unfold Settings.validate at hvalid
  split at hvalid
  · cases hvalid
  · split at hvalid
    · cases hvalid
    · next hne => exact Nat.pos_of_ne_zero fun h => hne (UInt64.toNat_inj.1 h)

theorem inv_of_reachable {r : Round} (hrun : Round.Reachable result (c.start trusted addresses) r) :
    r.Inv result c.settings.concurrency.toNat (Check.tasks trusted (Check.distinct addresses)) :=
  (Round.inv_start result _ _).reachable hrun

theorem belongs_of_joined {r : Round}
    (hrun : Round.Reachable result (c.start trusted addresses) r) :
    ∀ l ∈ r.joined, Check.Belongs trusted result (Check.distinct addresses) l := by
  intro l hl
  have hinv := inv_of_reachable hrun
  have hlanded : l ∈ r.pool.landed := hinv.joined.subset hl
  constructor
  · apply hinv.pool.accounted.subset
    exact List.mem_append_right _ (List.mem_map_of_mem hlanded)
  · exact hinv.pool.landings l hlanded

theorem exists_joined {r : Round} {t : Task}
    (hrun : Round.Reachable result (c.start trusted addresses) r)
    (hstuck : ∀ s, ¬ Round.Step result r s)
    (ht : t ∈ Check.tasks trusted (Check.distinct addresses)) :
    ⟨t, result t.address⟩ ∈ r.joined := by
  rw [((inv_of_reachable hrun).joined_perm c.concurrency_pos hstuck).mem_iff]
  exact List.mem_map_of_mem (f := fun t => Landing.mk t (result t.address)) ht

theorem exists_over (c : Checker) (result : Address → Fetched) (trusted : TrustSet)
    (addresses : List Address) :
    ∃ r, Round.Reachable result (c.start trusted addresses) r ∧ r.Over result := by
  have hfetch (now : Nat) (a : Address) : (Fetch.mk now (result a)).result = result a := rfl
  obtain ⟨hreach, hstuck⟩ :=
    Round.run_over (Check.tasks trusted (Check.distinct addresses)) c.concurrency_pos hfetch
  exact ⟨_, hreach, .inr hstuck⟩

/-- Every address once, with its outcome. -/
theorem assemble_of_over {r : Round} {outcome : Address → Outcome}
    (hrun : Round.Reachable result (c.start trusted addresses) r) (hover : r.Over result)
    (hsettled : ∀ a ∈ addresses, Check.settled? trusted result a = some (outcome a)) :
    Check.assemble name trusted (Check.distinct addresses) r.joined =
      .ok (Report.build name ((Check.distinct addresses).map fun a => .of a (outcome a))) := by
  have hbelongs := belongs_of_joined hrun
  have hdistinct :
      ∀ a ∈ Check.distinct addresses, Check.settled? trusted result a = some (outcome a) :=
    fun a ha => hsettled a (Check.mem_distinct.1 ha)
  apply Check.assemble_eq_build (Check.nodup_distinct addresses) hdistinct hbelongs
  intro t ht
  rcases hover with ⟨l, hl, hcrashed⟩ | hstuck
  · exact absurd hcrashed (Check.not_crashed_of_belongs hdistinct (hbelongs l hl))
  · exact ⟨_, exists_joined hrun hstuck ht, rfl⟩

theorem assemble_of_over_crashed {r : Round} {a : Address}
    (hrun : Round.Reachable result (c.start trusted addresses) r) (hover : r.Over result)
    (ha : a ∈ addresses) (htrusted : trusted.contains a = false) (hcrash : result a = .crashed) :
    Check.assemble name trusted (Check.distinct addresses) r.joined = .error .crashed := by
  rcases hover with ⟨l, hl, hcrashed⟩ | hstuck
  · exact Check.assemble_of_crashed hl hcrashed name
  · obtain ⟨t, ht, rfl⟩ := Check.exists_mem_tasks (Check.mem_distinct.2 ha) htrusted
    exact Check.assemble_of_crashed (exists_joined hrun hstuck ht) hcrash name

theorem returns_iff_of_over_eq {x : Except CheckError Report}
    (hpermits : c.settings.concurrency ≤ Check.maxPermits)
    (h : ∀ {r}, Round.Reachable result (c.start trusted addresses) r → r.Over result →
      Check.assemble name trusted (Check.distinct addresses) r.joined = x)
    (y : Except CheckError Report) :
    c.Returns result name trusted addresses y ↔ y = x := by
  constructor
  · intro hreturns
    cases hreturns with
    | refused hlt => exact absurd hpermits (UInt64.not_le.2 hlt)
    | finished _ hrun hover => exact h hrun hover
  · rintro rfl
    obtain ⟨r, hrun, hover⟩ := exists_over c result trusted addresses
    rw [← h hrun hover]
    exact .finished hpermits hrun hover

theorem result_of (c : Checker) (now : Nat) (a : Address) :
    (Fetch.of c.source c.settings.timeout now a).result = c.results a := Fetch.of_result _ _ now a

theorem run_over (c : Checker) (trusted : TrustSet) (addresses : List Address) :
    let p := (c.start trusted addresses).pool.run (Fetch.of c.source c.settings.timeout)
    Round.Reachable c.results (c.start trusted addresses) ⟨p, p.landed⟩ ∧
      ∀ s, ¬ Round.Step c.results ⟨p, p.landed⟩ s :=
  Round.run_over _ c.concurrency_pos c.result_of

theorem checkAddresses_of_refused (hpermits : Check.maxPermits < c.settings.concurrency) :
    c.checkAddresses name trusted addresses = .error (.permits c.settings.concurrency) := by
  simp only [checkAddresses, if_pos hpermits]
  rfl

theorem checkAddresses_of_permits (hpermits : c.settings.concurrency ≤ Check.maxPermits) :
    c.checkAddresses name trusted addresses =
      let p := (c.start trusted addresses).pool.run (Fetch.of c.source c.settings.timeout)
      (Check.assemble name trusted (Check.distinct addresses) p.landed).map fun report =>
        ⟨report, p.asked⟩ := by
  simp only [checkAddresses, if_neg (UInt64.not_lt.2 hpermits)]
  rfl

theorem map_report_checkAddresses (hpermits : c.settings.concurrency ≤ Check.maxPermits) :
    (c.checkAddresses name trusted addresses).map Checked.report =
      Check.assemble name trusted (Check.distinct addresses)
        ((c.start trusted addresses).pool.run (Fetch.of c.source c.settings.timeout)).landed := by
  rw [checkAddresses_of_permits hpermits]
  dsimp only
  cases Check.assemble name trusted (Check.distinct addresses) _ <;> rfl

/-- The checker's own run is one of the schedules. -/
theorem returns_checkAddresses (c : Checker) (name : String) (trusted : TrustSet)
    (addresses : List Address) :
    c.Returns c.results name trusted addresses
      ((c.checkAddresses name trusted addresses).map Checked.report) := by
  by_cases hpermits : c.settings.concurrency ≤ Check.maxPermits
  · obtain ⟨hrun, hstuck⟩ := c.run_over trusted addresses
    rw [map_report_checkAddresses hpermits]
    exact .finished hpermits hrun (.inr hstuck)
  · rw [UInt64.not_le] at hpermits
    rw [checkAddresses_of_refused hpermits]
    exact .refused hpermits

/-- One permit, and nothing stored. -/
def sequential : Checker := ⟨.development, Snapshot.empty.source, rfl⟩

end Checker
end ProposalVetting

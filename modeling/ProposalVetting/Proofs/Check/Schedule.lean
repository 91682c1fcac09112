import ProposalVetting.Check.Pool
import Mathlib.Data.List.Basic
import Mathlib.Logic.Relation

namespace ProposalVetting.Pool

/-- One step of a schedule, when the lookups of each address end as `result` says. -/
inductive Step (result : Address → Fetched) : Pool → Pool → Prop where
  | start {p : Pool} {free : Nat} {t : Task} {before behind : List Task} {fetch : Fetch}
    (hfree : p.free = free + 1) (hwaiting : p.waiting = before ++ t :: behind)
    (hfetch : fetch.result = result t.address) :
    Step result p
      { p with
        free
        waiting := before ++ behind
        flying := p.flying ++ [⟨t, fetch⟩]
        asked := p.asked ++ [t.address] }
  | land {p : Pool} {f : Flight} {before behind : List Flight} (now : Nat)
    (hflying : p.flying = before ++ f :: behind) :
    Step result p
      { p with
        now
        free := p.free + 1
        flying := before ++ behind
        landed := p.landed ++ [⟨f.task, f.fetch.result⟩] }

abbrev Reachable (result : Address → Fetched) : Pool → Pool → Prop :=
  Relation.ReflTransGen (Step result)

/-- Each permit is free or held by one flight, and each task waits, flies or has landed. -/
structure Balanced (permits : Nat) (tasks : List Task) (p : Pool) : Prop where
  conserved : p.free + p.flying.length = permits
  accounted : (p.waiting ++ p.flying.map Flight.task ++ p.landed.map Landing.task).Perm tasks

/-- The pool is balanced, and results are not mixed up. -/
structure Inv (result : Address → Fetched) (permits : Nat) (tasks : List Task) (p : Pool) : Prop
    extends Balanced permits tasks p where
  flights : ∀ f ∈ p.flying, f.fetch.result = result f.task.address
  landings : ∀ l ∈ p.landed, l.result = result l.task.address

variable {result : Address → Fetched} {permits : Nat} {tasks : List Task} {p q : Pool}

/-- A task has left the queue and holds a permit. -/
structure Started (t : Task) (p q : Pool) : Prop where
  permit : p.free = q.free + 1
  waiting : p.waiting.Perm (t :: q.waiting)
  flying : q.flying.map Flight.task = p.flying.map Flight.task ++ [t]
  landed : q.landed = p.landed
  asked : q.asked = p.asked ++ [t.address]

/-- A flight has landed, and its permit is free again. -/
structure Ended (f : Flight) (p q : Pool) : Prop where
  permit : q.free = p.free + 1
  waiting : q.waiting = p.waiting
  flying : p.flying.Perm (f :: q.flying)
  landed : q.landed = p.landed ++ [⟨f.task, f.fetch.result⟩]
  asked : q.asked = p.asked

theorem started {free : Nat} {t : Task} {before behind : List Task} (fetch : Fetch)
    (hfree : p.free = free + 1) (hwaiting : p.waiting = before ++ t :: behind) :
    Started t p
      { p with
        free
        waiting := before ++ behind
        flying := p.flying ++ [⟨t, fetch⟩]
        asked := p.asked ++ [t.address] } := by
  refine ⟨hfree, ?_, by simp, rfl, rfl⟩
  rw [hwaiting]
  exact List.perm_middle

theorem ended {f : Flight} {before behind : List Flight} (now : Nat)
    (hflying : p.flying = before ++ f :: behind) :
    Ended f p
      { p with
        now
        free := p.free + 1
        flying := before ++ behind
        landed := p.landed ++ [⟨f.task, f.fetch.result⟩] } := by
  refine ⟨rfl, rfl, ?_, rfl, rfl⟩
  rw [hflying]
  exact List.perm_middle

theorem Step.started_or_ended (h : Step result p q) : (∃ t, Started t p q) ∨ ∃ f, Ended f p q := by
  cases h with
  | start hfree hwaiting _ => exact .inl ⟨_, started _ hfree hwaiting⟩
  | land now hflying => exact .inr ⟨_, ended now hflying⟩

theorem exists_start (result : Address → Fetched) {t : Task} (hfree : 0 < p.free)
    (ht : t ∈ p.waiting) :
    ∃ q f, Step result p q ∧ Started t p q ∧ f ∈ q.flying ∧ f.task = t ∧
      f.fetch.result = result t.address := by
  obtain ⟨free, hfree⟩ := Nat.exists_eq_add_one.2 hfree
  obtain ⟨before, behind, hwaiting⟩ := List.append_of_mem ht
  have hfetch : (Fetch.mk 0 (result t.address)).result = result t.address := rfl
  exact ⟨_, ⟨t, _⟩, .start hfree hwaiting hfetch, started _ hfree hwaiting,
    List.mem_append_right _ List.mem_cons_self, rfl, hfetch⟩

theorem exists_land (result : Address → Fetched) {f : Flight} (hf : f ∈ p.flying) :
    ∃ q, Step result p q ∧ Ended f p q := by
  obtain ⟨before, behind, hflying⟩ := List.append_of_mem hf
  exact ⟨_, .land 0 hflying, ended 0 hflying⟩

theorem balanced_ofTasks (permits : Nat) (tasks : List Task) :
    Balanced permits tasks (ofTasks permits tasks) := by
  constructor <;> simp [ofTasks]

theorem Balanced.started {t : Task} (h : Balanced permits tasks p) (hstart : Started t p q) :
    Balanced permits tasks q := by
  constructor
  · have hconserved := h.conserved
    have hlength := congrArg List.length hstart.flying
    simp only [List.length_map, List.length_append, List.length_singleton] at hlength
    have hpermit := hstart.permit
    omega
  · refine List.Perm.trans ?_ h.accounted
    rw [hstart.flying, hstart.landed, ← List.append_assoc]
    apply List.Perm.append_right
    -- the task moves from the queue over those that fly already
    refine (List.perm_append_singleton t _).trans ?_
    exact hstart.waiting.symm.append_right _

theorem Balanced.ended {f : Flight} (h : Balanced permits tasks p) (hend : Ended f p q) :
    Balanced permits tasks q := by
  constructor
  · have hconserved := h.conserved
    have hlength := hend.flying.length_eq
    rw [List.length_cons] at hlength
    have hpermit := hend.permit
    omega
  · refine List.Perm.trans ?_ h.accounted
    rw [hend.waiting, hend.landed, List.map_append, List.append_assoc, List.append_assoc]
    apply List.Perm.append_left
    -- the task moves from those that fly to the end of those that have landed
    rw [← List.append_assoc]
    refine (List.perm_append_singleton f.task _).trans ?_
    exact (hend.flying.map Flight.task).symm.append_right _

theorem Balanced.step (h : Balanced permits tasks p) (hstep : Step result p q) :
    Balanced permits tasks q := by
  rcases hstep.started_or_ended with ⟨t, hstart⟩ | ⟨f, hend⟩
  · exact h.started hstart
  · exact h.ended hend

/-- The codes asked for are those of the tasks that fly or have landed. -/
def Traced (p : Pool) : Prop :=
  p.asked.Perm ((p.flying.map Flight.task ++ p.landed.map Landing.task).map Task.address)

theorem traced_ofTasks (permits : Nat) (tasks : List Task) :
    (ofTasks permits tasks).Traced := .refl []

theorem Traced.step (h : Traced p) (hstep : Step result p q) : Traced q := by
  unfold Traced at h ⊢
  rcases hstep.started_or_ended with ⟨t, hstart⟩ | ⟨f, hend⟩
  · rw [hstart.asked, hstart.flying, hstart.landed]
    simp only [List.map_append, List.map_cons, List.map_nil, List.append_assoc] at h ⊢
    refine (h.append_right _).trans ?_
    rw [List.append_assoc]
    exact (List.perm_append_comm).append_left _
  · rw [hend.asked, hend.landed]
    refine h.trans (List.Perm.map _ ?_)
    rw [List.map_append, ← List.append_assoc]
    refine List.Perm.trans ?_ (List.perm_append_singleton f.task _).symm
    exact (hend.flying.map Flight.task).append_right _

theorem inv_ofTasks (result : Address → Fetched) (permits : Nat) (tasks : List Task) :
    Inv result permits tasks (ofTasks permits tasks) where
  toBalanced := balanced_ofTasks permits tasks
  flights := by simp [ofTasks]
  landings := by simp [ofTasks]

theorem Inv.step (h : Inv result permits tasks p) (hstep : Step result p q) :
    Inv result permits tasks q := by
  refine ⟨h.toBalanced.step hstep, ?_, ?_⟩
  · intro g hg
    cases hstep with
    | start _ _ hfetch =>
      rcases List.mem_append.1 hg with hg | hg
      · exact h.flights g hg
      · rw [List.mem_singleton.1 hg]
        exact hfetch
    | land _ hflying =>
      apply h.flights g
      rw [hflying]
      exact (List.perm_middle.symm.subset) (List.mem_cons_of_mem _ hg)
  · intro l hl
    cases hstep with
    | start => exact h.landings l hl
    | @land f before behind _ hflying =>
      rcases List.mem_append.1 hl with hl | hl
      · exact h.landings l hl
      · rw [List.mem_singleton.1 hl]
        apply h.flights f
        rw [hflying]
        exact List.mem_append_right _ List.mem_cons_self

theorem Inv.reachable (h : Inv result permits tasks p) (hq : Reachable result p q) :
    Inv result permits tasks q := by
  induction hq with
  | refl => exact h
  | tail _ hstep ih => exact ih.step hstep

/-- Every step brings the end nearer, so no schedule goes on forever. -/
theorem Step.work_lt (h : Step result p q) : q.work < p.work := by
  cases h with
  | start _ hwaiting _ =>
    simp only [work, hwaiting, List.length_append, List.length_cons, List.length_nil]
    omega
  | land _ hflying =>
    simp only [work, hflying, List.length_append, List.length_cons]
    omega

theorem Step.landed_sublist (h : Step result p q) : p.landed.Sublist q.landed := by
  cases h with
  | start => exact .refl _
  | land => exact List.sublist_append_left _ _

theorem not_step_of_done (hwaiting : p.waiting = []) (hflying : p.flying = []) (q : Pool) :
    ¬ Step result p q := by
  intro h
  cases h with
  | start _ hstart _ => simp [hwaiting] at hstart
  | land _ hland => simp [hflying] at hland

/-- While nothing flies all permits are free. -/
theorem Balanced.free_pos (h : Balanced permits tasks p) (hpermits : 0 < permits)
    (hflying : p.flying = []) :
    0 < p.free := by
  have hconserved := h.conserved
  rw [hflying, List.length_nil] at hconserved
  omega

/-- No deadlock: while a task waits or flies, some step is possible. -/
theorem Inv.exists_step (h : Inv result permits tasks p) (hpermits : 0 < permits)
    (hleft : p.waiting ≠ [] ∨ p.flying ≠ []) : ∃ q, Step result p q := by
  cases hflying : p.flying with
  | cons f behind =>
    have hf : f ∈ p.flying := hflying ▸ List.mem_cons_self
    obtain ⟨q, hstep, -⟩ := exists_land result hf
    exact ⟨q, hstep⟩
  | nil =>
    have hwaiting : p.waiting ≠ [] := hleft.resolve_right (fun hne => hne hflying)
    obtain ⟨t, ht⟩ := List.exists_mem_of_ne_nil _ hwaiting
    obtain ⟨q, -, hstep, -⟩ := exists_start result (h.free_pos hpermits hflying) ht
    exact ⟨q, hstep⟩

theorem Inv.done_of_stuck (h : Inv result permits tasks p) (hpermits : 0 < permits)
    (hstuck : ∀ q, ¬ Step result p q) : p.waiting = [] ∧ p.flying = [] := by
  by_contra hleft
  rw [not_and_or] at hleft
  obtain ⟨q, hstep⟩ := h.exists_step hpermits hleft
  exact hstuck q hstep

/-- At the end each task has landed once, with the result of its own address. -/
theorem Inv.landed_perm (h : Inv result permits tasks p) (hwaiting : p.waiting = [])
    (hflying : p.flying = []) :
    p.landed.Perm (tasks.map fun t => ⟨t, result t.address⟩) := by
  have haccounted := h.accounted
  rw [hwaiting, hflying, List.map_nil, List.nil_append, List.nil_append] at haccounted
  have hown : (p.landed.map Landing.task).map (fun t => ⟨t, result t.address⟩) = p.landed := by
    rw [List.map_map]
    refine (List.map_congr_left ?_).trans p.landed.map_id
    intro l hl
    rw [Function.comp_apply, ← h.landings l hl]
    rfl
  rw [← hown]
  exact haccounted.map _

theorem next?_eq_none_iff : ∀ {flying : List Flight}, next? flying = none ↔ flying = []
  | [] => by simp [next?]
  | f :: behind => by
    rw [next?]
    cases next? behind <;> simp

theorem mem_of_next?_eq_some :
    ∀ {flying : List Flight} {f : Flight}, next? flying = some f → f ∈ flying
  | g :: behind, f, h => by
    rw [next?] at h
    cases hnext : next? behind with
    | none =>
      rw [hnext] at h
      rw [Option.some.inj h]
      exact List.mem_cons_self
    | some e =>
      rw [hnext] at h
      have he : e ∈ g :: behind := List.mem_cons_of_mem _ (mem_of_next?_eq_some hnext)
      rw [← Option.some.inj h]
      split
      · exact List.mem_cons_self
      · exact he

theorem next?_ends_le : ∀ {flying : List Flight} {f : Flight}, next? flying = some f →
    ∀ g ∈ flying, f.fetch.ends ≤ g.fetch.ends
  | e :: behind, f, h, g, hg => by
    rw [next?] at h
    cases hnext : next? behind with
    | none =>
      rw [next?_eq_none_iff.1 hnext, List.mem_singleton] at hg
      rw [hnext] at h
      exact Nat.le_of_eq (by rw [hg, Option.some.inj h])
    | some d =>
      rw [hnext, Option.some.injEq] at h
      have hd := next?_ends_le hnext
      by_cases hle : e.fetch.ends ≤ d.fetch.ends
      · rw [if_pos hle] at h
        subst h
        rcases List.mem_cons.1 hg with rfl | hg
        · exact Nat.le_refl _
        · exact Nat.le_trans hle (hd g hg)
      · rw [if_neg hle] at h
        subst h
        rcases List.mem_cons.1 hg with rfl | hg
        · omega
        · exact hd g hg

variable {fetch : Nat → Address → Fetch}

theorem step_of_start?_eq_some (hfetch : ∀ now a, (fetch now a).result = result a)
    (h : p.start? fetch = some q) : Step result p q := by
  unfold start? at h
  split at h
  · next free t waiting hfree hwaiting =>
    rw [← Option.some.inj h]
    exact .start hfree (show p.waiting = [] ++ t :: waiting from hwaiting) (hfetch p.now t.address)
  · cases h

theorem step_of_land?_eq_some (h : p.land? = some q) : Step result p q := by
  unfold land? at h
  split at h
  · next f hnext =>
    obtain ⟨before, behind, -, hflying, herase⟩ := List.exists_erase_eq (mem_of_next?_eq_some hnext)
    rw [← Option.some.inj h, herase]
    exact .land f.fetch.ends hflying
  · cases h

theorem step_of_step?_eq_some (hfetch : ∀ now a, (fetch now a).result = result a)
    (h : p.step? fetch = some q) : Step result p q := by
  unfold step? at h
  rcases Option.or_eq_some_iff.1 h with h | ⟨-, h⟩
  · exact step_of_start?_eq_some hfetch h
  · exact step_of_land?_eq_some h

theorem runFor_reachable (hfetch : ∀ now a, (fetch now a).result = result a) (n : Nat) (p : Pool) :
    Reachable result p (runFor fetch n p) := by
  induction n generalizing p with
  | zero => exact .refl
  | succ n ih =>
    rw [runFor]
    cases hstep : p.step? fetch with
    | none => exact .refl
    | some q => exact (ih q).head (step_of_step?_eq_some hfetch hstep)

/-- A run comes to a halt only when nothing can start or land. -/
theorem step?_runFor_eq_none (hfetch : ∀ now a, (fetch now a).result = result a)
    (n : Nat) (p : Pool) (hn : p.work ≤ n) : (runFor fetch n p).step? fetch = none := by
  induction n generalizing p with
  | zero =>
    -- no work is left, and a step would need some
    cases hstep : (runFor fetch 0 p).step? fetch with
    | none => rfl
    | some q =>
      have := (step_of_step?_eq_some hfetch hstep).work_lt
      change q.work < p.work at this
      omega
  | succ n ih =>
    rw [runFor]
    cases hstep : p.step? fetch with
    | none => exact hstep
    | some q =>
      have hlt := (step_of_step?_eq_some hfetch hstep).work_lt
      exact ih q (by omega)

theorem run_reachable (hfetch : ∀ now a, (fetch now a).result = result a) (p : Pool) :
    Reachable result p (p.run fetch) := runFor_reachable hfetch p.work p

/-- A run of a pool with permits ends with nothing waiting and nothing in flight. -/
theorem Inv.run_done (h : Inv result permits tasks p) (hpermits : 0 < permits)
    (hfetch : ∀ now a, (fetch now a).result = result a) :
    (p.run fetch).waiting = [] ∧ (p.run fetch).flying = [] := by
  have hinv := h.reachable (run_reachable hfetch p)
  have hnone : (p.run fetch).step? fetch = none :=
    step?_runFor_eq_none hfetch p.work p (Nat.le_refl _)
  rw [step?, Option.or_eq_none_iff] at hnone
  obtain ⟨hstart, hland⟩ := hnone
  have hflying : (p.run fetch).flying = [] := by
    rw [← next?_eq_none_iff]
    unfold land? at hland
    split at hland
    · cases hland
    · assumption
  refine ⟨?_, hflying⟩
  obtain ⟨free, hfree⟩ := Nat.exists_eq_add_one.2 (hinv.free_pos hpermits hflying)
  unfold start? at hstart
  rw [hfree] at hstart
  cases hwaiting : (p.run fetch).waiting with
  | nil => rfl
  | cons t behind =>
    rw [hwaiting] at hstart
    cases hstart

end ProposalVetting.Pool

import ProposalVetting.Proofs.Check.Ending
import ProposalVetting.Proofs.Check.Policy

namespace ProposalVetting

/-- How the lookups of an address end, whenever they begin. -/
def Source.ending (source : Source) (limit : Duration) (a : Address) : Fetched :=
  (Fetch.of source limit 0 a).result

variable {source : Source} {limit : Duration}

namespace Pool

/-- A step of a schedule with a clock. Time may pass before it, and the limit of a task runs from
its own start. -/
inductive Timed (source : Source) (limit : Duration) : Pool → Pool → Prop where
  | start {p : Pool} {free : Nat} {t : Task} {before behind : List Task} {fetch : Fetch} {now : Nat}
    (hnow : p.now ≤ now) (hfree : p.free = free + 1) (hwaiting : p.waiting = before ++ t :: behind)
    (hfetch : Fetch.Ends source limit now t.address fetch) :
    Timed source limit p
      { p with
        now
        free
        waiting := before ++ behind
        flying := p.flying ++ [⟨t, fetch⟩]
        asked := p.asked ++ [t.address] }
  | land {p : Pool} {f : Flight} {before behind : List Flight} {now : Nat} (hnow : p.now ≤ now)
    (hends : f.fetch.ends ≤ now) (hflying : p.flying = before ++ f :: behind) :
    Timed source limit p
      { p with
        now
        free := p.free + 1
        flying := before ++ behind
        landed := p.landed ++ [⟨f.task, f.fetch.result⟩] }

/-- The pool with its clock set back. -/
def unclocked (p : Pool) : Pool := { p with now := 0 }

variable {p q : Pool}

/-- Without ties the clock has no say in how lookups end. -/
theorem Timed.step (huntied : source.Untied limit) (h : Timed source limit p q) :
    Step (source.ending limit) p.unclocked q.unclocked := by
  cases h with
  | @start _ t _ _ _ _ _ hfree hwaiting hfetch =>
    rw [Fetch.ends_iff (huntied t.address)] at hfetch
    -- the end of these lookups is the one they would have had at the very beginning
    exact .start hfree hwaiting (hfetch ▸ Fetch.of_result source limit _ _)
  | land _ _ hflying => exact .land 0 hflying

/-- Whatever can happen without a clock can happen with one, if need be later. -/
theorem exists_timed {result : Address → Fetched} (h : Step result p.unclocked q) :
    ∃ q', Timed source limit p q' := by
  cases h with
  | @start free t _ _ _ hfree hwaiting _ =>
    exact ⟨_,
      .start (Nat.le_refl p.now) hfree hwaiting (Fetch.ends_of source limit p.now t.address)⟩
  | @land f _ _ _ hflying =>
    exact ⟨_, .land (Nat.le_max_left p.now f.fetch.ends) (Nat.le_max_right _ _) hflying⟩

/-- What can happen with a clock can happen without one. -/
theorem Timed.exists_step (h : Timed source limit p q) : ∃ result q', Step result p q' := by
  cases h with
  | @start _ _ _ _ fetch _ _ hfree hwaiting _ =>
    exact ⟨fun _ => fetch.result, _, .start hfree hwaiting rfl⟩
  | @land _ _ _ now _ _ hflying => exact ⟨fun _ => .crashed, _, .land now hflying⟩

/-- No flight was due before now. -/
def Ahead (p : Pool) : Prop := ∀ f ∈ p.flying, p.now ≤ f.fetch.ends

theorem timed_of_start? (h : p.start? (Fetch.of source limit) = some q) (hahead : p.Ahead) :
    Timed source limit p q ∧ q.Ahead := by
  unfold start? at h
  split at h
  · next free t waiting hfree hwaiting =>
    rw [← Option.some.inj h]
    refine ⟨.start (Nat.le_refl p.now) hfree (show p.waiting = [] ++ t :: waiting from hwaiting)
      (Fetch.ends_of source limit p.now t.address), ?_⟩
    intro f hf
    rcases List.mem_append.1 hf with hf | hf
    · exact hahead f hf
    · rw [List.mem_singleton.1 hf, Fetch.of_eq_delay]
      exact Nat.le_add_right _ _
  · cases h

theorem timed_of_land? (h : p.land? = some q) (hahead : p.Ahead) :
    Timed source limit p q ∧ q.Ahead := by
  unfold land? at h
  split at h
  · next f hnext =>
    have hf := mem_of_next?_eq_some hnext
    obtain ⟨before, behind, -, hflying, herase⟩ := List.exists_erase_eq hf
    rw [← Option.some.inj h, herase]
    refine ⟨.land (hahead f hf) (Nat.le_refl _) hflying, ?_⟩
    intro g hg
    apply next?_ends_le hnext
    rw [hflying]
    exact List.perm_middle.symm.subset (List.mem_cons_of_mem _ hg)
  · cases h

theorem timed_of_step? (h : p.step? (Fetch.of source limit) = some q) (hahead : p.Ahead) :
    Timed source limit p q ∧ q.Ahead := by
  unfold step? at h
  rcases Option.or_eq_some_iff.1 h with h | ⟨-, h⟩
  · exact timed_of_start? h hahead
  · exact timed_of_land? h hahead

/-- A run that lands the earliest flight first keeps to the clock. -/
theorem runFor_timed (n : Nat) (p : Pool) (hahead : p.Ahead) :
    Relation.ReflTransGen (Timed source limit) p (runFor (Fetch.of source limit) n p) := by
  induction n generalizing p with
  | zero => exact .refl
  | succ n ih =>
    rw [runFor]
    cases hstep : p.step? (Fetch.of source limit) with
    | none => exact .refl
    | some q =>
      obtain ⟨htimed, hq⟩ := timed_of_step? hstep hahead
      exact .head htimed (ih q hq)

theorem run_timed (source : Source) (limit : Duration) (permits : Nat) (tasks : List Task) :
    Relation.ReflTransGen (Timed source limit) (ofTasks permits tasks)
      ((ofTasks permits tasks).run (Fetch.of source limit)) :=
  runFor_timed _ _ fun _ hf => nomatch hf

end Pool

namespace Round

inductive Timed (source : Source) (limit : Duration) : Round → Round → Prop where
  | advance {r : Round} {p : Pool} (h : r.pool.Timed source limit p) :
    Timed source limit r { r with pool := p }
  | join {r : Round} {l : Landing} (h : (r.joined ++ [l]).Subperm r.pool.landed) :
    Timed source limit r { r with joined := r.joined ++ [l] }

/-- A crash has been joined, or nothing more can happen however long one waits. -/
def TimedOver (source : Source) (limit : Duration) (r : Round) : Prop :=
  (∃ l ∈ r.joined, l.result = .crashed) ∨ ∀ s, ¬ Timed source limit r s

def unclocked (r : Round) : Round := { r with pool := r.pool.unclocked }

variable {r s : Round}

theorem Timed.step (huntied : source.Untied limit) (h : Timed source limit r s) :
    Step (source.ending limit) r.unclocked s.unclocked := by
  cases h with
  | advance hp => exact .advance (hp.step huntied)
  | join hl => exact .join hl

theorem exists_timed {result : Address → Fetched} (h : Step result r.unclocked s) :
    ∃ s', Timed source limit r s' := by
  cases h with
  | advance hp =>
    obtain ⟨q, hq⟩ := Pool.exists_timed hp
    exact ⟨_, .advance hq⟩
  | join hl => exact ⟨_, .join hl⟩

theorem Timed.exists_step (h : Timed source limit r s) : ∃ result s', Step result r s' := by
  cases h with
  | advance hp =>
    obtain ⟨result, q, hq⟩ := hp.exists_step
    exact ⟨result, _, .advance hq⟩
  | join hl => exact ⟨fun _ => .crashed, _, .join hl⟩

theorem reachable_of_timed (huntied : source.Untied limit)
    (h : Relation.ReflTransGen (Timed source limit) r s) :
    Reachable (source.ending limit) r.unclocked s.unclocked :=
  h.lift unclocked fun _ _ hstep => hstep.step huntied

theorem timed_of_pool {p : Pool} (h : Relation.ReflTransGen (Pool.Timed source limit) r.pool p) :
    Relation.ReflTransGen (Timed source limit) r { r with pool := p } :=
  h.lift (fun p => { r with pool := p }) fun _ _ hstep => .advance hstep

theorem TimedOver.over {result : Address → Fetched} (h : r.TimedOver source limit) :
    r.unclocked.Over result :=
  h.imp_right fun hstuck _ hstep => (exists_timed hstep).elim hstuck

theorem timedOver_of_done {p : Pool} (hwaiting : p.waiting = []) (hflying : p.flying = []) :
    TimedOver source limit ⟨p, p.landed⟩ := by
  right
  intro s hs
  obtain ⟨_, s', hstep⟩ := hs.exists_step
  exact not_step_of_done hwaiting hflying s' hstep

end Round

namespace Checker

/-- What a check can return when its lookups take their time and its permits are handed out with a
clock. -/
inductive ReturnsTimed (c : Checker) (name : String) (trusted : TrustSet)
    (addresses : List Address) :
    Except CheckError Report → Prop where
  | refused (h : Check.maxPermits < c.settings.concurrency) :
    ReturnsTimed c name trusted addresses (.error (.permits c.settings.concurrency))
  | finished {r : Round} (h : c.settings.concurrency ≤ Check.maxPermits)
    (hrun : Relation.ReflTransGen (Round.Timed c.source c.settings.timeout)
      (c.start trusted addresses) r)
    (hover : r.TimedOver c.source c.settings.timeout) :
    ReturnsTimed c name trusted addresses
      (Check.assemble name trusted (Check.distinct addresses) r.joined)

variable {c : Checker} {name : String} {trusted : TrustSet} {addresses : List Address}

theorem ReturnsTimed.returns {x : Except CheckError Report}
    (huntied : c.source.Untied c.settings.timeout) (h : c.ReturnsTimed name trusted addresses x) :
    c.Returns c.results name trusted addresses x := by
  cases h with
  | refused h => exact .refused h
  | @finished r h hrun hover =>
    exact .finished (r := r.unclocked) h (Round.reachable_of_timed huntied hrun) hover.over

/-- The checker's own run keeps to the clock, with or without ties. -/
theorem returnsTimed_checkAddresses (c : Checker) (name : String) (trusted : TrustSet)
    (addresses : List Address) :
    c.ReturnsTimed name trusted addresses
      ((c.checkAddresses name trusted addresses).map Checked.report) := by
  by_cases hpermits : c.settings.concurrency ≤ Check.maxPermits
  · rw [map_report_checkAddresses hpermits]
    have hinv := Pool.inv_ofTasks c.results c.settings.concurrency.toNat
      (Check.tasks trusted (Check.distinct addresses))
    obtain ⟨hwaiting, hflying⟩ := hinv.run_done c.concurrency_pos c.result_of
    have hrun :=
      Round.timed_of_pool (r := c.start trusted addresses)
        (Pool.run_timed c.source c.settings.timeout _ _)
    exact .finished hpermits (hrun.trans (Round.reachable_join (fun _ _ => .join) _ rfl))
      (Round.timedOver_of_done hwaiting hflying)
  · rw [UInt64.not_le] at hpermits
    rw [checkAddresses_of_refused hpermits]
    exact .refused hpermits

theorem not_forever_timed (huntied : c.source.Untied c.settings.timeout) (rounds : Nat → Round)
    (hstart : rounds 0 = c.start trusted addresses) :
    ¬ ∀ n, Round.Timed c.source c.settings.timeout (rounds n) (rounds (n + 1)) := by
  intro hsteps
  let still (n : Nat) : Round := (rounds n).unclocked
  have hinv :
      (still 0).Inv c.results c.settings.concurrency.toNat
        (Check.tasks trusted (Check.distinct addresses)) := by
    change (rounds 0).unclocked.Inv _ _ _
    rw [hstart]
    exact Round.inv_start c.results _ _
  exact hinv.not_forever fun n => (hsteps n).step huntied

/-- One report, whatever the number of permits, the order in which they are handed out and the time
spent in the queue. An address whose two lookups answer within the limit is classified, however many
addresses hang ahead of it. -/
theorem report_independent_of_permits (source : Source) (limit : Duration) (hcalm : source.Calm)
    (huntied : source.Untied limit) (name : String) (trusted : TrustSet)
    (addresses : List Address) :
    ∃ (report : Report) (unique : List Address) (outcome : Address → Outcome),
      (∀ c : Checker, c.source = source → c.settings.timeout = limit →
        c.settings.concurrency ≤ Check.maxPermits →
        (∀ rounds : Nat → Round, rounds 0 = c.start trusted addresses →
          ¬ ∀ n, Round.Timed source limit (rounds n) (rounds (n + 1))) ∧
        (∀ x, c.ReturnsTimed name trusted addresses x ↔ x = .ok report) ∧
        (c.checkAddresses name trusted addresses).map Checked.report = .ok report) ∧
      Check.FirstOccurrences addresses unique ∧
      report.addresses = unique.map (fun a => .of a (outcome a)) ∧
      ∀ a ∈ addresses, ∀ f, source.Tells limit a f →
        outcome a = .classified (classify trusted a f) := by
  have hsettled (a : Address) : ∃ o, Check.settled? trusted (source.ending limit) a = some o :=
    Check.exists_settled fun _ => Fetch.of_result_ne_crashed hcalm 0
  choose outcome houtcome using hsettled
  have htold (a : Address) (f : Facts) (hf : source.Tells limit a f) :
      outcome a = .classified (classify trusted a f) :=
    Option.some.inj <| (houtcome a).symm.trans <|
      Check.settled?_of_facts (Fetch.of_result_eq_facts_iff.2 hf)
  refine ⟨settledReport name outcome addresses, Check.distinct addresses, outcome, ?_,
    Check.firstOccurrences_distinct addresses, Report.addresses_build, fun a _ => htold a⟩
  rintro c rfl rfl hpermits
  -- with its clock taken away, a schedule is one of those that all return the same
  have hone (x : Except CheckError Report) (hx : c.ReturnsTimed name trusted addresses x) :
      x = .ok (settledReport name outcome addresses) :=
    (returns_iff_of_settled hpermits houtcome name addresses x).1 (hx.returns huntied)
  have hown := returnsTimed_checkAddresses c name trusted addresses
  refine ⟨not_forever_timed huntied, fun x => ⟨hone x, ?_⟩, hone _ hown⟩
  rintro rfl
  rw [hone _ hown] at hown
  exact hown

/-- The code of one account never comes. All others hold a contract whose only `SELFDESTRUCT` byte
is an operand. -/
def stalling : Source where
  code a := ⟨if a = .uniform 2 then none else some 5, .value (some [0x60, 0xff, 0x00])⟩
  nonce _ := .immediate 1

def queued : Checker := ⟨{ Settings.strict with concurrency := 1 }, stalling, rfl⟩

def parallel : Checker := ⟨.strict, stalling, halfSilent.valid⟩

/-- The account that stalls stands first. The one behind it is safe, with one permit as with
eight. -/
theorem queued_reports_as_parallel :
    stalling.Calm ∧ stalling.Untied Settings.strict.timeout ∧
    ∃ report,
      (queued.checkAddresses "sample" .empty [.uniform 2, .uniform 3]).map Checked.report =
        .ok report ∧
      (parallel.checkAddresses "sample" .empty [.uniform 2, .uniform 3]).map Checked.report =
        .ok report ∧
      .of (.uniform 3) (.classified .safe) ∈ report.addresses := by
  have hcalm : stalling.Calm := fun _ => ⟨nofun, nofun⟩
  have hlimit : Settings.strict.timeout.totalNanos = 30000000000 := rfl
  have huntied : stalling.Untied Settings.strict.timeout := by
    intro a
    constructor
    · by_cases ha : a = .uniform 2 <;> simp [stalling, ha, hlimit]
    · simp [stalling, Lookup.immediate, hlimit]
    · rintro d x y ⟨-, ⟨e, he, -⟩ | ⟨he, -⟩⟩ <;> cases he
  obtain ⟨report, unique, outcome, hreport, hunique, haddresses, htold⟩ :=
    report_independent_of_permits stalling Settings.strict.timeout hcalm huntied "sample" .empty
      [.uniform 2, .uniform 3]
  obtain ⟨-, -, hqueued⟩ := hreport queued rfl rfl (by decide)
  obtain ⟨-, -, hparallel⟩ := hreport parallel rfl rfl (by decide)
  refine ⟨hcalm, huntied, report, hqueued, hparallel, ?_⟩
  have hclassify : classify .empty (.uniform 3) ⟨some [0x60, 0xff, 0x00], 1⟩ = .safe := by
    decide +kernel
  have hsafe : outcome (.uniform 3) = .classified .safe := by
    rw [← hclassify]
    exact htold _ (by decide) _ ⟨⟨rfl, 5, rfl, by decide⟩, rfl, 0, rfl, by decide⟩
  rw [haddresses, ← hsafe]
  exact List.mem_map_of_mem (f := fun a => AddressReport.of a (outcome a))
    ((hunique.mem_iff _).2 (by decide))

end Checker
end ProposalVetting

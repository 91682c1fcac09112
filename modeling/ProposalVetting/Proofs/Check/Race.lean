import ProposalVetting.Proofs.Check.Ending
import Mathlib.Data.Nat.Find
import Mathlib.Order.WellFounded

namespace ProposalVetting

variable {limit : Duration} {source : Source} {a : Address} {start : Nat}

/-- Two lookups under way, and what each has told so far. -/
structure Race where
  now : Nat
  code : Option (Option (List UInt8)) := none
  nonce : Option UInt64 := none

namespace Race

section
variable (source : Source) (limit : Duration) (start : Nat) (a : Address)

/-- What can happen at a moment: the deadline passes, or a lookup answers that has told nothing so
far. -/
inductive Due (r : Race) : Nat → Prop where
  | deadline : Due r (start + limit.totalNanos)
  | code {d : Nat} (hr : r.code = none) (hd : (source.code a).latency = some d) : Due r (start + d)
  | nonce {d : Nat} (hr : r.nonce = none) (hd : (source.nonce a).latency = some d) :
    Due r (start + d)

/-- Nothing is due before `t`. -/
def Next (r : Race) (t : Nat) : Prop := ∀ u, Due source limit start a r u → t ≤ u

/-- One of the lookups answers, and the other one goes on. -/
inductive Step (r : Race) : Race → Prop where
  | code {d : Nat} {v : Option (List UInt8)} (hr : r.code = none)
    (hd : (source.code a).latency = some d) (hv : (source.code a).answer = .value v)
    (hnext : Next source limit start a r (start + d)) :
    Step r { r with now := start + d, code := some v }
  | nonce {d : Nat} {v : UInt64} (hr : r.nonce = none) (hd : (source.nonce a).latency = some d)
    (hv : (source.nonce a).answer = .value v) (hnext : Next source limit start a r (start + d)) :
    Step r { r with now := start + d, nonce := some v }

/-- How a race can end where it stands. -/
inductive Over (r : Race) : Fetch → Prop where
  | told {code : Option (List UInt8)} {nonce : UInt64} (hc : r.code = some code)
    (hn : r.nonce = some nonce) :
    Over r ⟨r.now, .facts ⟨code, nonce⟩⟩
  | code {d : Nat} {x : Fetched} (hr : r.code = none) (h : (source.code a).Stops d x)
    (hnext : Next source limit start a r (start + d)) : Over r ⟨start + d, x⟩
  | nonce {d : Nat} {x : Fetched} (hr : r.nonce = none) (h : (source.nonce a).Stops d x)
    (hnext : Next source limit start a r (start + d)) : Over r ⟨start + d, x⟩
  | expired (hr : r.code = none ∨ r.nonce = none)
    (hnext : Next source limit start a r (start + limit.totalNanos)) :
    Over r ⟨start + limit.totalNanos, .failed (.timeout a.checksum limit)⟩

/-- A race that begins at `start` can come to stand like this. -/
def Reached (r : Race) : Prop :=
  Relation.ReflTransGen (Step source limit start a) { now := start } r

/-- What has been told is what the lookups answer, and nothing was due before now. -/
structure Inv (r : Race) : Prop where
  code : ∀ v, r.code = some v → (source.code a).answer = .value v ∧
    ∃ d, (source.code a).latency = some d ∧ start + d ≤ r.now
  nonce : ∀ v, r.nonce = some v → (source.nonce a).answer = .value v ∧
    ∃ d, (source.nonce a).latency = some d ∧ start + d ≤ r.now
  /-- Now is the beginning or the moment of the last answer. -/
  last : r.now = start ∨
    (r.code ≠ none ∧ ∃ d, (source.code a).latency = some d ∧ r.now = start + d) ∨
    r.nonce ≠ none ∧ ∃ d, (source.nonce a).latency = some d ∧ r.now = start + d
  ahead : Next source limit start a r r.now

theorem inv_start : Inv source limit start a { now := start } where
  code _ h := nomatch h
  nonce _ h := nomatch h
  last := .inl rfl
  ahead := by
    rintro _ (_ | _ | _) <;> exact Nat.le_add_right start _

end

variable {r s : Race} {g : Fetch} {t u d : Nat} {x : Fetched}

/-- An answer brings nothing new that is due. -/
theorem Step.due (h : Step source limit start a r s) (hu : Due source limit start a s u) :
    Due source limit start a r u := by
  cases h with
  | code hr =>
    cases hu with
    | deadline => exact .deadline
    | code hs => cases hs
    | nonce hs hd => exact .nonce hs hd
  | nonce hr =>
    cases hu with
    | deadline => exact .deadline
    | code hs hd => exact .code hs hd
    | nonce hs => cases hs

theorem Inv.step (hinv : Inv source limit start a r) (h : Step source limit start a r s) :
    Inv source limit start a s := by
  have hdue : ∀ u, Due source limit start a s u → Due source limit start a r u := fun _ => h.due
  cases h with
  | @code d v hr hd hv hnext =>
    have hlater : r.now ≤ start + d := hinv.ahead _ (.code hr hd)
    constructor
    case code =>
      intro w hw
      cases hw
      exact ⟨hv, d, hd, Nat.le_refl _⟩
    case nonce =>
      intro w hw
      obtain ⟨hanswer, e, he, hle⟩ := hinv.nonce w hw
      exact ⟨hanswer, e, he, Nat.le_trans hle hlater⟩
    case last => exact .inr (.inl ⟨nofun, d, hd, rfl⟩)
    case ahead => exact fun u hu => hnext u (hdue u hu)
  | @nonce d v hr hd hv hnext =>
    have hlater : r.now ≤ start + d := hinv.ahead _ (.nonce hr hd)
    constructor
    case code =>
      intro w hw
      obtain ⟨hanswer, e, he, hle⟩ := hinv.code w hw
      exact ⟨hanswer, e, he, Nat.le_trans hle hlater⟩
    case nonce =>
      intro w hw
      cases hw
      exact ⟨hv, d, hd, Nat.le_refl _⟩
    case last => exact .inr (.inr ⟨nofun, d, hd, rfl⟩)
    case ahead => exact fun u hu => hnext u (hdue u hu)

theorem Reached.inv (h : Reached source limit start a r) : Inv source limit start a r := by
  induction h with
  | refl => exact inv_start source limit start a
  | tail _ hstep ih => exact ih.step hstep

/-- No lookup stops before what is due next, for one that stops has told nothing. -/
theorem Inv.le_of_stops (hinv : Inv source limit start a r) (hnext : Next source limit start a r t)
    (h : source.Stops a d x) : t ≤ start + d := by
  rcases h with h | h
  · refine hnext _ (.code (Option.eq_none_iff_forall_ne_some.2 fun v hv => ?_) h.1)
    exact h.answer_ne_value v (hinv.code v hv).1
  · refine hnext _ (.nonce (Option.eq_none_iff_forall_ne_some.2 fun v hv => ?_) h.1)
    exact h.answer_ne_value v (hinv.nonce v hv).1

/-- While a lookup has told nothing, the two do not both tell before what is due next. -/
theorem le_of_tellsAfter (hr : r.code = none ∨ r.nonce = none) {f : Facts}
    (hnext : Next source limit start a r t) (h : source.TellsAfter a d f) : t ≤ start + d := by
  obtain ⟨m, n, hm, -, hn, -, rfl⟩ := h
  rcases hr with hr | hr
  · have hcode := hnext _ (.code hr hm)
    omega
  · have hnonce := hnext _ (.nonce hr hn)
    omega

/-- Two answers come together at the moment of the later one. -/
theorem Inv.exists_tellsAfter (hinv : Inv source limit start a r) {code : Option (List UInt8)}
    {nonce : UInt64} (hc : r.code = some code) (hn : r.nonce = some nonce) :
    ∃ d, source.TellsAfter a d ⟨code, nonce⟩ ∧ r.now = start + d := by
  obtain ⟨hcode, m, hm, hmle⟩ := hinv.code code hc
  obtain ⟨hnonce, n, hlatency, hnle⟩ := hinv.nonce nonce hn
  have hlast : r.now = start + max m n := by
    obtain h | ⟨-, d, hd, h⟩ | ⟨-, d, hd, h⟩ := hinv.last
    · omega
    · cases hm.symm.trans hd
      omega
    · cases hlatency.symm.trans hd
      omega
  exact ⟨max m n, ⟨m, n, hm, hcode, hlatency, hnonce, rfl⟩, hlast⟩

theorem Inv.ends (hinv : Inv source limit start a r) (h : Over source limit start a r g) :
    Fetch.Ends source limit start a g := by
  cases h with
  | told hc hn =>
    obtain ⟨d, htells, hnow⟩ := hinv.exists_tellsAfter hc hn
    have hle := hinv.ahead _ .deadline
    rw [hnow] at hle ⊢
    exact .told htells (Nat.le_of_add_le_add_left hle)
  | code _ h hnext =>
    refine .stopped (.inl h) (Nat.le_of_add_le_add_left (hnext _ .deadline)) fun e y he => ?_
    exact Nat.le_of_add_le_add_left (hinv.le_of_stops hnext he)
  | nonce _ h hnext =>
    refine .stopped (.inr h) (Nat.le_of_add_le_add_left (hnext _ .deadline)) fun e y he => ?_
    exact Nat.le_of_add_le_add_left (hinv.le_of_stops hnext he)
  | expired hr hnext =>
    refine .expired (fun d f htells => ?_) fun d x hstops => ?_
    · exact Nat.le_of_add_le_add_left (le_of_tellsAfter hr hnext htells)
    · exact Nat.le_of_add_le_add_left (hinv.le_of_stops hnext hstops)

/-- How many lookups have told nothing yet. -/
def pending (r : Race) : Nat := (if r.code = none then 1 else 0) + if r.nonce = none then 1 else 0

theorem Step.pending_lt (h : Step source limit start a r s) : s.pending < r.pending := by
  cases h with
  | code hr => simp [pending, hr]
  | nonce hr => simp [pending, hr]

/-- Something is always due, at the latest the deadline. -/
theorem exists_next (source : Source) (limit : Duration) (start : Nat) (a : Address) (r : Race) :
    ∃ t, Due source limit start a r t ∧ Next source limit start a r t := by
  classical
  have hdue : ∃ t, Due source limit start a r t := ⟨_, .deadline⟩
  exact ⟨Nat.find hdue, Nat.find_spec hdue, fun u hu => Nat.find_min' hdue hu⟩

theorem step_or_over (source : Source) (limit : Duration) (start : Nat) (a : Address) (r : Race) :
    (∃ s, Step source limit start a r s) ∨ ∃ g, Over source limit start a r g := by
  obtain ⟨t, hdue, hnext⟩ := exists_next source limit start a r
  cases hdue with
  | deadline =>
    cases hc : r.code with
    | none => exact .inr ⟨_, .expired (.inl hc) hnext⟩
    | some code =>
      cases hn : r.nonce with
      | none => exact .inr ⟨_, .expired (.inr hn) hnext⟩
      | some nonce => exact .inr ⟨_, .told hc hn⟩
  | code hr hd =>
    cases hanswer : (source.code a).answer with
    | value v => exact .inl ⟨_, .code hr hd hanswer hnext⟩
    | failure e => exact .inr ⟨_, .code hr ⟨hd, .inl ⟨e, hanswer, rfl⟩⟩ hnext⟩
    | crash => exact .inr ⟨_, .code hr ⟨hd, .inr ⟨hanswer, rfl⟩⟩ hnext⟩
  | nonce hr hd =>
    cases hanswer : (source.nonce a).answer with
    | value v => exact .inl ⟨_, .nonce hr hd hanswer hnext⟩
    | failure e => exact .inr ⟨_, .nonce hr ⟨hd, .inl ⟨e, hanswer, rfl⟩⟩ hnext⟩
    | crash => exact .inr ⟨_, .nonce hr ⟨hd, .inr ⟨hanswer, rfl⟩⟩ hnext⟩

/-- No race hangs: it has two answers to wait for at most. -/
theorem exists_over (source : Source) (limit : Duration) (start : Nat) (a : Address) (r : Race) :
    ∃ s g, Relation.ReflTransGen (Step source limit start a) r s ∧
      Over source limit start a s g := by
  rcases step_or_over source limit start a r with ⟨s, hs⟩ | ⟨g, hg⟩
  · have hless := hs.pending_lt
    obtain ⟨s', g, hreach, hg⟩ := exists_over source limit start a s
    exact ⟨s', g, .head hs hreach, hg⟩
  · exact ⟨r, g, .refl, hg⟩
termination_by r.pending

theorem not_forever (rounds : Nat → Race) :
    ¬ ∀ n, Step source limit start a (rounds n) (rounds (n + 1)) := by
  intro hsteps
  obtain ⟨n, hn⟩ := WellFounded.not_rel_apply_succ (r := (· < ·)) fun n => (rounds n).pending
  exact hn (hsteps n).pending_lt

theorem Reached.eq_of_over (huntied : source.UntiedAt limit a) (h : Reached source limit start a r)
    (hg : Over source limit start a r g) : g = Fetch.of source limit start a :=
  (Fetch.ends_iff huntied).1 (h.inv.ends hg)

end Race

namespace Fetch

variable {f : Facts} {d : Nat} {x : Fetched}

theorem of_eq_facts_iff (huntied : source.UntiedAt limit a) :
    (Fetch.of source limit start a).result = .facts f ↔
      ∃ d < limit.totalNanos, source.TellsAfter a d f := by
  constructor
  · intro h
    have hends := ends_of source limit start a
    generalize Fetch.of source limit start a = g at h hends
    cases hends with
    | told htells hd =>
      cases h
      exact ⟨_, Nat.lt_of_le_of_ne hd (huntied.ne_of_tellsAfter htells), htells⟩
    | stopped hstops =>
      rcases hstops with hstops | hstops
      · exact absurd h hstops.ne_facts
      · exact absurd h hstops.ne_facts
    | expired => cases h
  · rintro ⟨d, hd, htells⟩
    rw [← (ends_iff huntied).1 (.told htells (Nat.le_of_lt hd))]

/-- Unless something is tied, the lookups of an address end with the facts exactly when both answer
before the limit, as they answered; with the first failure before the limit, as soon as it comes and
whatever the other lookup does; and otherwise with the limit. -/
theorem ends_with_both_answers_or_first_failure (huntied : source.UntiedAt limit a) (start : Nat) :
    ∃ g, Fetch.of source limit start a = g ∧
      (∀ r, Race.Reached source limit start a r →
        (∃ s, Relation.ReflTransGen (Race.Step source limit start a) r s ∧
          Race.Over source limit start a s g) ∧
        ∀ other, Race.Over source limit start a r other → other = g) ∧
      (∀ rounds : Nat → Race, ¬ ∀ n, Race.Step source limit start a (rounds n) (rounds (n + 1))) ∧
      (∀ f, g.result = .facts f ↔ ∃ d < limit.totalNanos, source.TellsAfter a d f) ∧
      (∀ d < limit.totalNanos, ∀ x, source.Stops a d x → (∀ e y, source.Stops a e y → d ≤ e) →
        g = ⟨start + d, x⟩) ∧
      ((∀ d < limit.totalNanos, (∀ f, ¬ source.TellsAfter a d f) ∧ ∀ x, ¬ source.Stops a d x) →
        g = ⟨start + limit.totalNanos, .failed (.timeout a.checksum limit)⟩) := by
  refine ⟨_, rfl, fun r hr => ⟨?_, fun _ => hr.eq_of_over huntied⟩, Race.not_forever,
    fun f => of_eq_facts_iff huntied, ?_, ?_⟩
  · obtain ⟨s, g, hreach, hg⟩ := Race.exists_over source limit start a r
    have hreached : Race.Reached source limit start a s := hr.trans hreach
    exact ⟨s, hreach, hreached.eq_of_over huntied hg ▸ hg⟩
  · intro d hd x hstops hfirst
    exact ((ends_iff huntied).1 (.stopped hstops (Nat.le_of_lt hd) hfirst)).symm
  · intro hnone
    refine ((ends_iff huntied).1 (.expired (fun d f htells => ?_) fun d x hstops => ?_)).symm
    · exact Nat.le_of_not_lt fun hd => (hnone d hd).1 f htells
    · exact Nat.le_of_not_lt fun hd => (hnone d hd).2 x hstops

/-- The code cannot be fetched, and the nonce never comes. -/
def failing : Source where
  code _ := ⟨some 7, .failure (.fetch "code" "" "gone")⟩
  nonce _ := ⟨none, .value 0⟩

/-- The failure is not held up by the lookup that hangs. -/
theorem failing_ends_at_failure :
    ∃ a, failing.UntiedAt (.ofSeconds 1) a ∧
      Fetch.of failing (.ofSeconds 1) 3 a = ⟨10, .failed (.fetch "code" "" "gone")⟩ := by
  have hlimit : (Duration.ofSeconds 1).totalNanos = 1000000000 := rfl
  have huntied (a : Address) : failing.UntiedAt (.ofSeconds 1) a := by
    refine ⟨by simp [failing, hlimit], by simp [failing], fun d x y _ hnonce => ?_⟩
    cases hnonce.1
  refine ⟨⟨List.replicate 20 2, rfl⟩, huntied _, ?_⟩
  obtain ⟨g, hg, -, -, -, hfirst, -⟩ :=
    ends_with_both_answers_or_first_failure (huntied ⟨List.replicate 20 2, rfl⟩) 3
  rw [hg]
  refine hfirst 7 (by decide) _ (.inl ⟨rfl, .inl ⟨_, rfl, rfl⟩⟩) ?_
  rintro e y (⟨he, -⟩ | ⟨he, -⟩) <;> cases he
  exact Nat.le_refl 7

end Fetch
end ProposalVetting

import ProposalVetting.Check.Lookup

namespace ProposalVetting

variable {α : Type} {limit : Duration} {source : Source} {a : Address}

/-- The lookup answers with `v`, and within the limit. -/
def Lookup.Yields (l : Lookup α) (limit : Duration) (v : α) : Prop :=
  l.answer = .value v ∧ ∃ d, l.latency = some d ∧ d ≤ limit.totalNanos

/-- Both lookups of `a` answer within the limit, and together they tell `f`. -/
def Source.Tells (source : Source) (limit : Duration) (a : Address) (f : Facts) : Prop :=
  (source.code a).Yields limit f.code ∧ (source.nonce a).Yields limit f.nonce

/-- No lookup crashes. -/
def Source.Calm (source : Source) : Prop :=
  ∀ a, (source.code a).answer ≠ .crash ∧ (source.nonce a).answer ≠ .crash

theorem Source.Tells.unique {f g : Facts} (hf : source.Tells limit a f)
    (hg : source.Tells limit a g) : f = g := by
  obtain ⟨⟨hfc, -⟩, hfn, -⟩ := hf
  obtain ⟨⟨hgc, -⟩, hgn, -⟩ := hg
  have hcode := Answer.value.inj (hfc.symm.trans hgc)
  have hnonce := Answer.value.inj (hfn.symm.trans hgn)
  cases f
  cases g
  congr

namespace Lookup

theorem arrival?_eq_some_iff {l : Lookup α} {start limit t : Nat} {v : Answer α} :
    l.arrival? start (start + limit) = some (t, v) ↔
      l.answer = v ∧ ∃ d, l.latency = some d ∧ d ≤ limit ∧ t = start + d := by
  unfold arrival?
  cases l.latency with
  | none => simp
  | some d =>
    by_cases hd : d ≤ limit
    · simp [hd, and_comm, eq_comm]
    · simp [hd]

theorem yields_iff {l : Lookup α} {v : α} (start : Nat) :
    l.Yields limit v ↔ ∃ t, l.arrival? start (start + limit.totalNanos) = some (t, .value v) := by
  simp only [Yields, arrival?_eq_some_iff]
  constructor
  · rintro ⟨hv, d, hd, hle⟩
    exact ⟨start + d, hv, d, hd, hle, rfl⟩
  · rintro ⟨t, hv, d, hd, hle, -⟩
    exact ⟨hv, d, hd, hle⟩

end Lookup

namespace Fetch

def delay (n : Nat) (f : Fetch) : Fetch := { f with ends := n + f.ends }

theorem arrival?_delay (l : Lookup α) (start limit : Nat) :
    l.arrival? start (start + limit) =
      (l.arrival? 0 (0 + limit)).map fun x => (start + x.1, x.2) := by
  unfold Lookup.arrival?
  cases l.latency with
  | none => rfl
  | some d => by_cases hd : d ≤ limit <;> simp [hd]

theorem bind_stop?_delay (x : Option (Nat × Answer α)) (n : Nat) :
    (x.map fun y => (n + y.1, y.2)).bind stop? = (x.bind stop?).map (delay n) := by
  rcases x with _ | ⟨t, _ | _ | _⟩ <;> rfl

theorem first_delay (x y : Option Fetch) (n : Nat) :
    first (x.map (delay n)) (y.map (delay n)) = (first x y).map (delay n) := by
  rcases x with _ | x <;> rcases y with _ | y
  · rfl
  · rfl
  · rfl
  · simp only [first, delay, Option.map_some, Nat.add_le_add_iff_left]
    split <;> rfl

theorem both?_delay (x : Option (Nat × Answer (Option (List UInt8))))
    (y : Option (Nat × Answer UInt64)) (n : Nat) :
    both? (x.map fun z => (n + z.1, z.2)) (y.map fun z => (n + z.1, z.2)) =
      (both? x y).map (delay n) := by
  rcases x with _ | ⟨t, _ | _ | _⟩ <;> rcases y with _ | ⟨u, _ | _ | _⟩
  all_goals simp [both?, delay, Nat.add_max_add_left]

theorem of_eq_delay (source : Source) (limit : Duration) (start : Nat) (a : Address) :
    Fetch.of source limit start a = (Fetch.of source limit 0 a).delay start := by
  simp only [Fetch.of]
  rw [arrival?_delay (source.code a), arrival?_delay (source.nonce a), bind_stop?_delay,
    bind_stop?_delay, first_delay, both?_delay]
  rcases first (((source.code a).arrival? 0 _).bind stop?)
      (((source.nonce a).arrival? 0 _).bind stop?) with _ | x
  · rcases both? ((source.code a).arrival? 0 _) ((source.nonce a).arrival? 0 _) with _ | y
    · simp [delay]
    · rfl
  · rfl

/-- When the lookups begin has no influence on how they end. -/
theorem of_result (source : Source) (limit : Duration) (start : Nat) (a : Address) :
    (Fetch.of source limit start a).result = (Fetch.of source limit 0 a).result := by
  rw [of_eq_delay]
  rfl

theorem of_result_eq_facts_iff {start : Nat} {f : Facts} :
    (Fetch.of source limit start a).result = .facts f ↔ source.Tells limit a f := by
  rw [Source.Tells, Lookup.yields_iff start, Lookup.yields_iff start, Fetch.of]
  obtain ⟨code, nonce⟩ := f
  rcases (source.code a).arrival? start _ with _ | ⟨t, _ | _ | _⟩ <;>
    rcases (source.nonce a).arrival? start _ with _ | ⟨u, _ | _ | _⟩
  all_goals simp [first, stop?, both?]
  all_goals split <;> simp

theorem of_result_ne_crashed (hcalm : source.Calm) (start : Nat) :
    (Fetch.of source limit start a).result ≠ .crashed := by
  have hcode (t : Nat) :
      (source.code a).arrival? start (start + limit.totalNanos) ≠ some (t, .crash) :=
    fun h => (hcalm a).1 (Lookup.arrival?_eq_some_iff.1 h).1
  have hnonce (t : Nat) :
      (source.nonce a).arrival? start (start + limit.totalNanos) ≠ some (t, .crash) :=
    fun h => (hcalm a).2 (Lookup.arrival?_eq_some_iff.1 h).1
  rw [Fetch.of]
  rcases hc : (source.code a).arrival? start (start + limit.totalNanos) with _ | ⟨t, _ | _ | _⟩
  case some.crash => exact absurd hc (hcode t)
  all_goals
    rcases hn : (source.nonce a).arrival? start (start + limit.totalNanos) with _ | ⟨u, _ | _ | _⟩
    case some.crash => exact absurd hn (hnonce u)
    all_goals simp [first, stop?, both?]
  split <;> simp

end Fetch

namespace Snapshot

variable (s : Snapshot)

theorem calm_source : s.source.Calm := fun _ => ⟨nofun, nofun⟩

end Snapshot
end ProposalVetting

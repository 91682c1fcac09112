import ProposalVetting.Proofs.Check.Fetch

namespace ProposalVetting

variable {α : Type} {limit : Duration} {source : Source} {a : Address} {start : Nat}

/-- After `d` the lookup fails or crashes, and so settles the outcome without the other. -/
def Lookup.Stops (l : Lookup α) (d : Nat) (x : Fetched) : Prop :=
  l.latency = some d ∧
    ((∃ e, l.answer = .failure e ∧ x = .failed e) ∨ l.answer = .crash ∧ x = .crashed)

theorem Lookup.Stops.unique {l : Lookup α} {d : Nat} {x y : Fetched} (hx : l.Stops d x)
    (hy : l.Stops d y) : x = y := by
  obtain ⟨-, ⟨e, he, rfl⟩ | ⟨he, rfl⟩⟩ := hx <;> obtain ⟨-, ⟨f, hf, rfl⟩ | ⟨hf, rfl⟩⟩ := hy
  all_goals simp_all

theorem Lookup.Stops.answer_ne_value {l : Lookup α} {d : Nat} {x : Fetched}
    (h : l.Stops d x) (v : α) :
    l.answer ≠ .value v := by
  obtain ⟨-, ⟨e, he, -⟩ | ⟨he, -⟩⟩ := h
  all_goals simp [he]

theorem Lookup.Stops.ne_facts {l : Lookup α} {d : Nat} {x : Fetched} (h : l.Stops d x) {f : Facts} :
    x ≠ .facts f := by
  obtain ⟨-, ⟨e, -, rfl⟩ | ⟨-, rfl⟩⟩ := h
  all_goals simp

namespace Source

def Stops (source : Source) (a : Address) (d : Nat) (x : Fetched) : Prop :=
  (source.code a).Stops d x ∨ (source.nonce a).Stops d x

/-- Both lookups answer, the later one after `d`. -/
def TellsAfter (source : Source) (a : Address) (d : Nat) (f : Facts) : Prop :=
  ∃ m n, (source.code a).latency = some m ∧ (source.code a).answer = .value f.code ∧
    (source.nonce a).latency = some n ∧ (source.nonce a).answer = .value f.nonce ∧ d = max m n

/-- Neither lookup of the address answers exactly at the limit, and the two do not stop at the same
moment. -/
structure UntiedAt (source : Source) (limit : Duration) (a : Address) : Prop where
  code : (source.code a).latency ≠ some limit.totalNanos
  nonce : (source.nonce a).latency ≠ some limit.totalNanos
  apart : ∀ d x y, (source.code a).Stops d x → ¬ (source.nonce a).Stops d y

def Untied (source : Source) (limit : Duration) : Prop := ∀ a, source.UntiedAt limit a

variable {d e : Nat} {f g : Facts} {x y : Fetched}

theorem TellsAfter.unique (hf : source.TellsAfter a d f) (hg : source.TellsAfter a e g) :
    d = e ∧ f = g := by
  obtain ⟨m, n, hm, hfc, hn, hfn, rfl⟩ := hf
  obtain ⟨k, l, hk, hgc, hl, hgn, rfl⟩ := hg
  have hmk := Option.some.inj (hm.symm.trans hk)
  have hnl := Option.some.inj (hn.symm.trans hl)
  have hcode := Answer.value.inj (hfc.symm.trans hgc)
  have hnonce := Answer.value.inj (hfn.symm.trans hgn)
  refine ⟨by rw [hmk, hnl], ?_⟩
  cases f
  cases g
  congr

theorem TellsAfter.not_stops (h : source.TellsAfter a d f) : ¬ source.Stops a e x := by
  obtain ⟨m, n, -, hcode, -, hnonce, -⟩ := h
  rintro (hs | hs)
  · exact hs.answer_ne_value _ hcode
  · exact hs.answer_ne_value _ hnonce

theorem UntiedAt.ne_of_tellsAfter (h : source.UntiedAt limit a) (ht : source.TellsAfter a d f) :
    d ≠ limit.totalNanos := by
  obtain ⟨m, n, hm, -, hn, -, rfl⟩ := ht
  have hcode : m ≠ limit.totalNanos := fun he => h.code (he ▸ hm)
  have hnonce : n ≠ limit.totalNanos := fun he => h.nonce (he ▸ hn)
  omega

theorem UntiedAt.ne_of_stops (h : source.UntiedAt limit a) (hs : source.Stops a d x) :
    d ≠ limit.totalNanos := by
  rintro rfl
  rcases hs with hs | hs
  · exact h.code hs.1
  · exact h.nonce hs.1

theorem UntiedAt.stops_unique (h : source.UntiedAt limit a) (hx : source.Stops a d x)
    (hy : source.Stops a d y) :
    x = y := by
  rcases hx with hx | hx <;> rcases hy with hy | hy
  · exact hx.unique hy
  · exact absurd hy (h.apart d x y hx)
  · exact absurd hx (h.apart d y x hy)
  · exact hx.unique hy

end Source

namespace Fetch

/-- The ways in which the lookups of `a`, begun at `start`, can end. At the limit itself both an
answer and the end of the time may come first, and so may either of two lookups that stop
together. -/
inductive Ends (source : Source) (limit : Duration) (start : Nat) (a : Address) : Fetch → Prop where
  | told {d : Nat} {f : Facts} (h : source.TellsAfter a d f) (hd : d ≤ limit.totalNanos) :
    Ends source limit start a ⟨start + d, .facts f⟩
  | stopped {d : Nat} {x : Fetched} (h : source.Stops a d x) (hd : d ≤ limit.totalNanos)
    (hfirst : ∀ e y, source.Stops a e y → d ≤ e) : Ends source limit start a ⟨start + d, x⟩
  | expired (htells : ∀ d f, source.TellsAfter a d f → limit.totalNanos ≤ d)
    (hstops : ∀ d x, source.Stops a d x → limit.totalNanos ≤ d) :
    Ends source limit start a ⟨start + limit.totalNanos, .failed (.timeout a.checksum limit)⟩

theorem stop?_eq_some_iff {t : Nat} {v : Answer α} {g : Fetch} :
    stop? (t, v) = some g ↔
      t = g.ends ∧
      ((∃ e, v = .failure e ∧ g.result = .failed e) ∨ v = .crash ∧ g.result = .crashed) := by
  obtain ⟨ends, x⟩ := g
  cases v <;> simp [stop?, eq_comm]

theorem bind_stop?_eq_some_iff {l : Lookup α} {n : Nat} {g : Fetch} :
    (l.arrival? start (start + n)).bind stop? = some g ↔
      ∃ d ≤ n, l.Stops d g.result ∧ g.ends = start + d := by
  rw [Option.bind_eq_some_iff]
  constructor
  · rintro ⟨⟨t, v⟩, harrival, hstop⟩
    obtain ⟨rfl, d, hd, hle, rfl⟩ := Lookup.arrival?_eq_some_iff.1 harrival
    obtain ⟨hends, hkind⟩ := stop?_eq_some_iff.1 hstop
    exact ⟨d, hle, ⟨hd, hkind⟩, hends.symm⟩
  · rintro ⟨d, hle, ⟨hd, hkind⟩, hends⟩
    exact ⟨(start + d, l.answer), Lookup.arrival?_eq_some_iff.2 ⟨rfl, d, hd, hle, rfl⟩,
      stop?_eq_some_iff.2 ⟨hends.symm, hkind⟩⟩

theorem bind_stop?_of_stops {l : Lookup α} {d n : Nat} {x : Fetched} (h : l.Stops d x)
    (hd : d ≤ n) :
    (l.arrival? start (start + n)).bind stop? = some ⟨start + d, x⟩ :=
  bind_stop?_eq_some_iff.2 ⟨d, hd, h, rfl⟩

theorem first_eq_none_iff {x y : Option Fetch} : first x y = none ↔ x = none ∧ y = none := by
  cases x <;> cases y <;> simp [first]

theorem first_eq_some {x y : Option Fetch} {g : Fetch} (h : first x y = some g) :
    (x = some g ∨ y = some g) ∧ ∀ k, x = some k ∨ y = some k → g.ends ≤ k.ends := by
  cases x with
  | none =>
    rw [first] at h
    simp [h]
  | some x =>
    cases y with
    | none =>
      rw [first] at h
      simp [h]
    | some y =>
      rw [first, Option.some.injEq] at h
      simp only [Option.some.injEq]
      by_cases hle : x.ends ≤ y.ends
      · rw [if_pos hle] at h
        subst h
        refine ⟨.inl rfl, ?_⟩
        rintro k (rfl | rfl) <;> omega
      · rw [if_neg hle] at h
        subst h
        refine ⟨.inr rfl, ?_⟩
        rintro k (rfl | rfl) <;> omega

/-- Whichever lookup stops first within the limit. -/
def firstStop (source : Source) (limit : Duration) (start : Nat) (a : Address) : Option Fetch :=
  first (((source.code a).arrival? start (start + limit.totalNanos)).bind stop?)
    (((source.nonce a).arrival? start (start + limit.totalNanos)).bind stop?)

theorem firstStop_eq_none (h : firstStop source limit start a = none) {d : Nat} {x : Fetched}
    (hstops : source.Stops a d x) : limit.totalNanos ≤ d := by
  obtain ⟨hcode, hnonce⟩ := first_eq_none_iff.1 h
  apply Nat.le_of_not_lt
  intro hd
  rcases hstops with hs | hs
  · rw [bind_stop?_of_stops hs (Nat.le_of_lt hd)] at hcode
    cases hcode
  · rw [bind_stop?_of_stops hs (Nat.le_of_lt hd)] at hnonce
    cases hnonce

theorem firstStop_eq_some {g : Fetch} (h : firstStop source limit start a = some g) :
    ∃ d ≤ limit.totalNanos, source.Stops a d g.result ∧ g.ends = start + d ∧
      ∀ e y, source.Stops a e y → d ≤ e := by
  obtain ⟨hg, hmin⟩ := first_eq_some h
  have hstop : ∃ d ≤ limit.totalNanos, source.Stops a d g.result ∧ g.ends = start + d := by
    rcases hg with hg | hg
    · obtain ⟨d, hd, hs, hends⟩ := bind_stop?_eq_some_iff.1 hg
      exact ⟨d, hd, .inl hs, hends⟩
    · obtain ⟨d, hd, hs, hends⟩ := bind_stop?_eq_some_iff.1 hg
      exact ⟨d, hd, .inr hs, hends⟩
  obtain ⟨d, hd, hs, hends⟩ := hstop
  refine ⟨d, hd, hs, hends, fun e y he => ?_⟩
  -- what stops within the limit was a candidate, and the rest comes later anyway
  by_cases hle : e ≤ limit.totalNanos
  · have hcandidate : g.ends ≤ start + e := by
      rcases he with he | he
      · exact hmin ⟨start + e, y⟩ (.inl (bind_stop?_of_stops he hle))
      · exact hmin ⟨start + e, y⟩ (.inr (bind_stop?_of_stops he hle))
    omega
  · omega

theorem both?_eq_some_iff {g : Fetch} :
    both? ((source.code a).arrival? start (start + limit.totalNanos))
        ((source.nonce a).arrival? start (start + limit.totalNanos)) = some g ↔
      ∃ d f, source.TellsAfter a d f ∧ d ≤ limit.totalNanos ∧ g = ⟨start + d, .facts f⟩ := by
  constructor
  · intro h
    unfold both? at h
    split at h
    · next t code u nonce hcode hnonce =>
      obtain ⟨hc, m, hm, hmle, rfl⟩ := Lookup.arrival?_eq_some_iff.1 hcode
      obtain ⟨hn, n, hlatency, hnle, rfl⟩ := Lookup.arrival?_eq_some_iff.1 hnonce
      cases h
      exact ⟨max m n, ⟨code, nonce⟩, ⟨m, n, hm, hc, hlatency, hn, rfl⟩, by omega,
        by rw [Nat.add_max_add_left]⟩
    · cases h
  · rintro ⟨d, f, ⟨m, n, hm, hcode, hn, hnonce, rfl⟩, hd, rfl⟩
    rw [Lookup.arrival?_eq_some_iff.2 ⟨hcode, m, hm, by omega, rfl⟩,
      Lookup.arrival?_eq_some_iff.2 ⟨hnonce, n, hn, by omega, rfl⟩, both?, Nat.add_max_add_left]

theorem ends_of (source : Source) (limit : Duration) (start : Nat) (a : Address) :
    Ends source limit start a (Fetch.of source limit start a) := by
  have hof : Fetch.of source limit start a = ((firstStop source limit start a).or _).getD _ := rfl
  rw [hof]
  cases hstop : firstStop source limit start a with
  | some g =>
    obtain ⟨d, hd, hs, hends, hfirst⟩ := firstStop_eq_some hstop
    have hg : g = ⟨start + d, g.result⟩ := by rw [← hends]
    rw [Option.some_or, Option.getD_some, hg]
    exact .stopped hs hd hfirst
  | none =>
    rw [Option.none_or]
    cases hboth : both? ((source.code a).arrival? start _) ((source.nonce a).arrival? start _) with
    | some g =>
      obtain ⟨d, f, htells, hd, rfl⟩ := both?_eq_some_iff.1 hboth
      exact .told htells hd
    | none =>
      refine .expired (fun d f htells => ?_) fun d x => firstStop_eq_none hstop
      apply Nat.le_of_not_lt
      intro hd
      rw [both?_eq_some_iff.2 ⟨d, f, htells, by omega, rfl⟩] at hboth
      cases hboth

theorem Ends.unique {f g : Fetch} (h : source.UntiedAt limit a) (hf : Ends source limit start a f)
    (hg : Ends source limit start a g) : f = g := by
  cases hf with
  | told hf hd =>
    cases hg with
    | told hg _ =>
      obtain ⟨rfl, rfl⟩ := hf.unique hg
      rfl
    | stopped hs _ _ => exact absurd hs hf.not_stops
    | expired htells _ => exact absurd (Nat.le_antisymm hd (htells _ _ hf)) (h.ne_of_tellsAfter hf)
  | stopped hf hd hfirst =>
    cases hg with
    | told hg _ => exact absurd hf hg.not_stops
    | stopped hg _ hfirst' =>
      obtain rfl := Nat.le_antisymm (hfirst _ _ hg) (hfirst' _ _ hf)
      rw [h.stops_unique hf hg]
    | expired _ hstops => exact absurd (Nat.le_antisymm hd (hstops _ _ hf)) (h.ne_of_stops hf)
  | expired htells hstops =>
    cases hg with
    | told hg hd => exact absurd (Nat.le_antisymm hd (htells _ _ hg)) (h.ne_of_tellsAfter hg)
    | stopped hg hd _ => exact absurd (Nat.le_antisymm hd (hstops _ _ hg)) (h.ne_of_stops hg)
    | expired => rfl

/-- Without ties the lookups end in one way only. -/
theorem ends_iff {f : Fetch} (h : source.UntiedAt limit a) :
    Ends source limit start a f ↔ f = Fetch.of source limit start a :=
  ⟨fun hf => hf.unique h (ends_of source limit start a),
    fun hf => hf ▸ ends_of source limit start a⟩

end Fetch
end ProposalVetting

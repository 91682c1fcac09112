import ProposalVetting.Proofs.Check.Distinct

namespace ProposalVetting.Check

variable {trusted : TrustSet} {result : Address → Fetched} {addresses seen : List Address}
  {landed : List Landing}

/-- What the report says of an address, unless its lookups crash. -/
def settled? (trusted : TrustSet) (result : Address → Fetched) (a : Address) : Option Outcome :=
  if trusted.contains a then some (.classified .trusted) else outcome? trusted a (result a)

theorem settled?_of_trusted {a : Address} (ha : trusted.contains a = true) :
    settled? trusted result a = some (.classified .trusted) := if_pos ha

theorem settled?_of_untrusted {a : Address} (ha : trusted.contains a = false) :
    settled? trusted result a = outcome? trusted a (result a) := if_neg (by simp [ha])

/-- With facts an address is classified, trusted or not. -/
theorem settled?_of_facts {a : Address} {f : Facts} (h : result a = .facts f) :
    settled? trusted result a = some (.classified (classify trusted a f)) := by
  cases ha : trusted.contains a with
  | true => rw [settled?_of_trusted ha, classify, if_pos ha]
  | false =>
    rw [settled?_of_untrusted ha, h]
    rfl

theorem isSome_outcome?_iff {a : Address} {r : Fetched} :
    (outcome? trusted a r).isSome = true ↔ r ≠ .crashed := by
  cases r <;> simp [outcome?]

theorem isSome_settled?_iff {a : Address} :
    (settled? trusted result a).isSome = true ↔
      (trusted.contains a = false → result a ≠ .crashed) := by
  cases ha : trusted.contains a with
  | true => simp [settled?_of_trusted ha]
  | false => simp [settled?_of_untrusted ha, isSome_outcome?_iff]

theorem exists_settled {a : Address} (h : trusted.contains a = false → result a ≠ .crashed) :
    ∃ o, settled? trusted result a = some o :=
  Option.isSome_iff_exists.1 (isSome_settled?_iff.2 h)

theorem exists_outcomes (trusted : TrustSet)
    (h : ∀ a ∈ addresses, trusted.contains a = false → result a ≠ .crashed) :
    ∃ outcome : Address → Outcome,
      ∀ a ∈ addresses, settled? trusted result a = some (outcome a) := by
  have : Nonempty Outcome := ⟨.classified .trusted⟩
  choose! outcome houtcome using fun a ha => exists_settled (h a ha)
  exact ⟨outcome, houtcome⟩

/-- The slots when the addresses in `seen` have been answered. -/
def filled (trusted : TrustSet) (result : Address → Fetched) (seen addresses : List Address) :
    List (Option Outcome) :=
  addresses.map fun a => if trusted.contains a ∨ a ∈ seen then settled? trusted result a else none

theorem slots_eq_filled (trusted : TrustSet) (result : Address → Fetched)
    (addresses : List Address) :
    slots trusted addresses = filled trusted result [] addresses := by
  apply List.map_congr_left
  intro a _
  by_cases ha : trusted.contains a <;> simp [ha, settled?, classify]

theorem mem_tasks_iff {t : Task} :
    t ∈ tasks trusted addresses ↔
      addresses[t.index]? = some t.address ∧ trusted.contains t.address = false := by
  simp only [tasks, List.mem_filterMap, Prod.exists, List.mem_zipIdx_iff_getElem?]
  constructor
  · rintro ⟨a, i, hi, ht⟩
    split at ht
    · cases ht
    · next ha =>
      cases ht
      exact ⟨hi, by simpa using ha⟩
  · rintro ⟨hi, ha⟩
    exact ⟨t.address, t.index, hi, by simp [ha]⟩

/-- There is one task for each untrusted address, in the order of the list. -/
theorem map_address_tasks (trusted : TrustSet) (addresses : List Address) :
    (tasks trusted addresses).map Task.address = addresses.filter fun a => !trusted.contains a := by
  unfold tasks
  -- at whatever index the list begins
  generalize 0 = start
  induction addresses generalizing start with
  | nil => rfl
  | cons a rest ih =>
    rw [List.zipIdx_cons, List.filterMap_cons, List.filter_cons]
    by_cases ha : trusted.contains a <;> simp [ha, ih]

theorem exists_mem_tasks {a : Address} (h : a ∈ addresses) (ha : trusted.contains a = false) :
    ∃ t ∈ tasks trusted addresses, t.address = a := by
  obtain ⟨i, hi⟩ := List.getElem?_of_mem h
  exact ⟨⟨i, a⟩, mem_tasks_iff.2 ⟨hi, ha⟩, rfl⟩

/-- Writing one slot is answering one address, because no address has two slots. -/
theorem set_filled {i : Nat} {a : Address} (hnodup : addresses.Nodup)
    (hi : addresses[i]? = some a) :
    (filled trusted result seen addresses).set i (settled? trusted result a) =
      filled trusted result (a :: seen) addresses := by
  obtain ⟨hlt, rfl⟩ := List.getElem?_eq_some_iff.1 hi
  apply List.ext_getElem
  · simp [filled]
  · intro j hj hj'
    have hjlt : j < addresses.length := by simpa [filled] using hj'
    rw [List.getElem_set]
    by_cases hij : i = j
    · subst hij
      simp [filled]
    · have hne : addresses[j] ≠ addresses[i] := fun h => hij (hnodup.getElem_inj_iff.1 h).symm
      simp [filled, hij, hne]

/-- A result belongs to a task: it stands at the index of its own, untrusted address. -/
structure Belongs (trusted : TrustSet) (result : Address → Fetched) (addresses : List Address)
    (l : Landing) : Prop where
  task : l.task ∈ tasks trusted addresses
  own : l.result = result l.task.address

/-- What is settled of an address did not come of a crash. -/
theorem not_crashed_of_belongs {outcome : Address → Outcome} {l : Landing}
    (hsettled : ∀ a ∈ addresses, settled? trusted result a = some (outcome a))
    (hl : Belongs trusted result addresses l) : l.result ≠ .crashed := by
  obtain ⟨hi, ha⟩ := mem_tasks_iff.1 hl.task
  have hsome : (settled? trusted result l.task.address).isSome = true := by
    rw [hsettled _ (List.mem_of_getElem? hi)]
    rfl
  rw [hl.own]
  exact isSome_settled?_iff.1 hsome ha

theorem enter_eq_filled (hnodup : addresses.Nodup)
    (hbelongs : ∀ l ∈ landed, Belongs trusted result addresses l)
    (hcrash : ∀ l ∈ landed, l.result ≠ .crashed) (seen : List Address) :
    enter trusted (filled trusted result seen addresses) landed =
      .ok (filled trusted result ((landed.map fun l => l.task.address).reverse ++ seen)
        addresses) := by
  induction landed generalizing seen with
  | nil => rfl
  | cons l rest ih =>
    obtain ⟨htask, hown⟩ := hbelongs l List.mem_cons_self
    obtain ⟨hi, ha⟩ := mem_tasks_iff.1 htask
    obtain ⟨o, ho⟩ : ∃ o, outcome? trusted l.task.address l.result = some o :=
      Option.isSome_iff_exists.1 (isSome_outcome?_iff.2 (hcrash l List.mem_cons_self))
    have hsettled : settled? trusted result l.task.address = some o := by
      rw [settled?_of_untrusted ha, ← hown, ho]
    have henter := ih (fun m hm => hbelongs m (List.mem_cons_of_mem _ hm))
      (fun m hm => hcrash m (List.mem_cons_of_mem _ hm)) (l.task.address :: seen)
    rw [enter, ho]
    simp only [← hsettled, set_filled hnodup hi, henter, List.map_cons, List.reverse_cons,
      List.append_assoc, List.singleton_append]

/-- One crash among the results is enough, wherever it stands. -/
theorem enter_of_crashed {l : Landing} (hl : l ∈ landed) (hcrash : l.result = .crashed)
    (slots : List (Option Outcome)) : enter trusted slots landed = .error .crashed := by
  induction landed generalizing slots with
  | nil => cases hl
  | cons m rest ih =>
    rw [enter]
    rcases List.mem_cons.1 hl with rfl | hl
    · rw [hcrash]
      rfl
    · cases outcome? trusted m.task.address m.result with
      | some o => exact ih hl _
      | none => rfl

theorem pair_map_some (f : Address → Outcome) (addresses : List Address) :
    pair addresses (addresses.map fun a => some (f a)) =
      .ok (addresses.map fun a => .of a (f a)) := by
  induction addresses with
  | nil => rfl
  | cons a rest ih =>
    rw [List.map_cons, pair, ih]
    rfl

theorem assemble_of_crashed {l : Landing} (hl : l ∈ landed) (hcrash : l.result = .crashed)
    (name : String) :
    assemble name trusted addresses landed = .error .crashed := by
  rw [assemble, enter_of_crashed hl hcrash]
  rfl

/-- The report from the results of all tasks, in any order. -/
theorem assemble_eq_build {outcome : Address → Outcome} (hnodup : addresses.Nodup)
    (hsettled : ∀ a ∈ addresses, settled? trusted result a = some (outcome a))
    (hbelongs : ∀ l ∈ landed, Belongs trusted result addresses l)
    (hall : ∀ t ∈ tasks trusted addresses, ∃ l ∈ landed, l.task = t) (name : String) :
    assemble name trusted addresses landed =
      .ok (Report.build name (addresses.map fun a => .of a (outcome a))) := by
  have hcrash : ∀ l ∈ landed, l.result ≠ .crashed :=
    fun l hl => not_crashed_of_belongs hsettled (hbelongs l hl)
  have henter := enter_eq_filled hnodup hbelongs hcrash []
  have hfull :
      filled trusted result ((landed.map fun l => l.task.address).reverse ++ []) addresses =
        addresses.map fun a => some (outcome a) := by
    apply List.map_congr_left
    intro a ha
    rw [← hsettled a ha]
    apply if_pos
    cases htrusted : trusted.contains a with
    | true => exact .inl rfl
    | false =>
      obtain ⟨t, ht, rfl⟩ := exists_mem_tasks ha htrusted
      obtain ⟨l, hl, rfl⟩ := hall t ht
      exact .inr (by simpa using ⟨l, hl, rfl⟩)
  -- what stands in the slots before any lookup is what is settled by trust alone
  rw [assemble, slots_eq_filled trusted result, henter, hfull]
  simp only [bind, Except.bind, pair_map_some]
  rfl

end ProposalVetting.Check

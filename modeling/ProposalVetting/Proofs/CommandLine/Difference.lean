import ProposalVetting.Proofs.CommandLine.Arguments

namespace ProposalVetting.CommandLine.Arguments
open Failure

/-- The same was taken in but for `x` and `y` in one place, where an option has its first value. -/
inductive Differ (x y : String) : Place → Arguments → Arguments → Prop where
  | operand (s : Arguments) :
      Differ x y .operand { s with operand := some x } { s with operand := some y }
  | option {name : String} {earlier : List (String × String)} (s : Arguments)
      (hfirst : ∀ o ∈ earlier, o.1 ≠ name) (later : List (String × String)) :
      Differ x y (.option name) { s with options := earlier ++ (name, x) :: later }
        { s with options := earlier ++ (name, y) :: later }

/-- As before, but the value of an option may have come without being looked at. -/
inductive Taken (x y : String) : Place → Arguments → Arguments → Prop where
  | settled {place : Place} {s t : Arguments} (h : Differ x y place s t) : Taken x y place s t
  | pending {option : OptionSpec} {accepts : String → Except Refusal Unit} (s : Arguments)
      (hrepeats : option.repeats = false) (haccepts : accepts x = accepts y) :
      Taken x y (.option option.name) { s with pending := some ⟨option, accepts, some x⟩ }
        { s with pending := some ⟨option, accepts, some y⟩ }

variable {x y name : String} {place : Place} {s t : Arguments} {specs : List OptionSpec}
  {option : OptionSpec} {accepts : String → Except Refusal Unit} {put : String → List String}

namespace Differ

theorem pending_eq (h : Differ x y place s t) : s.pending = t.pending := by
  cases h <;> rfl

theorem operandsOnly_eq (h : Differ x y place s t) : s.operandsOnly = t.operandsOnly := by
  cases h <;> rfl

theorem has_eq (h : Differ x y place s t) (other : String) : s.has other = t.has other := by
  cases h with
  | operand s => rfl
  | option s _ later => simp only [has, List.any_append, List.any_cons]

theorem operand_eq (h : Differ x y (.option name) s t) : s.operand = t.operand := by
  cases h with
  | option => rfl

theorem operand_eq_some (h : Differ x y .operand s t) :
    s.operand = some x ∧ t.operand = some y := by
  cases h with
  | operand => exact ⟨rfl, rfl⟩

theorem has_option (h : Differ x y (.option name) s t) : s.has name = true := by
  cases h with
  | option s _ later => simp [has]

theorem value?_eq_some (h : Differ x y (.option name) s t) :
    s.value? name = some x ∧ t.value? name = some y := by
  cases h with
  | @option _ earlier s hfirst later =>
    have hnone : earlier.filter (fun o => o.1 == name) = [] :=
      List.filter_eq_nil_iff.2 fun o ho => by simpa using hfirst o ho
    simp [value?, values, List.filter_append, hnone]

theorem values_eq {other : String} (h : Differ x y (.option name) s t) (hne : name ≠ other) :
    s.values other = t.values other := by
  cases h with
  | option s _ later => simp [values, List.filter_append, hne]

theorem setPending (h : Differ x y place s t) (pending : Option Pending) :
    Differ x y place { s with pending := pending } { t with pending := pending } := by
  cases h with
  | operand s => exact .operand { s with pending := pending }
  | option s hfirst later => exact .option { s with pending := pending } hfirst later

theorem setOperandsOnly (h : Differ x y place s t) :
    Differ x y place { s with operandsOnly := true } { t with operandsOnly := true } := by
  cases h with
  | operand s => exact .operand { s with operandsOnly := true }
  | option s hfirst later => exact .option { s with operandsOnly := true } hfirst later

theorem setOperand (h : Differ x y (.option name) s t) (text : String) :
    Differ x y (.option name) { s with operand := some text } { t with operand := some text } := by
  cases h with
  | option s hfirst later => exact .option { s with operand := some text } hfirst later

theorem append (h : Differ x y place s t) (o : String × String) :
    Differ x y place { s with options := s.options ++ [o] }
      { t with options := t.options ++ [o] } := by
  cases h with
  | operand s => exact .operand { s with options := s.options ++ [o] }
  | option s hfirst later =>
    simp only [List.append_assoc, List.cons_append]
    exact .option s hfirst (later ++ [o])

theorem record (h : Differ x y place s t) (option : OptionSpec)
    (accepts : String → Except Refusal Unit) (value : String) :
    Alike (Differ x y place) (s.record option accepts value) (t.record option accepts value) := by
  rw [record_eq, record_eq, h.has_eq]
  split
  · exact .error _
  · exact .bind_same fun _ _ => .ok (h.append _)

theorem settle (h : Differ x y place s t) : Alike (Differ x y place) s.settle t.settle := by
  unfold Arguments.settle
  rw [← h.pending_eq]
  match s.pending with
  | none => exact .ok h
  | some ⟨_, _, none⟩ => exact .error _
  | some ⟨spec, accepts, some value⟩ => exact (h.setPending none).record spec accepts value

end Differ

/-- A value that was not given before becomes the first one. -/
theorem record_differ (args : Arguments) (hrepeats : option.repeats = false)
    (haccepts : accepts x = accepts y) :
    Alike (Differ x y (.option option.name)) (args.record option accepts x)
      (args.record option accepts y) := by
  rw [record_eq, record_eq, haccepts, hrepeats]
  split
  · exact .error _
  · rename_i hnew
    refine .bind_same fun _ _ => .ok (.option args (fun o ho heq => ?_) [])
    have hhas : args.has option.name = true := List.any_eq_true.2 ⟨o, ho, beq_iff_eq.2 heq⟩
    exact hnew (by rw [hhas]; rfl)

namespace Taken

theorem operandsOnly_eq (h : Taken x y place s t) : s.operandsOnly = t.operandsOnly := by
  cases h with
  | settled h => exact h.operandsOnly_eq
  | pending => rfl

theorem setOperandsOnly (h : Taken x y place s t) :
    Taken x y place { s with operandsOnly := true } { t with operandsOnly := true } := by
  cases h with
  | settled h => exact .settled h.setOperandsOnly
  | pending s hrepeats haccepts => exact .pending { s with operandsOnly := true } hrepeats haccepts

theorem settle (h : Taken x y place s t) : Alike (Differ x y place) s.settle t.settle := by
  cases h with
  | settled h => exact h.settle
  | pending s hrepeats haccepts => exact record_differ { s with pending := none } hrepeats haccepts

theorem operandArgument (h : Taken x y place s t) (text : String) :
    Alike (Taken x y place) (s.operandArgument text) (t.operandArgument text) := by
  cases place with
  | operand =>
    cases h with
    | settled h =>
      cases h
      exact .error _
  | option name =>
    have hoperand : s.operand = t.operand := by
      cases h with
      | settled h => cases h; rfl
      | pending => rfl
    unfold Arguments.operandArgument
    rw [← hoperand]
    cases s.operand with
    | some _ => exact .error _
    | none => exact h.settle.bind fun s t h => .ok (.settled (h.setOperand text))

theorem long (h : Taken x y place s t) (specs : List OptionSpec) (name : String)
    (attached : Option String) :
    Alike (Taken x y place) (s.long specs name attached) (t.long specs name attached) := by
  unfold Arguments.long
  split
  · split
    · exact .error _
    · split
      · exact .error _
      · exact h.settle.bind fun _ _ _ => .error _
  · split
    · exact .error _
    · exact h.settle.bind fun s t h => (h.record ..).imp .settled
    · exact h.settle.bind fun s t h => (h.record ..).imp .settled
    · exact h.settle.bind fun s t h => .ok (.settled (h.setPending _))

theorem take (h : Taken x y place s t) (specs : List OptionSpec) (text : String) :
    Alike (Taken x y place) (take specs s text) (take specs t text) := by
  unfold Arguments.take
  by_cases honly : s.operandsOnly = true
  · rw [if_pos honly, if_pos (h.operandsOnly_eq ▸ honly)]
    exact h.operandArgument text
  · rw [if_neg honly, if_neg (h.operandsOnly_eq ▸ honly)]
    split
    · exact .ok h.setOperandsOnly
    · exact h.long ..
    · exact h.settle.bind fun _ _ _ => .error _
    · exact .error _
    · cases h with
      | settled h =>
        rw [← h.pending_eq]
        split
        · exact .ok (.settled (h.setPending _))
        · exact (settled h).operandArgument text
      | pending s hrepeats haccepts => exact (pending s hrepeats haccepts).operandArgument text

/-- Whatever follows, it is refused alike behind both, or kept apart from the two. -/
theorem finish (h : Taken x y place s t) (specs : List OptionSpec) (behind : List String) :
    Alike (Differ x y place) (behind.foldlM (Arguments.take specs) s >>= Arguments.settle)
      (behind.foldlM (Arguments.take specs) t >>= Arguments.settle) :=
  (Alike.foldlM (fun _ _ text h => h.take specs text) behind h).bind fun _ _ h => h.settle

end Taken

theorem operandArgument_taken (s : Arguments) (x y : String) :
    Alike (Taken x y .operand) (s.operandArgument x) (s.operandArgument y) := by
  unfold operandArgument
  split
  · exact .error _
  · exact .bind_same fun u _ => .ok (.settled (.operand u))

namespace Single

/-- The name and the value behind it. Where only operands are taken, the name is the operand and the
value one too many. -/
theorem apart_taken (h : Single specs name option accepts) (haccepts : accepts x = accepts y)
    (hx : Plain x) (hy : Plain y) (s : Arguments) :
    Alike (Taken x y (.option name)) (["--" ++ name, x].foldlM (take specs) s)
      (["--" ++ name, y].foldlM (take specs) s) := by
  obtain rfl := h.name_eq
  simp only [List.foldlM_cons, List.foldlM_nil, bind_pure]
  cases honly : s.operandsOnly with
  | true =>
    rw [take_of_operandsOnly honly]
    refine .bind_same fun t ht => ?_
    obtain ⟨-, u, hu, rfl⟩ := operandArgument_eq_ok ht
    have hu : u.operandsOnly = true := hu.operandsOnly_eq.trans honly
    rw [take_of_operandsOnly (by exact hu), take_of_operandsOnly (by exact hu)]
    exact .error _
  | false =>
    rw [h.take_apart honly]
    simp only [bind_assoc]
    refine .bind_same fun u hu => ?_
    have hu : u.operandsOnly = false := (settles_of_eq_ok hu).operandsOnly_eq.trans honly
    rw [ok_bind, ok_bind, take_of_plain hx (by exact hu), take_of_plain hy (by exact hu)]
    exact .ok (.pending u h.repeats haccepts)

theorem attached_taken (h : Single specs name option accepts) (haccepts : accepts x = accepts y)
    (honly : s.operandsOnly = false) :
    Alike (Taken x y (.option name)) (take specs s ("--" ++ name ++ "=" ++ x))
      (take specs s ("--" ++ name ++ "=" ++ y)) := by
  rw [h.take_attached honly, h.take_attached honly]
  obtain rfl := h.name_eq
  exact .bind_same fun u _ => (record_differ u h.repeats haccepts).imp .settled

end Single

/-- What stands before and behind is the same, so it only matters what is taken in between. -/
theorem read_alike_of_taken (before xs ys behind : List String)
    (h : ∀ s, before.foldlM (take specs) {} = .ok s →
      Alike (Taken x y place) (xs.foldlM (take specs) s) (ys.foldlM (take specs) s)) :
    Alike (Differ x y place) (read specs (before ++ (xs ++ behind)))
      (read specs (before ++ (ys ++ behind))) := by
  simp only [read, List.foldlM_append, bind_assoc]
  refine .bind_same fun s hs => (h s hs).bind fun s t h => ?_
  exact h.finish specs behind

/-- A command with nothing but flags. -/
theorem read_alike_of_operand (hflags : ∀ o ∈ specs, o.kind = .flag) (h : ValueAt x .operand put)
    (hy : Plain y) :
    Alike (Differ x y .operand) (read specs (put x)) (read specs (put y)) := by
  cases h with
  | operand hplace behind =>
    refine read_alike_of_taken _ [x] [y] behind fun s hs => ?_
    have htraced := Traced.foldlM hs
    simp only [List.foldlM_cons, List.foldlM_nil, bind_pure]
    rw [htraced.take_eq_operandArgument hflags hplace,
      htraced.take_eq_operandArgument hflags (.inl hy)]
    exact operandArgument_taken s x y

theorem read_alike_of_option (hsingle : Single specs name option accepts)
    (haccepts : accepts x = accepts y) (h : ValueAt x (.option name) put) (hy : Plain y) :
    Alike (Differ x y (.option name)) (read specs (put x)) (read specs (put y)) := by
  cases h with
  | apart hx before behind =>
    exact read_alike_of_taken before ["--" ++ name, x] ["--" ++ name, y] behind fun s _ =>
      hsingle.apart_taken haccepts hx hy s
  | attached hbefore behind =>
    refine read_alike_of_taken _ ["--" ++ name ++ "=" ++ x]
      ["--" ++ name ++ "=" ++ y] behind fun s hs => ?_
    have honly : s.operandsOnly = false := by
      rw [← Bool.not_eq_true, (Traced.foldlM hs).operandsOnly]
      exact hbefore
    simp only [List.foldlM_cons, List.foldlM_nil, bind_pure]
    exact hsingle.attached_taken haccepts honly

end ProposalVetting.CommandLine.Arguments

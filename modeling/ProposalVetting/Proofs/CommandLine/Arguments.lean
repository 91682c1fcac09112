import Mathlib.Data.List.Induction
import Mathlib.Data.List.TakeWhile
import ProposalVetting.CommandLine.Arguments
import ProposalVetting.Proofs.Failure

namespace ProposalVetting.CommandLine.Arguments
open Failure

/-- No name of an option: it does not begin with a dash, or is nothing but one. -/
def Plain (text : String) : Prop := ∀ cs, text.toList = '-' :: cs → cs = []

/-- What a value belongs to. -/
inductive Place where
  | operand
  | option (name : String)

/-- Lists of arguments with a text in one place, which `x` can have as the value of what it belongs
to. -/
inductive ValueAt (x : String) : Place → (String → List String) → Prop where
  | operand {before : List String} (h : Plain x ∨ "--" ∈ before) (behind : List String) :
      ValueAt x .operand fun text => before ++ text :: behind
  | apart {name : String} (h : Plain x) (before behind : List String) :
      ValueAt x (.option name) fun text => before ++ ("--" ++ name) :: text :: behind
  | attached {name : String} {before : List String} (h : "--" ∉ before) (behind : List String) :
      ValueAt x (.option name) fun text => before ++ ("--" ++ name ++ "=" ++ text) :: behind

/-- The option of that name takes a value, and only once. -/
structure Single (specs : List OptionSpec) (name : String) (option : OptionSpec)
    (accepts : String → Except Refusal Unit) : Prop where
  find : specs.find? (fun s => s.name == name) = some option
  kind : option.kind = .value accepts
  repeats : option.repeats = false
  nonempty : name ≠ ""
  unequal : '=' ∉ name.toList

variable {x name text : String} {place : Place} {s t : Arguments} {specs : List OptionSpec}
  {option : OptionSpec} {accepts : String → Except Refusal Unit} {done : List String}

theorem plain_of_head {c : Char} {cs : List Char} (h : text.toList = c :: cs) (hc : c ≠ '-') :
    Plain text := by
  intro cs hcs
  rw [h] at hcs
  exact absurd (List.cons.inj hcs).1 hc

theorem record_eq (args : Arguments) (option : OptionSpec) (accepts : String → Except Refusal Unit)
    (value : String) :
    args.record option accepts value =
      if args.has option.name && !option.repeats then .error .conflict
      else accepts value >>= fun _ =>
        .ok { args with options := args.options ++ [(option.name, value)] } := by
  unfold record
  split <;> rfl

theorem record_eq_ok {value : String} (h : s.record option accepts value = .ok t) :
    t = { s with options := s.options ++ [(option.name, value)] } := by
  rw [record_eq] at h
  split at h
  · cases h
  · obtain ⟨_, -, h⟩ := bind_eq_ok_iff.1 h
    exact (Except.ok.inj h).symm

/-- What looking at the last value comes to. -/
inductive Settles (s : Arguments) : Arguments → Prop where
  | nothing (h : s.pending = none) : Settles s s
  | value {option : OptionSpec} {accepts : String → Except Refusal Unit} {value : String}
      (h : s.pending = some ⟨option, accepts, some value⟩) :
      Settles s { s with pending := none, options := s.options ++ [(option.name, value)] }

theorem settles_of_eq_ok (h : s.settle = .ok t) : Settles s t := by
  unfold settle at h
  split at h
  · cases h
    exact .nothing (by assumption)
  · cases h
  · rw [record_eq_ok h]
    exact .value (by assumption)

theorem Settles.pending_eq (h : Settles s t) : t.pending = none := by
  cases h with
  | nothing h => exact h
  | value => rfl

theorem Settles.operandsOnly_eq (h : Settles s t) : t.operandsOnly = s.operandsOnly := by
  cases h <;> rfl

theorem toList_eq_dashes_iff : text.toList = ['-', '-'] ↔ text = "--" := by
  rw [← String.toList_inj]
  rfl

theorem Plain.ne_dashes (h : Plain text) : text ≠ "--" := by
  rintro rfl
  exact absurd (h ['-'] rfl) (List.cons_ne_nil _ _)

/-- What taking in one more text comes to. -/
inductive Takes (specs : List OptionSpec) (s : Arguments) (text : String) : Arguments → Prop where
  | dashes (honly : s.operandsOnly = false) (htext : text = "--") :
      Takes specs s text { s with operandsOnly := true }
  | operand {u : Arguments} (hplace : s.operandsOnly = true ∨ Plain text) (hnone : s.operand = none)
      (hsettle : Settles s u) : Takes specs s text { u with operand := some text }
  | value {option : OptionSpec} {accepts : String → Except Refusal Unit}
      (honly : s.operandsOnly = false) (hplain : Plain text)
      (hpending : s.pending = some ⟨option, accepts, none⟩) :
      Takes specs s text { s with pending := some ⟨option, accepts, some text⟩ }
  | flag {option : OptionSpec} {u : Arguments} (hdashes : text ≠ "--") (hmem : option ∈ specs)
      (hkind : option.kind = .flag) (hsettle : Settles s u) :
      Takes specs s text { u with options := u.options ++ [(option.name, "")] }
  | attached {option : OptionSpec} {u : Arguments} {value : String} (hdashes : text ≠ "--")
      (honly : s.operandsOnly = false) (htext : text = "--" ++ option.name ++ "=" ++ value)
      (hsettle : Settles s u) :
      Takes specs s text { u with options := u.options ++ [(option.name, value)] }
  | awaits {option : OptionSpec} {accepts : String → Except Refusal Unit} {u : Arguments}
      (hdashes : text ≠ "--") (hmem : option ∈ specs) (hkind : option.kind = .value accepts)
      (htext : text = "--" ++ option.name)
      (hsettle : Settles s u) : Takes specs s text { u with pending := some { option, accepts } }

/-- A name with the value behind it, if there is one. -/
def joined : String × Option String → List Char
  | (name, none) => name.toList
  | (name, some value) => name.toList ++ '=' :: value.toList

theorem joined_splitValue (cs : List Char) : joined (splitValue cs) = cs := by
  have hcs : cs.takeWhile (· ≠ '=') ++ cs.dropWhile (· ≠ '=') = cs :=
    List.takeWhile_append_dropWhile
  unfold splitValue
  split
  · rename_i c value hvalue
    have hc : c = '=' := by
      have hhead := List.head?_dropWhile_not (· ≠ '=') cs
      rw [hvalue] at hhead
      simpa using hhead
    rw [hvalue, hc] at hcs
    simpa [joined] using hcs
  · rename_i hnone
    rw [hnone, List.append_nil] at hcs
    simpa [joined] using hcs

theorem splitValue_joined (h : '=' ∉ name.toList) (attached : Option String) :
    splitValue (joined (name, attached)) = (name, attached) := by
  have hname : ∀ c ∈ name.toList, decide (c ≠ '=') = true :=
    fun c hc => decide_eq_true fun heq => h (heq ▸ hc)
  cases attached with
  | none =>
    have hdrop : name.toList.dropWhile (· ≠ '=') = [] := List.dropWhile_eq_nil_iff.2 hname
    simp only [splitValue, joined, hdrop, List.takeWhile_eq_self_iff.2 hname, String.ofList_toList]
  | some value =>
    simp only [splitValue, joined, List.takeWhile_append_of_pos hname,
      List.dropWhile_append_of_pos hname]
    simp

theorem operandArgument_eq_ok (h : s.operandArgument text = .ok t) :
    s.operand = none ∧ ∃ u, Settles s u ∧ t = { u with operand := some text } := by
  unfold operandArgument at h
  split at h
  · cases h
  · obtain ⟨u, hu, h⟩ := bind_eq_ok_iff.1 h
    cases h
    exact ⟨by assumption, u, settles_of_eq_ok hu, rfl⟩

theorem takes_of_operandArgument (hplace : s.operandsOnly = true ∨ Plain text)
    (h : s.operandArgument text = .ok t) :
    Takes specs s text t := by
  obtain ⟨hnone, u, hu, rfl⟩ := operandArgument_eq_ok h
  exact .operand hplace hnone hu

theorem takes_of_long {cs : List Char} (hdashes : text ≠ "--") (honly : s.operandsOnly = false)
    (htext : text.toList = '-' :: '-' :: cs)
    (h : s.long specs (splitValue cs).1 (splitValue cs).2 = .ok t) :
    Takes specs s text t := by
  have htext : text.toList = "--".toList ++ joined (splitValue cs) := by
    rw [htext, joined_splitValue]; rfl
  generalize splitValue cs = split at htext h
  obtain ⟨name, attached⟩ := split
  unfold long at h
  split at h
  · split at h
    · cases h
    · split at h
      · cases h
      · obtain ⟨_, -, h⟩ := bind_eq_ok_iff.1 h
        cases h
  · rename_i option hfind
    have hmem : option ∈ specs := List.mem_of_find?_eq_some hfind
    obtain rfl : option.name = name := by simpa using List.find?_some hfind
    split at h
    · cases h
    · rename_i hkind _
      obtain ⟨u, hu, h⟩ := bind_eq_ok_iff.1 h
      rw [record_eq_ok h]
      exact .flag hdashes hmem hkind (settles_of_eq_ok hu)
    · rename_i hattached
      cases hattached
      obtain ⟨u, hu, h⟩ := bind_eq_ok_iff.1 h
      rw [record_eq_ok h]
      refine .attached hdashes honly (String.toList_inj.1 ?_) (settles_of_eq_ok hu)
      simpa [joined] using htext
    · rename_i hkind hattached
      cases hattached
      obtain ⟨u, hu, h⟩ := bind_eq_ok_iff.1 h
      cases h
      refine .awaits hdashes hmem hkind (String.toList_inj.1 ?_) (settles_of_eq_ok hu)
      simpa [joined] using htext

theorem takes_of_eq_ok (h : take specs s text = .ok t) : Takes specs s text t := by
  unfold take at h
  split at h
  · exact takes_of_operandArgument (.inl (by assumption)) h
  · rename_i honly
    rw [Bool.not_eq_true] at honly
    split at h
    · rename_i htext
      cases h
      exact .dashes honly (toList_eq_dashes_iff.1 htext)
    · rename_i hcs htext
      have hdashes : text ≠ "--" := fun heq => hcs (by simpa [heq] using htext)
      exact takes_of_long hdashes honly htext h
    · obtain ⟨_, -, h⟩ := bind_eq_ok_iff.1 h
      cases h
    · cases h
    · rename_i hdash
      have hplain : Plain text := fun cs hcs => by
        cases cs with
        | nil => rfl
        | cons c cs => exact absurd hcs (hdash c cs)
      split at h
      · cases h
        exact .value honly hplain (by assumption)
      · exact takes_of_operandArgument (.inr hplain) h

theorem Takes.operandsOnly_iff (h : Takes specs s text t) :
    t.operandsOnly = true ↔ s.operandsOnly = true ∨ text = "--" := by
  cases h with
  | dashes honly htext => simp [htext]
  | operand hplace _ hsettle =>
    rw [hsettle.operandsOnly_eq]
    exact ⟨.inl,
      fun h => h.elim id fun htext => hplace.elim id fun hplain => absurd htext hplain.ne_dashes⟩
  | value _ hplain _ => exact ⟨.inl, fun h => h.resolve_right hplain.ne_dashes⟩
  | flag hdashes _ _ hsettle =>
    exact hsettle.operandsOnly_eq ▸ ⟨.inl, fun h => h.resolve_right hdashes⟩
  | attached hdashes _ _ hsettle =>
    exact hsettle.operandsOnly_eq ▸ ⟨.inl, fun h => h.resolve_right hdashes⟩
  | awaits hdashes _ _ _ hsettle =>
    exact hsettle.operandsOnly_eq ▸ ⟨.inl, fun h => h.resolve_right hdashes⟩

theorem take_of_plain (hplain : Plain text) (honly : s.operandsOnly = false) :
    take specs s text =
      match s.pending with
      | some ⟨option, accepts, none⟩ => .ok { s with pending := some ⟨option, accepts, some text⟩ }
      | _ => s.operandArgument text := by
  unfold take
  rw [honly, if_neg Bool.false_ne_true]
  split
  case h_5 => rfl
  -- in all other cases more stands behind a dash
  all_goals
    rename_i htext
    cases hplain _ htext

theorem take_of_operandsOnly (honly : s.operandsOnly = true) :
    take specs s text = s.operandArgument text := by
  rw [take, if_pos honly]

namespace Single

theorem name_eq (h : Single specs name option accepts) : option.name = name := by
  simpa using List.find?_some h.find

theorem take_eq_long {attached : Option String} (h : Single specs name option accepts)
    (honly : s.operandsOnly = false)
    (htext : text.toList = "--".toList ++ joined (name, attached)) :
    take specs s text = s.long specs name attached := by
  unfold take
  rw [honly, if_neg Bool.false_ne_true, htext]
  have hsplit := splitValue_joined h.unequal attached
  cases hjoined : joined (name, attached) with
  | nil =>
    have hname : name.toList = [] := by
      cases attached with
      | none => exact hjoined
      | some value => simp [joined] at hjoined
    exact absurd (String.toList_inj.1 hname) h.nonempty
  | cons c cs =>
    rw [hjoined] at hsplit
    show s.long specs (splitValue (c :: cs)).1 (splitValue (c :: cs)).2 = _
    rw [hsplit]

theorem take_apart (h : Single specs name option accepts) (honly : s.operandsOnly = false) :
    take specs s ("--" ++ name) =
      s.settle >>= fun u => .ok { u with pending := some { option, accepts } } := by
  have htext : ("--" ++ name).toList = "--".toList ++ joined (name, none) := by simp [joined]
  rw [h.take_eq_long honly htext, long, h.find]
  simp only [h.kind]
  rfl

theorem take_attached (h : Single specs name option accepts) (honly : s.operandsOnly = false)
    (value : String) :
    take specs s ("--" ++ name ++ "=" ++ value) =
      s.settle >>= fun u => u.record option accepts value := by
  have htext : ("--" ++ name ++ "=" ++ value).toList =
      "--".toList ++ joined (name, some value) := by simp [joined]
  rw [h.take_eq_long honly htext, long, h.find]
  simp only [h.kind]

end Single

/-- The texts have `x` as the value in some place. -/
def Gives (x : String) (place : Place) (done : List String) : Prop :=
  ∃ put, ValueAt x place put ∧ done = put x

theorem Gives.append (h : Gives x place done) (text : String) : Gives x place (done ++ [text]) := by
  obtain ⟨put, hput, rfl⟩ := h
  cases hput with
  | operand h behind => exact ⟨_, .operand h (behind ++ [text]), by simp⟩
  | apart h before behind => exact ⟨_, .apart h before (behind ++ [text]), by simp⟩
  | attached h behind => exact ⟨_, .attached h (behind ++ [text]), by simp⟩

/-- Operand and options are found among the texts, but for the value of a flag, which stands
nowhere. -/
structure Found (specs : List OptionSpec) (done : List String) (operand : Option String)
    (options : List (String × String)) : Prop where
  operand : ∀ x ∈ operand, Gives x .operand done
  options : ∀ o ∈ options,
    Gives o.2 (.option o.1) done ∨ ∃ spec ∈ specs, spec.name = o.1 ∧ spec.kind = .flag

theorem Found.append {operand : Option String} {options : List (String × String)}
    (h : Found specs done operand options) (text : String) :
    Found specs (done ++ [text]) operand options where
  operand x hx := (h.operand x hx).append text
  options o ho := (h.options o ho).imp_left fun h => h.append text

theorem Found.concat {operand : Option String} {options : List (String × String)}
    {o : String × String} (h : Found specs done operand options)
    (ho : Gives o.2 (.option o.1) done ∨ ∃ spec ∈ specs, spec.name = o.1 ∧ spec.kind = .flag) :
    Found specs done operand (options ++ [o]) where
  operand := h.operand
  options := List.forall_mem_append.2 ⟨h.options, List.forall_mem_singleton.2 ho⟩

/-- What was taken in, and what is still to be looked at, is found among the texts. -/
structure Traced (specs : List OptionSpec) (done : List String) (s : Arguments) : Prop where
  operandsOnly : s.operandsOnly = true ↔ "--" ∈ done
  found : Found specs done s.operand s.options
  pending : ∀ option accepts, ∀ x, s.pending = some ⟨option, accepts, some x⟩ →
    Gives x (.option option.name) done
  awaited : ∀ option accepts, s.pending = some ⟨option, accepts, none⟩ → s.operandsOnly = false →
    ∃ before, done = before ++ ["--" ++ option.name]
  idle : (∀ o ∈ specs, o.kind = .flag) → s.pending = none

namespace Traced

theorem start (specs : List OptionSpec) : Traced specs [] {} where
  operandsOnly := by simp
  found := ⟨nofun, nofun⟩
  pending := nofun
  awaited := nofun
  idle _ := rfl

theorem of_pending_none (hnone : t.pending = none) (honly : t.operandsOnly = true ↔ "--" ∈ done)
    (hfound : Found specs done t.operand t.options) : Traced specs done t where
  operandsOnly := honly
  found := hfound
  pending := by simp [hnone]
  awaited := by simp [hnone]
  idle _ := hnone

theorem settle (h : Traced specs done s) (hsettle : Settles s t) : Traced specs done t := by
  cases hsettle with
  | nothing => exact h
  | value hpending =>
    exact .of_pending_none rfl h.operandsOnly (h.found.concat (.inl (h.pending _ _ _ hpending)))

theorem step (h : Traced specs done s) (htakes : Takes specs s text t) :
    Traced specs (done ++ [text]) t := by
  have honly : t.operandsOnly = true ↔ "--" ∈ done ++ [text] := by
    rw [htakes.operandsOnly_iff, h.operandsOnly, List.mem_append, List.mem_singleton, eq_comm]
  have hfound : Found specs (done ++ [text]) s.operand s.options := h.found.append text
  have hsettled : ∀ {u}, Settles s u → Found specs (done ++ [text]) u.operand u.options :=
    fun hu => (h.settle hu).found.append text
  cases htakes with
  | dashes =>
    refine ⟨honly, hfound, fun option accepts x hpending => ?_, nofun, h.idle⟩
    exact (h.pending option accepts x hpending).append text
  | operand hplace _ hu =>
    refine .of_pending_none hu.pending_eq honly ⟨?_, (hsettled hu).options⟩
    rintro _ ⟨⟩
    exact ⟨_, .operand (hplace.symm.imp_right h.operandsOnly.1) [], rfl⟩
  | value hfalse hplain hpending =>
    refine ⟨honly, hfound, ?_, nofun, fun hflags => ?_⟩
    · rintro _ _ _ ⟨⟩
      obtain ⟨before, rfl⟩ := h.awaited _ _ hpending hfalse
      exact ⟨_, .apart hplain before [], by simp⟩
    · cases hpending.symm.trans (h.idle hflags)
  | flag _ hmem hkind hu =>
    exact .of_pending_none hu.pending_eq honly ((hsettled hu).concat (.inr ⟨_, hmem, rfl, hkind⟩))
  | attached _ hfalse htext hu =>
    have hdone : "--" ∉ done := fun hmem => by simp [h.operandsOnly.2 hmem] at hfalse
    have hgives : Gives _ (.option _) (done ++ [text]) := ⟨_, .attached hdone [], by rw [htext]⟩
    exact .of_pending_none hu.pending_eq honly ((hsettled hu).concat (.inl hgives))
  | awaits _ hmem hkind htext hu =>
    have hfound := hsettled hu
    refine ⟨honly, hfound, nofun, ?_, fun hflags => ?_⟩
    · rintro _ _ ⟨⟩ -
      exact ⟨done, by rw [htext]⟩
    · cases hkind.symm.trans (hflags _ hmem)

theorem foldlM {done : List String} (h : done.foldlM (take specs) {} = .ok s) :
    Traced specs done s := by
  induction done using List.reverseRecOn generalizing s with
  | nil =>
    cases h
    exact start specs
  | append_singleton done text ih =>
    rw [List.foldlM_append] at h
    obtain ⟨t, ht, h⟩ := bind_eq_ok_iff.1 h
    rw [List.foldlM_cons] at h
    obtain ⟨u, hu, h⟩ := bind_eq_ok_iff.1 h
    cases h
    exact (ih ht).step (takes_of_eq_ok hu)

/-- Where nothing awaits a value, a text that can be the operand is taken for it. -/
theorem take_eq_operandArgument (h : Traced specs done s) (hflags : ∀ o ∈ specs, o.kind = .flag)
    (hplace : Plain text ∨ "--" ∈ done) : take specs s text = s.operandArgument text := by
  cases honly : s.operandsOnly with
  | true => exact take_of_operandsOnly honly
  | false =>
    have hplain : Plain text :=
      hplace.resolve_right fun hmem => by simp [h.operandsOnly.2 hmem] at honly
    rw [take_of_plain hplain honly, h.idle hflags]

end Traced

/-- Whatever is read was given. -/
theorem traced_of_read {texts : List String} (h : read specs texts = .ok s) :
    Traced specs texts s := by
  obtain ⟨t, ht, h⟩ := bind_eq_ok_iff.1 h
  exact (Traced.foldlM ht).settle (settles_of_eq_ok h)

end ProposalVetting.CommandLine.Arguments

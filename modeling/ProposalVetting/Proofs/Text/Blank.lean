import ProposalVetting.Text.Blank
import Mathlib.Data.List.Basic
import Mathlib.Data.List.TakeWhile

namespace ProposalVetting.Text

variable {c : Char} {cs core before behind : List Char}

/-- The text is its core with blank space on either side, and the core neither begins nor ends with
any. -/
structure Trimmed (cs core : List Char) : Prop where
  around : ∃ before behind, cs = before ++ core ++ behind ∧ (∀ c ∈ before, isBlank c = true) ∧
    ∀ c ∈ behind, isBlank c = true
  first : ∀ c ∈ core.head?, isBlank c = false
  last : ∀ c ∈ core.getLast?, isBlank c = false

theorem trimStart_eq_self (h : ∀ c ∈ cs.head?, isBlank c = false) : trimStart cs = cs := by
  cases cs with
  | nil => rfl
  | cons c cs => exact List.dropWhile_cons_of_neg (by simp [h c rfl])

theorem trimEnd_eq (cs : List Char) : trimEnd cs = (trimStart cs.reverse).reverse := rfl

theorem trimEnd_eq_self (h : ∀ c ∈ cs.getLast?, isBlank c = false) : trimEnd cs = cs := by
  rw [trimEnd_eq, trimStart_eq_self (by rwa [List.head?_reverse]), List.reverse_reverse]

theorem trimStart_append (h : ∀ c ∈ before, isBlank c = true) (cs : List Char) :
    trimStart (before ++ cs) = trimStart cs := List.dropWhile_append_of_pos h

theorem trimEnd_append (h : ∀ c ∈ behind, isBlank c = true) (cs : List Char) :
    trimEnd (cs ++ behind) = trimEnd cs := by
  rw [trimEnd_eq, List.reverse_append, trimStart_append fun c hc => h c (List.mem_reverse.1 hc),
    trimEnd_eq]

theorem not_isBlank_of_head?_trimStart (h : c ∈ (trimStart cs).head?) : isBlank c = false := by
  have hhead := List.head?_dropWhile_not isBlank cs
  rw [trimStart] at h
  rw [Option.mem_def.1 h] at hhead
  exact hhead

theorem exists_trimStart_eq (cs : List Char) :
    ∃ before, cs = before ++ trimStart cs ∧ ∀ c ∈ before, isBlank c = true :=
  ⟨cs.takeWhile isBlank, List.takeWhile_append_dropWhile.symm, fun _ => List.mem_takeWhile_imp⟩

theorem exists_trimEnd_eq (cs : List Char) :
    ∃ behind, cs = trimEnd cs ++ behind ∧ ∀ c ∈ behind, isBlank c = true := by
  obtain ⟨before, hcs, hbefore⟩ := exists_trimStart_eq cs.reverse
  refine ⟨before.reverse, ?_, fun c hc => hbefore c (List.mem_reverse.1 hc)⟩
  rw [trimEnd_eq, ← List.reverse_append, ← hcs, List.reverse_reverse]

theorem trimmed_trim (cs : List Char) : Trimmed cs (trim cs) := by
  obtain ⟨before, hbefore, hblank⟩ := exists_trimStart_eq cs
  obtain ⟨behind, hbehind, hblank'⟩ := exists_trimEnd_eq (trimStart cs)
  constructor
  case around =>
    refine ⟨before, behind, ?_, hblank, hblank'⟩
    rw [List.append_assoc, trim, ← hbehind, ← hbefore]
  case first =>
    -- what is taken from the end leaves the first character where it is
    intro c hc
    have hhead : c ∈ (trimStart cs).head? := by
      rw [hbehind]
      exact List.mem_head?_append_of_mem_head? hc
    exact not_isBlank_of_head?_trimStart hhead
  case last =>
    intro c hc
    rw [trim, trimEnd_eq, List.getLast?_reverse] at hc
    exact not_isBlank_of_head?_trimStart hc

theorem Trimmed.eq_trim (h : Trimmed cs core) : core = trim cs := by
  obtain ⟨before, behind, rfl, hbefore, hbehind⟩ := h.around
  rw [trim, List.append_assoc, trimStart_append hbefore]
  cases core with
  | nil =>
    have hnone : trimStart behind = [] := List.dropWhile_eq_nil_iff.2 hbehind
    rw [List.nil_append, hnone]
    rfl
  | cons c core =>
    rw [trimStart_eq_self (by simpa using h.first), trimEnd_append hbehind, trimEnd_eq_self h.last]

/-- There is one core, and trimming finds it. -/
theorem trimmed_iff : Trimmed cs core ↔ core = trim cs :=
  ⟨Trimmed.eq_trim, fun h => h ▸ trimmed_trim cs⟩

/-- What comes first stays first unless it is blank. -/
theorem exists_trim_cons (h : isBlank c = false) (cs : List Char) :
    ∃ core, trim (c :: cs) = c :: core := by
  obtain ⟨before, behind, hcs, hbefore, hbehind⟩ := (trimmed_trim (c :: cs)).around
  cases before with
  | cons d before =>
    obtain ⟨rfl, -⟩ := List.cons.inj hcs
    simp [hbefore c List.mem_cons_self] at h
  | nil =>
    cases hcore : trim (c :: cs) with
    | nil =>
      rw [hcore] at hcs
      have hmem : c ∈ [] ++ [] ++ behind := hcs ▸ List.mem_cons_self
      simp [hbehind c hmem] at h
    | cons d core =>
      rw [hcore] at hcs
      obtain ⟨rfl, -⟩ := List.cons.inj hcs
      exact ⟨core, rfl⟩

theorem trim_of_not_isBlank (h : ∀ c ∈ cs, isBlank c = false) : trim cs = cs := by
  refine (Trimmed.eq_trim ⟨⟨[], [], ?_, by simp, by simp⟩, fun c hc => ?_, fun c hc => ?_⟩).symm
  · rw [List.nil_append, List.append_nil]
  · exact h c (List.mem_of_mem_head? hc)
  · exact h c (List.mem_of_mem_getLast? hc)

/-- Trimming takes nothing from the characters of which none is blank. -/
theorem filter_trim {p : Char → Bool} (h : ∀ c ∈ cs.filter p, isBlank c = false) :
    (trim cs).filter p = cs.filter p := by
  have hnone : ∀ {blanks : List Char}, (∀ c ∈ blanks, isBlank c = true ∧ c ∈ cs) →
      blanks.filter p = [] := by
    intro blanks hblanks
    refine List.filter_eq_nil_iff.2 fun c hc hp => ?_
    obtain ⟨hblank, hmem⟩ := hblanks c hc
    rw [h c (List.mem_filter.2 ⟨hmem, hp⟩)] at hblank
    cases hblank
  obtain ⟨before, behind, hcs, hbefore, hbehind⟩ := (trimmed_trim cs).around
  have hfirst : before.filter p = [] := hnone fun c hc => ⟨hbefore c hc, by rw [hcs]; simp [hc]⟩
  have hlast : behind.filter p = [] := hnone fun c hc => ⟨hbehind c hc, by rw [hcs]; simp [hc]⟩
  calc (trim cs).filter p
      = before.filter p ++ (trim cs).filter p ++ behind.filter p := by
        rw [hfirst, hlast, List.nil_append, List.append_nil]
    _ = (before ++ trim cs ++ behind).filter p := by rw [List.filter_append, List.filter_append]
    _ = cs.filter p := by rw [← hcs]

end ProposalVetting.Text

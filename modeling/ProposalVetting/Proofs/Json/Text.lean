import ProposalVetting.Json.Reading
import Mathlib.Data.List.Forall2

namespace ProposalVetting.Json
open ProposalVetting.Text

namespace Text

/-- What a character is written as: itself, or by its number when it is a control. -/
inductive Shows (c : Char) : Piece → Prop where
  | char : Shows c (.char c)
  | control (h : c < ' ') : Shows c (.unit c.toNat)

variable {c : Char} {cs rest : List Char} {pieces : List Piece}

theorem quad_control (h : c < ' ') :
    Hex.quad '0' '0' (Hex.digit (c.toNat / 16)) (Hex.digit (c.toNat % 16)) = some c.toNat := by
  have hquad : ∀ n < 32, Hex.quad '0' '0' (Hex.digit (n / 16)) (Hex.digit (n % 16)) =
      some n := by decide
  exact hquad c.toNat h

/-- Each way of escaping a character is undone by one step of the reader. -/
theorem body_escape (c : Char) (cs : List Char) :
    ∃ p, Shows c p ∧ body (escape c ++ cs) = (body cs).after p := by
  unfold escape
  split_ifs with hquote hbackslash hnewline hreturn htab hbackspace hfeed hcontrol
  · subst hquote
    exact ⟨_, .char, rfl⟩
  · subst hbackslash
    exact ⟨_, .char, rfl⟩
  · subst hnewline
    exact ⟨_, .char, rfl⟩
  · subst hreturn
    exact ⟨_, .char, rfl⟩
  · subst htab
    exact ⟨_, .char, rfl⟩
  · subst hbackspace
    exact ⟨_, .char, rfl⟩
  · subst hfeed
    exact ⟨_, .char, rfl⟩
  · refine ⟨_, .control hcontrol, ?_⟩
    simp [body, quad_control hcontrol]
  · refine ⟨_, .char, ?_⟩
    rw [List.singleton_append, body.eq_def]
    simp only [hquote, hbackslash, hcontrol, if_false]

theorem body_escape_all (cs rest : List Char) :
    ∃ pieces, List.Forall₂ Shows cs pieces ∧
      body (cs.flatMap escape ++ '"' :: rest) = ⟨pieces, .ok rest⟩ := by
  induction cs with
  | nil =>
    refine ⟨[], .nil, ?_⟩
    rw [List.flatMap_nil, List.nil_append, body.eq_def]
    rfl
  | cons c cs ih =>
    obtain ⟨pieces, hpieces, hbody⟩ := ih
    obtain ⟨p, hp, hstep⟩ := body_escape c (cs.flatMap escape ++ '"' :: rest)
    refine ⟨p :: pieces, .cons hp hpieces, ?_⟩
    rw [List.flatMap_cons, List.append_assoc, hstep, hbody]
    rfl

/-- A control is no surrogate, so it never waits for a partner. -/
theorem join?_unit_cons (h : c < ' ') (pieces : List Piece) :
    join? false (.unit c.toNat :: pieces) = (join? false pieces).map (c :: ·) := by
  have hlt : c.toNat < 32 := h
  have hhigh : isHigh c.toNat = false := by simp [isHigh]; omega
  have hlow : isLow c.toNat = false := by simp [isLow]; omega
  cases pieces <;> simp [join?, hhigh, hlow]

theorem join?_of_shows (h : List.Forall₂ Shows cs pieces) : join? false pieces = some cs := by
  induction h with
  | nil => rfl
  | cons hc _ ih =>
    cases hc with
    | char => rw [join?, ih]; rfl
    | control hcontrol => rw [join?_unit_cons hcontrol, ih]; rfl

end Text

theorem Reading.ofText_write (s : String) (rest : List Char) :
    ofText (s.toList.flatMap Text.escape ++ '"' :: rest) = (.text (some s), rest) := by
  obtain ⟨pieces, hpieces, hbody⟩ := Text.body_escape_all s.toList rest
  simp only [ofText, hbody, Text.join?_of_shows hpieces, Option.map_some, String.ofList_toList]

end ProposalVetting.Json

import ProposalVetting.Snapshot
import ProposalVetting.Proofs.Json.Record

namespace ProposalVetting.Snapshot.Entry
open Json Failure

variable {r : Reading} {e : Entry}

/-- The code of an account as it is written. -/
inductive Code (r : Reading) : Except InputError (Option (List UInt8)) → Prop where
  | missing (h : layout.field? "code" r = none) : Code r (.ok (some []))
  | null (h : layout.field? "code" r = some .null) : Code r (.ok none)
  | text {s : String} (h : layout.field? "code" r = some (.text (some s))) :
    Code r ((Input.code s).map some)

/-- The nonce of an account as it is written. -/
inductive Nonce (r : Reading) : Except InputError UInt64 → Prop where
  | missing (h : layout.field? "nonce" r = none) : Nonce r (.ok 0)
  | number {n : UInt64} (h : layout.field? "nonce" r = some (.number (some (.integer n.toNat)))) :
    Nonce r (.ok n)
  | text {s : String} (h : layout.field? "nonce" r = some (.text (some s))) :
    Nonce r (Input.nonce s)

theorem codeField : layout.Field "code" Draft.code (Decode.optional Decode.text) where
  known := by decide
  own h := Layout.own_of_once h fun _ => rfl
  other {n d d' r} hn h := by
    change Draft.read n d r = .ok d' at h
    unfold Draft.read at h
    split at h
    · exact absurd rfl hn
    · obtain ⟨x, -, hd⟩ := bind_eq_ok_iff.1 h
      cases hd
      rfl
    · cases h
      rfl

theorem nonceField : layout.Field "nonce" Draft.nonce decodeNonce where
  known := by decide
  own h := Layout.own_of_once h fun _ => rfl
  other {n d d' r} hn h := by
    change Draft.read n d r = .ok d' at h
    unfold Draft.read at h
    split at h
    · obtain ⟨x, -, hd⟩ := bind_eq_ok_iff.1 h
      cases hd
      rfl
    · exact absurd rfl hn
    · cases h
      rfl

theorem code_of_optional_text {v : Reading} {code : Option String}
    (hfound : layout.field? "code" r = some v) (h : Decode.optional Decode.text v = .ok code) :
    Code r (code.mapM Input.code) := by
  cases v with
  | null =>
    cases h
    exact .null hfound
  | text s =>
    cases s with
    | none => cases h
    | some s =>
      cases h
      exact .text hfound
  | bool => cases h
  | number x => cases x <;> cases h
  | array => cases h
  | object => cases h
  | broken => cases h

theorem exists_array_of_value {levels : Nat} {is : Items} {value : Json}
    (h : (Reading.array is).value levels = .ok value) : ∃ values, value = .array values := by
  rw [Reading.value] at h
  split at h
  · cases h
  · obtain ⟨values, -, h⟩ := map_eq_ok_iff.1 h
    exact ⟨values, h.symm⟩

theorem exists_object_of_value {levels : Nat} {ms : Members} {value : Json}
    (h : (Reading.object ms).value levels = .ok value) : ∃ members, value = .object members := by
  rw [Reading.value] at h
  split at h
  · cases h
  · obtain ⟨members, -, h⟩ := map_eq_ok_iff.1 h
    exact ⟨members, h.symm⟩

theorem eq_number_of_value {levels : Nat} {x : Number} (h : r.value levels = .ok (.number x)) :
    r = .number (some x) := by
  cases r with
  | number y =>
    cases y <;> cases h
    rfl
  | array is => exact nomatch exists_array_of_value h
  | object ms => exact nomatch exists_object_of_value h
  | text s => cases s <;> cases h
  | null => cases h
  | bool => cases h
  | broken => cases h

theorem eq_text_of_value {levels : Nat} {s : String} (h : r.value levels = .ok (.text s)) :
    r = .text (some s) := by
  cases r with
  | text t =>
    cases t <;> cases h
    rfl
  | array is => exact nomatch exists_array_of_value h
  | object ms => exact nomatch exists_object_of_value h
  | number x => cases x <;> cases h
  | null => cases h
  | bool => cases h
  | broken => cases h

/-- A number is exact because the numbers of a document fit into 64 bits. -/
theorem nonce_of_decodeNonce {v : Reading} {nonce : UInt64 ⊕ String}
    (hfound : layout.field? "nonce" r = some v) (h : decodeNonce v = .ok nonce)
    (hbounded : r.Bounded) : Nonce r (nonce.elim pure Input.nonce) := by
  obtain ⟨value, hvalue, h⟩ := bind_eq_ok_iff.1 h
  split at h
  · next n =>
    split at h
    · next hn =>
      cases h
      rw [eq_number_of_value hvalue] at hfound
      have hlt : n < UInt64.size := Layout.bounded_of_field? hbounded hfound
      have hexact : n = (UInt64.ofNat n.toNat).toNat := by
        rw [UInt64.toNat_ofNat_of_lt' (by omega)]
        omega
      rw [hexact] at hfound
      exact .number hfound
    · cases h
  · next s =>
    cases h
    rw [eq_text_of_value hvalue] at hfound
    exact .text hfound
  · cases h

/-- The facts of an account that can be decoded are its code and its nonce, and the first that
cannot be read decides. -/
theorem exists_facts_eq (h : decode r = .ok e) (hbounded : r.Bounded) :
    ∃ code nonce, Code r code ∧ Nonce r nonce ∧
      e.facts = code >>= fun c => nonce.map (Facts.mk c) := by
  obtain ⟨d, hd, hfinish⟩ := Layout.exists_drafts h
  cases hfinish
  refine ⟨(d.code.getD (some "0x")).mapM Input.code, (d.nonce.getD (.inl 0)).elim pure Input.nonce,
    ?_, ?_, ?_⟩
  · rcases (codeField.filled hd).of_none with ⟨hfound, hempty⟩ | ⟨v, code, hfound, hread, hfilled⟩
    · rw [hempty]
      exact .missing hfound
    · rw [hfilled]
      exact code_of_optional_text hfound hread
  · rcases (nonceField.filled hd).of_none with ⟨hfound, hempty⟩ | ⟨v, nonce, hfound, hread, hfilled⟩
    · rw [hempty]
      exact .missing hfound
    · rw [hfilled]
      exact nonce_of_decodeNonce hfound hread hbounded
  · rw [facts]
    cases d.nonce.getD (.inl 0) <;> rfl

theorem Code.unique {x y : Except InputError (Option (List UInt8))} (hx : Code r x)
    (hy : Code r y) : x = y := by
  cases hx with
  | missing hx =>
    cases hy with
    | missing => rfl
    | null hy => simp [hx] at hy
    | text hy => simp [hx] at hy
  | null hx =>
    cases hy with
    | missing hy => simp [hx] at hy
    | null => rfl
    | text hy => simp [hx] at hy
  | text hx =>
    cases hy with
    | missing hy => simp [hx] at hy
    | null hy => simp [hx] at hy
    | text hy =>
      cases hx.symm.trans hy
      rfl

theorem Nonce.unique {x y : Except InputError UInt64} (hx : Nonce r x) (hy : Nonce r y) :
    x = y := by
  cases hx with
  | missing hx =>
    cases hy with
    | missing => rfl
    | number hy => simp [hx] at hy
    | text hy => simp [hx] at hy
  | @number m hx =>
    cases hy with
    | missing hy => simp [hx] at hy
    | @number n hy =>
      have hmn : (m.toNat : Int) = n.toNat := by simpa [hx] using hy
      rw [UInt64.toNat_inj.1 (Int.ofNat.inj hmn)]
    | text hy => simp [hx] at hy
  | text hx =>
    cases hy with
    | missing hy => simp [hx] at hy
    | number hy => simp [hx] at hy
    | text hy =>
      cases hx.symm.trans hy
      rfl

theorem Code.exists_text {cause : InputError} (h : Code r (.error cause)) :
    ∃ s, layout.field? "code" r = some (.text (some s)) ∧ Input.code s = .error cause := by
  generalize hx : Except.error cause = x at h
  cases h with
  | missing => cases hx
  | null => cases hx
  | @text s h => exact ⟨s, h, map_eq_error_iff.1 hx.symm⟩

theorem Nonce.exists_text {cause : InputError} (h : Nonce r (.error cause)) :
    ∃ s, layout.field? "nonce" r = some (.text (some s)) ∧ Input.nonce s = .error cause := by
  generalize hx : Except.error cause = x at h
  cases h with
  | missing => cases hx
  | number => cases hx
  | @text s h => exact ⟨s, h, rfl⟩

end ProposalVetting.Snapshot.Entry

import ProposalVetting.Proofs.Json.Document
import Mathlib.Data.Option.Defs

namespace ProposalVetting.Json
open Failure

mutual

/-- The same tree, with texts in the same places that are related by `T`. -/
inductive Reading.Alike (T : String → String → Prop) : Reading → Reading → Prop where
  | null : Reading.Alike T .null .null
  | bool (b : Bool) : Reading.Alike T (.bool b) (.bool b)
  | number (n : Option Number) : Reading.Alike T (.number n) (.number n)
  | text {s t : String} (h : T s t) : Reading.Alike T (.text (some s)) (.text (some t))
  | unreadable : Reading.Alike T (.text none) (.text none)
  | array {is js : Items} (h : is.Alike T js) : Reading.Alike T (.array is) (.array js)
  | object {ms ns : Members} (h : ms.Alike T ns) : Reading.Alike T (.object ms) (.object ns)
  | broken (start : Start) (wanted skipped : Fault) :
    Reading.Alike T (.broken start wanted skipped) (.broken start wanted skipped)

inductive Items.Alike (T : String → String → Prop) : Items → Items → Prop where
  | closed : Items.Alike T .closed .closed
  | cut (f : Fault) : Items.Alike T (.cut f) (.cut f)
  | item {first first' : Reading} {rest rest' : Items} (hfirst : first.Alike T first')
    (hrest : rest.Alike T rest') :
    Items.Alike T (.item first rest) (.item first' rest')

inductive Members.Alike (T : String → String → Prop) : Members → Members → Prop where
  | closed : Members.Alike T .closed .closed
  | stray (afterComma : Bool) (found : Reading) :
    Members.Alike T (.stray afterComma found) (.stray afterComma found)
  | member (name : Option String) {value value' : Reading} {rest rest' : Members}
    (hvalue : value.Alike T value') (hrest : rest.Alike T rest') :
    Members.Alike T (.member name value rest) (.member name value' rest')

end

variable {T : String → String → Prop}

mutual

theorem Reading.Alike.skip_eq : ∀ {r r' : Reading}, r.Alike T r' → r'.skip = r.skip
  | _, _, .null => rfl
  | _, _, .bool _ => rfl
  | _, _, .number _ => rfl
  | _, _, .text _ => rfl
  | _, _, .unreadable => rfl
  | _, _, .array h => by rw [Reading.skip, Reading.skip, h.skip_eq]
  | _, _, .object h => by rw [Reading.skip, Reading.skip, h.skip_eq]
  | _, _, .broken _ _ _ => rfl

theorem Items.Alike.skip_eq : ∀ {is js : Items}, is.Alike T js → js.skip = is.skip
  | _, _, .closed => rfl
  | _, _, .cut _ => rfl
  | _, _, .item hfirst hrest => by rw [Items.skip, Items.skip, hfirst.skip_eq, hrest.skip_eq]

theorem Members.Alike.skip_eq : ∀ {ms ns : Members}, ms.Alike T ns → ns.skip = ms.skip
  | _, _, .closed => rfl
  | _, _, .stray _ _ => rfl
  | _, _, .member _ hvalue hrest => by
    rw [Members.skip, Members.skip, hvalue.skip_eq, hrest.skip_eq]

end

/-- What is decoded of like values is related by `R`. -/
def Respects {α : Type} (T : String → String → Prop) (R : α → α → Prop)
    (decode : Reading → Result α) : Prop :=
  ∀ ⦃r r'⦄, r.Alike T r' → Follows R (decode r) (decode r')

variable {α σ : Type} {R : α → α → Prop} {S : σ → σ → Prop} {decode : Reading → Result α}

namespace Decode

theorem mismatch_ne_ok {r : Reading} {wanted : String} {a : α} : r.mismatch wanted ≠ .ok a := by
  unfold Reading.mismatch
  cases r.found <;> exact nofun

theorem text_eq_ok {r : Reading} {s : String} (h : text r = .ok s) : r = .text (some s) := by
  unfold text at h
  split at h
  · cases h
    rfl
  · exact absurd h mismatch_ne_ok

theorem list_eq_ok {r : Reading} {as : List α} (h : list decode r = .ok as) :
    ∃ is, r = .array is ∧ items decode is = .ok as := by
  unfold list at h
  split at h
  · exact ⟨_, rfl, h⟩
  · exact absurd h mismatch_ne_ok

theorem respects_text : Respects T T text := by
  intro r r' hr s hs
  obtain rfl := text_eq_ok hs
  cases hr with
  | text ht => exact ⟨_, rfl, ht⟩

theorem respects_optional (h : Respects T R decode) :
    Respects T (Option.Rel R) (optional decode) := by
  intro r r' hr
  cases hr with
  | null => exact .ok .none
  | bool b => exact (h (.bool b)).map fun _ _ => .some
  | number n => exact (h (.number n)).map fun _ _ => .some
  | text ht => exact (h (.text ht)).map fun _ _ => .some
  | unreadable => exact (h .unreadable).map fun _ _ => .some
  | array his => exact (h (.array his)).map fun _ _ => .some
  | object hms => exact (h (.object hms)).map fun _ _ => .some
  | broken s f g => exact (h (.broken s f g)).map fun _ _ => .some

theorem follows_items (h : Respects T R decode) : ∀ {is js : Items}, is.Alike T js →
    Follows (List.Forall₂ R) (items decode is) (items decode js)
  | _, _, .closed => .ok .nil
  | _, _, .cut _ => .error
  | _, _, .item hfirst hrest =>
    (h hfirst).bind fun _ _ ha => (follows_items h hrest).bind fun _ _ has => .ok (.cons ha has)

theorem respects_list (h : Respects T R decode) : Respects T (List.Forall₂ R) (list decode) := by
  intro r r' hr as has
  obtain ⟨is, rfl, his⟩ := list_eq_ok has
  cases hr with
  | array halike => exact follows_items h halike as his

/-- A field that is read is read once in both records. -/
theorem respects_once {current current' : Option α} (hcurrent : Option.Rel R current current')
    (h : Respects T R decode) {name : String} {r r' : Reading} (hr : r.Alike T r') :
    Follows (Option.Rel R) (once name current decode r) (once name current' decode r') := by
  cases hcurrent with
  | some _ => exact .error
  | none => exact (h hr).map fun _ _ => .some

theorem follows_required {name : String} {x y : Option α} (h : Option.Rel R x y) :
    Follows R (required name x) (required name y) := by
  cases h with
  | some h => exact .ok h
  | none => exact .error

end Decode

namespace Layout

variable {l : Layout σ}
  (hread : ∀ {name d d'}, S d d' → ∀ {r r'}, r.Alike T r' →
    Follows S (l.read name d r) (l.read name d' r'))
include hread

/-- One named member is read, or skipped over, alike in both records. -/
theorem follows_member {name : String} {r r' : Reading} {ms ns : Members} {d d' : σ}
    (hvalue : r.Alike T r') (hd : S d d')
    (hrest : ∀ {d d'}, S d d' → Follows S (l.fromMembers d ms) (l.fromMembers d' ns)) :
    Follows S (l.fromMembers d (.member (some name) r ms))
      (l.fromMembers d' (.member (some name) r' ns)) := by
  rw [fromMembers, fromMembers, skipped, skipped, hvalue.skip_eq]
  split
  · exact (hread hd hvalue).bind fun _ _ hd => hrest hd
  · split
    · exact .error
    · intro a ha
      obtain ⟨u, hu, ha⟩ := bind_eq_ok_iff.1 ha
      rw [hu]
      exact hrest hd a ha

theorem follows_fromMembers : ∀ {ms ns : Members} {d d' : σ}, ms.Alike T ns → S d d' →
    Follows S (l.fromMembers d ms) (l.fromMembers d' ns)
  | _, _, _, _, .closed, hd => .ok hd
  | _, _, _, _, .stray _ _, _ => .error
  | _, _, _, _, .member none _ _, _ => .error
  | _, _, _, _, .member (some _) hvalue hrest, hd =>
    follows_member hread hvalue hd (follows_fromMembers hrest)

/-- As many items are left over in both lists. -/
theorem follows_fromItems (fields : List String) (i : Nat) {is js : Items} {d d' : σ}
    (his : is.Alike T js) (hd : S d d') :
    Follows (fun x y => S x.1 y.1 ∧ x.2.Alike T y.2) (l.fromItems i d fields is)
      (l.fromItems i d' fields js) := by
  induction fields generalizing i is js d d' with
  | nil => exact .ok ⟨hd, his⟩
  | cons name fields ih =>
    cases his with
    | closed =>
      rw [fromItems, fromItems]
      split
      · exact .error
      · exact ih _ .closed hd
    | cut f => exact .error
    | item hfirst hrest => exact (hread hd hfirst).bind fun _ _ hd => ih _ hrest hd

theorem respects_decode {start : σ} {finish : σ → Result α} (hstart : S start start)
    (hfinish : ∀ {d d'}, S d d' → Follows R (finish d) (finish d')) :
    Respects T R (l.decode start finish) := by
  intro r r' hr a ha
  -- only objects and lists are decoded at all
  obtain ⟨_, hdrafts, -⟩ := exists_drafts ha
  cases hdrafts with
  | object _ =>
    cases hr with
    | object hms =>
      exact ((follows_fromMembers hread hms hstart).bind fun _ _ hd => hfinish hd) a ha
  | array _ =>
    cases hr with
    | array his =>
      have hitems := follows_fromItems hread l.fields 0 his hstart
      refine (hitems.bind fun (d, is) (d', js) ⟨hd, hleft⟩ => ?_) a ha
      refine (hfinish hd).bind fun a b hab => ?_
      cases hleft with
      | closed => exact .ok hab
      | cut => exact .error
      | item => exact .error

end Layout

/-- Both documents are one value, and the values are alike. -/
def Resembles (T : String → String → Prop) (document other : String) : Prop :=
  ∃ r r' rest rest', read document.toList = (r, rest) ∧ read other.toList = (r', rest') ∧
    r.Alike T r' ∧ Reading.skipSpace rest' = Reading.skipSpace rest

theorem Resembles.of_read {cs ds : List Char} (r r' : Reading) (h : read cs = (r, []))
    (h' : read ds = (r', [])) (halike : r.Alike T r') :
    Resembles T (String.ofList cs) (String.ofList ds) :=
  ⟨r, r', [], [], read_ofList h, read_ofList h', halike, rfl⟩

theorem follows_parse (hdecode : Respects T R decode) {document other : String}
    (h : Resembles T document other) :
    Follows R (parse decode document) (parse decode other) := by
  obtain ⟨r, r', rest, rest', hr, hr', halike, hrest⟩ := h
  rw [parse, parse, hr, hr']
  dsimp only
  refine (hdecode halike).bind fun a b hab => ?_
  rw [hrest]
  split
  · exact .ok hab
  · exact .error

end ProposalVetting.Json

import Mathlib.Data.List.Basic
import Mathlib.Data.List.Forall2

namespace ProposalVetting.Failure

variable {ε α β γ : Type}

theorem ok_bind (a : α) (f : α → Except ε β) : Except.ok a >>= f = f a := rfl

theorem pure_eq_ok (a : α) : (pure a : Except ε α) = .ok a := rfl

theorem bind_eq_ok_iff {x : Except ε α} {f : α → Except ε β} {b : β} :
    x >>= f = .ok b ↔ ∃ a, x = .ok a ∧ f a = .ok b := by
  cases x <;> simp [bind, Except.bind]

theorem bind_eq_error_iff {x : Except ε α} {f : α → Except ε β} {e : ε} :
    x >>= f = .error e ↔ x = .error e ∨ ∃ a, x = .ok a ∧ f a = .error e := by
  cases x <;> simp [bind, Except.bind]

theorem mapError_eq_ok_iff {x : Except ε α} {f : ε → γ} {a : α} :
    x.mapError f = .ok a ↔ x = .ok a := by
  cases x <;> simp [Except.mapError]

theorem mapError_eq_error_iff {x : Except ε α} {f : ε → γ} {e : γ} :
    x.mapError f = .error e ↔ ∃ cause, x = .error cause ∧ f cause = e := by
  cases x <;> simp [Except.mapError]

theorem map_eq_ok_iff {x : Except ε α} {f : α → β} {b : β} :
    x.map f = .ok b ↔ ∃ a, x = .ok a ∧ f a = b := by
  cases x <;> simp [Except.map]

theorem map_eq_error_iff {x : Except ε α} {f : α → β} {e : ε} :
    x.map f = .error e ↔ x = .error e := by
  cases x <;> simp [Except.map]

theorem not_ok_iff {x : Except ε α} : (¬ ∃ a, x = .ok a) ↔ ∃ e, x = .error e := by
  cases x <;> simp

variable {f : α → Except ε β} {xs : List α} {ys : List β} {e : ε}

theorem mapM_eq_ok_iff : xs.mapM f = .ok ys ↔ List.Forall₂ (fun x y => f x = .ok y) xs ys := by
  induction xs generalizing ys with
  | nil =>
    rw [List.mapM_nil, List.forall₂_nil_left_iff]
    exact ⟨fun h => (Except.ok.inj h).symm, fun h => h ▸ rfl⟩
  | cons x rest ih =>
    simp only [List.mapM_cons, bind_eq_ok_iff, List.forall₂_cons_left_iff, ih]
    constructor
    · rintro ⟨y, hy, zs, hzs, h⟩
      exact ⟨y, zs, hy, hzs, (Except.ok.inj h).symm⟩
    · rintro ⟨y, zs, hy, hzs, rfl⟩
      exact ⟨y, hy, zs, hzs, rfl⟩

theorem exists_mapM_eq_ok_iff : (∃ ys, xs.mapM f = .ok ys) ↔ ∀ x ∈ xs, ∃ y, f x = .ok y := by
  induction xs with
  | nil => exact ⟨fun _ _ h => by simp at h, fun _ => ⟨[], rfl⟩⟩
  | cons x rest ih =>
    rw [List.forall_mem_cons, ← ih]
    simp only [List.mapM_cons, bind_eq_ok_iff]
    constructor
    · rintro ⟨_, y, hy, ys, hys, -⟩
      exact ⟨⟨y, hy⟩, ys, hys⟩
    · rintro ⟨⟨y, hy⟩, ys, hys⟩
      exact ⟨y :: ys, y, hy, ys, hys, rfl⟩

theorem mem_iff_of_mapM_eq_ok (h : xs.mapM f = .ok ys) {y : β} :
    y ∈ ys ↔ ∃ x ∈ xs, f x = .ok y := by
  rw [mapM_eq_ok_iff] at h
  induction h with
  | nil => simp
  | cons hx _ ih => rw [List.mem_cons, ih, List.exists_mem_cons_iff, hx, Except.ok.injEq, eq_comm]

/-- A list is read up to the first element that fails. -/
theorem mapM_eq_error_iff :
    xs.mapM f = .error e ↔
      ∃ before x behind, xs = before ++ x :: behind ∧ (∀ y ∈ before, ∃ b, f y = .ok b) ∧
        f x = .error e := by
  induction xs with
  | nil =>
    constructor
    · intro h
      cases h
    · rintro ⟨before, x, behind, h, -⟩
      simp at h
  | cons y rest ih =>
    simp only [List.mapM_cons, bind_eq_error_iff]
    constructor
    · rintro (h | ⟨b, hb, h | ⟨bs, -, h⟩⟩)
      · exact ⟨[], y, rest, rfl, by simp, h⟩
      · obtain ⟨before, x, behind, rfl, hbefore, hx⟩ := ih.1 h
        exact ⟨y :: before, x, behind, rfl, List.forall_mem_cons.2 ⟨⟨b, hb⟩, hbefore⟩, hx⟩
      · cases h
    · rintro ⟨before, x, behind, h, hbefore, hx⟩
      cases before with
      | nil =>
        obtain ⟨rfl, rfl⟩ := List.cons.inj h
        exact .inl hx
      | cons z before =>
        obtain ⟨rfl, rfl⟩ := List.cons.inj h
        obtain ⟨⟨b, hb⟩, hbefore⟩ := List.forall_mem_cons.1 hbefore
        exact .inr ⟨b, hb, .inl (ih.2 ⟨before, x, behind, rfl, hbefore, hx⟩)⟩

/-- Where `x` succeeds `y` does, and the results are related. -/
def Follows (R : α → β → Prop) (x : Except ε α) (y : Except ε β) : Prop :=
  ∀ a, x = .ok a → ∃ b, y = .ok b ∧ R a b

namespace Follows

variable {δ : Type} {R : α → β → Prop} {S : γ → δ → Prop} {x : Except ε α} {y : Except ε β}

theorem ok {a : α} {b : β} (h : R a b) : Follows (ε := ε) R (.ok a) (.ok b) := by
  rintro _ ⟨⟩
  exact ⟨b, rfl, h⟩

theorem error {e : ε} : Follows R (.error e) y := nofun

theorem bind {f : α → Except ε γ} {g : β → Except ε δ} (hx : Follows R x y)
    (hf : ∀ a b, R a b → Follows S (f a) (g b)) : Follows S (x >>= f) (y >>= g) := by
  intro c hc
  obtain ⟨a, ha, hc⟩ := bind_eq_ok_iff.1 hc
  obtain ⟨b, rfl, hab⟩ := hx a ha
  exact hf a b hab c hc

theorem map {f : α → γ} {g : β → δ} (hx : Follows R x y) (hf : ∀ a b, R a b → S (f a) (g b)) :
    Follows S (f <$> x) (g <$> y) := by
  rw [map_eq_pure_bind, map_eq_pure_bind]
  exact hx.bind fun a b hab => .ok (hf a b hab)

end Follows

/-- Both fail alike, or both succeed and the results are related. -/
inductive Alike (R : α → β → Prop) : Except ε α → Except ε β → Prop where
  | error (e : ε) : Alike R (.error e) (.error e)
  | ok {a : α} {b : β} (h : R a b) : Alike R (.ok a) (.ok b)

namespace Alike

variable {δ : Type} {R : α → β → Prop} {S : γ → δ → Prop} {x : Except ε α} {y : Except ε β}

theorem error_or_ok (hx : Alike R x y) :
    (∃ e, x = .error e ∧ y = .error e) ∨ ∃ a b, x = .ok a ∧ y = .ok b ∧ R a b := by
  cases hx with
  | error e => exact .inl ⟨e, rfl, rfl⟩
  | ok h => exact .inr ⟨_, _, rfl, rfl, h⟩

theorem bind {f : α → Except ε γ} {g : β → Except ε δ} (hx : Alike R x y)
    (hf : ∀ a b, R a b → Alike S (f a) (g b)) :
    Alike S (x >>= f) (y >>= g) := by
  cases hx with
  | error e => exact .error e
  | ok h => exact hf _ _ h

theorem imp {T : α → β → Prop} (hx : Alike R x y) (h : ∀ {a b}, R a b → T a b) : Alike T x y := by
  cases hx with
  | error e => exact .error e
  | ok hab => exact .ok (h hab)

/-- What fails before the two part fails in both. -/
theorem bind_same {f : α → Except ε γ} {g : α → Except ε δ}
    (hf : ∀ a, x = .ok a → Alike S (f a) (g a)) :
    Alike S (x >>= f) (x >>= g) := by
  cases x with
  | error e => exact .error e
  | ok a => exact hf a rfl

/-- What each step keeps, a row of them keeps. -/
theorem foldlM {f : α → γ → Except ε α} {g : β → γ → Except ε β}
    (hstep : ∀ a b c, R a b → Alike R (f a c) (g b c))
    (cs : List γ) {a : α} {b : β} (h : R a b) : Alike R (cs.foldlM f a) (cs.foldlM g b) := by
  induction cs generalizing a b with
  | nil => exact .ok h
  | cons c rest ih =>
    rw [List.foldlM_cons, List.foldlM_cons]
    exact (hstep a b c h).bind fun a b h => ih h

end Alike

variable {g : γ → α → Except ε γ} {s : γ}

/-- A fold stops at the first element that fails in the state that those before it lead to. -/
theorem foldlM_eq_error_iff :
    xs.foldlM g s = .error e ↔
      ∃ before x behind t, xs = before ++ x :: behind ∧ before.foldlM g s = .ok t ∧
        g t x = .error e := by
  induction xs generalizing s with
  | nil =>
    constructor
    · intro h
      cases h
    · rintro ⟨before, x, behind, t, h, -⟩
      simp at h
  | cons y rest ih =>
    simp only [List.foldlM_cons, bind_eq_error_iff]
    constructor
    · rintro (h | ⟨t, ht, h⟩)
      · exact ⟨[], y, rest, s, rfl, rfl, h⟩
      · obtain ⟨before, x, behind, u, rfl, hbefore, hx⟩ := ih.1 h
        exact ⟨y :: before, x, behind, u, rfl, by rw [List.foldlM_cons, ht]; exact hbefore, hx⟩
    · rintro ⟨before, x, behind, t, h, hbefore, hx⟩
      cases before with
      | nil =>
        obtain ⟨rfl, rfl⟩ := List.cons.inj h
        cases hbefore
        exact .inl hx
      | cons z before =>
        obtain ⟨rfl, rfl⟩ := List.cons.inj h
        rw [List.foldlM_cons, bind_eq_ok_iff] at hbefore
        obtain ⟨u, hu, hbefore⟩ := hbefore
        exact .inr ⟨u, hu, ih.2 ⟨before, x, behind, t, rfl, hbefore, hx⟩⟩

end ProposalVetting.Failure

import Mathlib.Logic.Basic

/-!
# Outcomes that match

Two computations of one shape, run against stores of which the second holds more: the second gives what
the first gave, up to a relation between their values, unless the first failed for the reason the stores
differ by (`Matches`). The rules follow the computation, one for each way it is composed.
-/

namespace AhlMirror.Core

universe u v

variable {ε : Type v} {α β γ δ : Type u}

/-- A value of `x` is matched by one of `y`, an error by the same one, unless it is excused. -/
def Matches (excused : ε → Prop) (R : α → β → Prop) (x : Except ε α) (y : Except ε β) : Prop :=
  match x with
  | .ok a => ∃ b, y = .ok b ∧ R a b
  | .error e => excused e ∨ y = .error e

namespace Matches
variable {excused : ε → Prop}

theorem refl (x : Except ε α) : Matches excused Eq x x := by
  cases x with
  | ok a => exact ⟨a, rfl, rfl⟩
  | error e => exact Or.inr rfl

theorem of_eq {x y : Except ε α} (h : x = y) : Matches excused Eq x y := h ▸ refl x

theorem ok {R : α → β → Prop} {a : α} {b : β} (h : R a b) : Matches excused R (.ok a) (.ok b) := ⟨b, rfl, h⟩

theorem error {R : α → β → Prop} (e : ε) : Matches excused R (.error e : Except ε α) (.error e : Except ε β) :=
  Or.inr rfl

theorem excuse {R : α → β → Prop} {e : ε} {y : Except ε β} (h : excused e) : Matches excused R (.error e) y :=
  Or.inl h

theorem bind {R : α → β → Prop} {S : γ → δ → Prop} {x : Except ε α} {y : Except ε β} {f : α → Except ε γ}
    {g : β → Except ε δ} (h : Matches excused R x y) (hnext : ∀ a b, R a b → Matches excused S (f a) (g b)) :
    Matches excused S (x >>= f) (y >>= g) := by
  cases x with
  | ok a =>
    obtain ⟨b, rfl, hab⟩ := h
    exact hnext a b hab
  | error e =>
    rcases h with hexcused | rfl
    · exact excuse hexcused
    · exact error e

theorem bind_eq {R : γ → δ → Prop} {x y : Except ε α} {f : α → Except ε γ} {g : α → Except ε δ}
    (h : Matches excused Eq x y) (hnext : ∀ a, Matches excused R (f a) (g a)) : Matches excused R (x >>= f) (y >>= g) :=
  h.bind fun a _ hab => hab ▸ hnext a

theorem foldlM_related {R : β → γ → Prop} {f : β → α → Except ε β} {g : γ → α → Except ε γ}
    (h : ∀ s t a, R s t → Matches excused R (f s a) (g t a)) (l : List α) {s : β} {t : γ} (hst : R s t) :
    Matches excused R (l.foldlM f s) (l.foldlM g t) := by
  induction l generalizing s t with
  | nil => exact ok hst
  | cons a l ih =>
    rw [List.foldlM_cons, List.foldlM_cons]
    exact (h s t a hst).bind fun _ _ hnext => ih hnext

theorem foldlM {f g : β → α → Except ε β} (h : ∀ s a, Matches excused Eq (f s a) (g s a)) (l : List α) (s : β) :
    Matches excused Eq (l.foldlM f s) (l.foldlM g s) :=
  foldlM_related (fun s _ a hst => hst ▸ h s a) l rfl

theorem mono {excused' : ε → Prop} {R S : α → β → Prop} {x : Except ε α} {y : Except ε β} (h : Matches excused R x y)
    (hexcused : ∀ e, excused e → excused' e) (hRS : ∀ a b, R a b → S a b) : Matches excused' S x y := by
  cases x with
  | ok a =>
    obtain ⟨b, rfl, hab⟩ := h
    exact ⟨b, rfl, hRS a b hab⟩
  | error e => exact h.imp_left (hexcused e)

theorem eq {x y : Except ε α} (h : Matches excused Eq x y) (hnone : ∀ e, x = .error e → ¬ excused e) : y = x := by
  cases x with
  | ok a =>
    obtain ⟨b, rfl, rfl⟩ := h
    rfl
  | error e => exact h.resolve_left (hnone e rfl)

theorem eq_of_strict {x y : Except ε α} (h : Matches (fun _ => False) Eq x y) : y = x := h.eq fun _ _ h => h

end Matches

end AhlMirror.Core

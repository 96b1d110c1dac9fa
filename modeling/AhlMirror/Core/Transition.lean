import Mathlib.Data.List.Induction

/-!
# Machines and their runs

A `Machine` answers one call at a time and moves to the state after it. An invariant of every run is
shown on one call (`exec_invariant`); a relation between an earlier and a later state, on one call as
well (`exec_relates`); and that two states cannot be told apart, by a `Bisimulation`. `Along` is a
condition on each call of a run, in the state it meets. `Inserts` says that one run is another with
calls put in.
-/

namespace AhlMirror.Core

structure Machine (S A R : Type*) where
  step : S → A → S × R

namespace Machine

variable {S A R : Type*} (m : Machine S A R)

/-- The state after one call. -/
def next (s : S) (a : A) : S := (m.step s a).1

/-- The state after a run. -/
def exec (s : S) : List A → S
  | [] => s
  | a :: rest => exec (m.next s a) rest

/-- A condition on each call of a run, in the state it meets. -/
def Along (P : S → A → Prop) : S → List A → Prop
  | _, [] => True
  | s, a :: rest => P s a ∧ Along P (m.next s a) rest

instance decidableAlong (P : S → A → Prop) [∀ s a, Decidable (P s a)] :
    ∀ (s : S) (calls : List A), Decidable (m.Along P s calls)
  | _, [] => isTrue trivial
  | s, a :: rest =>
    have := decidableAlong P (m.next s a) rest
    inferInstanceAs (Decidable (P s a ∧ m.Along P (m.next s a) rest))

/-- The answers of a run. -/
def answers : S → List A → List R
  | _, [] => []
  | s, a :: rest => (m.step s a).2 :: answers (m.next s a) rest

/-- Related states answer a call alike and stay related. -/
structure Bisimulation (E : S → S → Prop) : Prop where
  answer : ∀ {s t} a, E s t → (m.step t a).2 = (m.step s a).2
  next : ∀ {s t} a, E s t → E (m.next s a) (m.next t a)

def Reachable (init s : S) : Prop := ∃ calls, m.exec init calls = s

@[simp] theorem exec_nil (s : S) : m.exec s [] = s := rfl

@[simp] theorem exec_cons (s : S) (a : A) (rest : List A) : m.exec s (a :: rest) = m.exec (m.next s a) rest := rfl

theorem exec_append (s : S) (p q : List A) : m.exec s (p ++ q) = m.exec (m.exec s p) q := by
  induction p generalizing s with
  | nil => rfl
  | cons a p ih => exact ih (m.next s a)

theorem along_true {P : S → A → Prop} (h : ∀ s a, P s a) (s : S) (calls : List A) : m.Along P s calls := by
  induction calls generalizing s with
  | nil => trivial
  | cons a calls ih => exact ⟨h s a, ih _⟩

theorem along_append {P : S → A → Prop} {s : S} {p q : List A} :
    m.Along P s (p ++ q) ↔ m.Along P s p ∧ m.Along P (m.exec s p) q := by
  induction p generalizing s with
  | nil =>
    show m.Along P s q ↔ True ∧ m.Along P s q
    rw [true_and]
  | cons a p ih =>
    show P s a ∧ m.Along P (m.next s a) (p ++ q) ↔ (P s a ∧ m.Along P (m.next s a) p) ∧ m.Along P (m.exec (m.next s a) p) q
    rw [ih, and_assoc]

theorem exec_invariant_along {I : S → Prop} {P : S → A → Prop} (hstep : ∀ s a, I s → P s a → I (m.next s a)) :
    ∀ {s : S} {calls : List A}, I s → m.Along P s calls → I (m.exec s calls) := by
  intro s calls hs hP
  induction calls generalizing s with
  | nil => exact hs
  | cons a calls ih => exact ih (hstep s a hs hP.1) hP.2

theorem exec_invariant {I : S → Prop} (hstep : ∀ s a, I s → I (m.next s a)) {s : S} (hs : I s)
    (calls : List A) : I (m.exec s calls) :=
  m.exec_invariant_along (P := fun _ _ => True) (fun s a h _ => hstep s a h) hs
    (m.along_true (fun _ _ => trivial) s calls)

theorem Reachable.invariant {I : S → Prop} {init s : S} (h : m.Reachable init s) (hinit : I init)
    (hstep : ∀ s a, I s → I (m.next s a)) : I s := by
  obtain ⟨calls, rfl⟩ := h
  exact m.exec_invariant hstep hinit calls

theorem Reachable.exec {init s : S} (h : m.Reachable init s) (calls : List A) :
    m.Reachable init (m.exec s calls) := by
  obtain ⟨before, rfl⟩ := h
  exact ⟨before ++ calls, m.exec_append init before calls⟩

/-- A relation every call extends relates each state of a run to every later one. -/
theorem exec_relates {I : S → Prop} {E : S → S → Prop} (hinv : ∀ s a, I s → I (m.next s a))
    (hrefl : ∀ s, E s s) (htrans : ∀ s t u, E s t → E t u → E s u) (hstep : ∀ s a, I s → E s (m.next s a)) :
    ∀ {s : S} (calls : List A), I s → E s (m.exec s calls) := by
  intro s calls hs
  induction calls generalizing s with
  | nil => exact hrefl s
  | cons a calls ih => exact htrans _ _ _ (hstep s a hs) (ih (hinv s a hs))

variable {m} in
theorem Bisimulation.run {E : S → S → Prop} (h : m.Bisimulation E) (calls : List A) {s t : S} (hst : E s t) :
    m.answers t calls = m.answers s calls ∧ E (m.exec s calls) (m.exec t calls) := by
  induction calls generalizing s t with
  | nil => exact ⟨rfl, hst⟩
  | cons a calls ih =>
    obtain ⟨hanswers, hrelated⟩ := ih (h.next a hst)
    exact ⟨congrArg₂ List.cons (h.answer a hst) hanswers, hrelated⟩

theorem exec_history {I : List A → S → Prop} {init : S} (hinit : I [] init)
    (hstep : ∀ before a, I before (m.exec init before) → I (before ++ [a]) (m.next (m.exec init before) a))
    (calls : List A) : I calls (m.exec init calls) := by
  induction calls using List.reverseRecOn with
  | nil => exact hinit
  | append_singleton before a ih =>
    rw [exec_append]
    exact hstep before a ih

end Machine

/-- The second run is the first with further calls, each of them `extra`, put in anywhere. -/
inductive Inserts {A : Type*} (extra : A → Prop) : List A → List A → Prop
  | nil : Inserts extra [] []
  | keep {calls longer : List A} (a : A) : Inserts extra calls longer → Inserts extra (a :: calls) (a :: longer)
  | insert {calls longer : List A} (a : A) : extra a → Inserts extra calls longer → Inserts extra calls (a :: longer)

namespace Inserts
variable {S A R : Type*} {extra : A → Prop}

theorem split {before after longer : List A} {a : A} (h : Inserts extra (before ++ a :: after) longer) :
    ∃ before' after', longer = before' ++ a :: after' ∧ Inserts extra before before' ∧ Inserts extra after after' := by
  generalize hcalls : before ++ a :: after = calls at h
  induction h generalizing before with
  | nil => simp at hcalls
  | keep b hrest ih =>
    cases before with
    | nil =>
      obtain ⟨rfl, rfl⟩ := List.cons.inj hcalls
      exact ⟨[], _, rfl, .nil, hrest⟩
    | cons head before =>
      obtain ⟨rfl, hrest'⟩ := List.cons.inj hcalls
      obtain ⟨before', after', rfl, hbefore, hafter⟩ := ih hrest'
      exact ⟨head :: before', after', rfl, .keep head hbefore, hafter⟩
  | insert b hextra hrest ih =>
    obtain ⟨before', after', rfl, hbefore, hafter⟩ := ih hcalls
    exact ⟨b :: before', after', rfl, .insert b hextra hbefore, hafter⟩

theorem exec_relates {m : Machine S A R} {I : S → S → Prop} {P : S → A → Prop} {Q : A → Prop}
    (hkeep : ∀ s t a, I s t → P s a → Q a → I (m.next s a) (m.next t a))
    (hinsert : ∀ s t a, I s t → extra a → Q a → I s (m.next t a)) {calls longer : List A}
    (h : Inserts extra calls longer) :
    ∀ {s t : S}, I s t → m.Along P s calls → (∀ a ∈ longer, Q a) → I (m.exec s calls) (m.exec t longer) := by
  induction h with
  | nil => exact fun hI _ _ => hI
  | keep a _ ih =>
    intro s t hI hP hQ
    exact ih (hkeep s t a hI hP.1 (hQ a List.mem_cons_self)) hP.2 fun b hb => hQ b (List.mem_cons_of_mem _ hb)
  | insert a hextra _ ih =>
    intro s t hI hP hQ
    exact ih (hinsert s t a hI hextra (hQ a List.mem_cons_self)) hP fun b hb => hQ b (List.mem_cons_of_mem _ hb)

end Inserts

end AhlMirror.Core

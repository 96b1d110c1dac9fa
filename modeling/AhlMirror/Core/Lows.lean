import Mathlib.Data.List.Induction
import Mathlib.Data.List.Sort
import Mathlib.Data.List.TakeWhile

/-!
# Lows

Offers are read one after another, and one is kept where nothing kept so far comes before it or level
with it. What is kept runs strictly down, so its last element is a least offer; and where no two offers
are level, which one that is does not depend on their order.
-/

namespace AhlMirror.Core

variable {α : Type*} (le : α → α → Prop) [DecidableRel le]

/-- What is kept after one more offer. -/
def lower (kept : List α) (a : α) : List α := if ∃ k ∈ kept, le k a then kept else kept ++ [a]

/-- What is kept of a list of offers. -/
def lows (offers : List α) : List α := offers.foldl (lower le) []

variable {le}

theorem lower_of_le {kept : List α} {a : α} (h : ∃ k ∈ kept, le k a) : lower le kept a = kept := by
  unfold lower
  rw [if_pos h]

theorem lower_of_free {kept : List α} {a : α} (h : ∀ k ∈ kept, ¬ le k a) : lower le kept a = kept ++ [a] := by
  unfold lower
  rw [if_neg]
  rintro ⟨k, hk, hle⟩
  exact h k hk hle

theorem lower_cases (le : α → α → Prop) [DecidableRel le] (kept : List α) (a : α) :
    (lower le kept a = kept ∧ ∃ k ∈ kept, le k a) ∨ (lower le kept a = kept ++ [a] ∧ ∀ k ∈ kept, ¬ le k a) := by
  by_cases h : ∃ k ∈ kept, le k a
  · exact Or.inl ⟨lower_of_le h, h⟩
  · have hfree : ∀ k ∈ kept, ¬ le k a := fun k hk hle => h ⟨k, hk, hle⟩
    exact Or.inr ⟨lower_of_free hfree, hfree⟩

@[simp] theorem lows_nil : lows le [] = [] := rfl

theorem lows_append_singleton (offers : List α) (a : α) : lows le (offers ++ [a]) = lower le (lows le offers) a := by
  unfold lows
  rw [List.foldl_append]
  rfl

theorem mem_of_mem_lows {offers : List α} {k : α} (h : k ∈ lows le offers) : k ∈ offers := by
  induction offers using List.reverseRecOn with
  | nil => exact h
  | append_singleton offers a ih =>
    rw [lows_append_singleton] at h
    rcases lower_cases le (lows le offers) a with ⟨hsame, -⟩ | ⟨hadded, -⟩
    · rw [hsame] at h
      exact List.mem_append_left _ (ih h)
    · rw [hadded] at h
      rcases List.mem_append.1 h with hold | hnew
      · exact List.mem_append_left _ (ih hold)
      · exact List.mem_append_right _ hnew

theorem pairwise_lower {kept : List α} (h : kept.Pairwise fun a b => ¬ le a b) (a : α) :
    (lower le kept a).Pairwise fun a b => ¬ le a b := by
  rcases lower_cases le kept a with ⟨hsame, -⟩ | ⟨hadded, hfree⟩
  · rw [hsame]
    exact h
  · rw [hadded, List.pairwise_append]
    refine ⟨h, List.pairwise_singleton _ _, fun k hk b hb => ?_⟩
    rw [List.mem_singleton.1 hb]
    exact hfree k hk

theorem pairwise_lows (offers : List α) : (lows le offers).Pairwise fun a b => ¬ le a b := by
  induction offers using List.reverseRecOn with
  | nil => exact List.Pairwise.nil
  | append_singleton offers a ih =>
    rw [lows_append_singleton]
    exact pairwise_lower ih a

theorem exists_low_le [Std.Refl le] {offers : List α} {a : α} (h : a ∈ offers) : ∃ k ∈ lows le offers, le k a := by
  induction offers using List.reverseRecOn with
  | nil => cases h
  | append_singleton offers b ih =>
    rw [lows_append_singleton]
    rcases lower_cases le (lows le offers) b with ⟨hsame, hheld⟩ | ⟨hadded, -⟩
    · rw [hsame]
      rcases List.mem_append.1 h with hold | hnew
      · exact ih hold
      · rw [List.mem_singleton.1 hnew]
        exact hheld
    · rw [hadded]
      rcases List.mem_append.1 h with hold | hnew
      · obtain ⟨k, hk, hle⟩ := ih hold
        exact ⟨k, List.mem_append_left _ hk, hle⟩
      · rw [List.mem_singleton.1 hnew]
        exact ⟨b, List.mem_append_right _ (List.mem_singleton_self b), refl_of le b⟩

theorem lows_eq_nil [Std.Refl le] {offers : List α} : lows le offers = [] ↔ offers = [] := by
  constructor
  · intro h
    apply List.eq_nil_iff_forall_not_mem.2
    intro a ha
    obtain ⟨k, hk, -⟩ : ∃ k ∈ lows le offers, le k a := exists_low_le ha
    rw [h] at hk
    cases hk
  · rintro rfl
    rfl

/-! ### The last low -/

section order
variable [Std.Total le] [IsTrans α le]

omit [IsTrans α le] [DecidableRel le] in
theorem last_le_of_pairwise {kept : List α} (h : kept.Pairwise fun a b => ¬ le a b) {last : α}
    (hlast : kept.getLast? = some last) : ∀ k ∈ kept, le last k := by
  obtain ⟨init, rfl⟩ := List.getLast?_eq_some_iff.1 hlast
  intro k hk
  rcases List.mem_append.1 hk with hold | hnew
  · have hnot := (List.pairwise_append.1 h).2.2 k hold last (List.mem_singleton_self last)
    exact (total_of le last k).resolve_right hnot
  · rw [List.mem_singleton.1 hnew]
    exact refl_of le last

theorem last_low_le {offers : List α} {last : α} (hlast : (lows le offers).getLast? = some last) :
    ∀ a ∈ offers, le last a := by
  intro a ha
  obtain ⟨k, hk, hle⟩ : ∃ k ∈ lows le offers, le k a := exists_low_le ha
  exact trans_of le (last_le_of_pairwise (pairwise_lows offers) hlast k hk) hle

theorem last_low_perm {offers others : List α} (hperm : offers.Perm others)
    (hlevel : ∀ a ∈ offers, ∀ b ∈ offers, le a b → le b a → a = b) :
    (lows le offers).getLast? = (lows le others).getLast? := by
  cases hlast : (lows le offers).getLast? with
  | none =>
    rw [List.getLast?_eq_none_iff, lows_eq_nil] at hlast
    rw [hlast] at hperm
    rw [hperm.symm.eq_nil]
    rfl
  | some last =>
    cases hlast' : (lows le others).getLast? with
    | none =>
      rw [List.getLast?_eq_none_iff, lows_eq_nil] at hlast'
      rw [hlast'] at hperm
      rw [hperm.eq_nil] at hlast
      cases hlast
    | some last' =>
      have hmem := mem_of_mem_lows (List.mem_of_getLast? hlast)
      have hmem' := hperm.symm.subset (mem_of_mem_lows (List.mem_of_getLast? hlast'))
      have hle := last_low_le hlast last' hmem'
      have hle' := last_low_le hlast' last (hperm.subset hmem)
      rw [hlevel last hmem last' hmem' hle hle']

end order

/-! ### Sorting -/

theorem insertionSort_eq_reverse {xs : List α} (h : xs.Pairwise fun a b => ¬ le a b) :
    xs.insertionSort le = xs.reverse := by
  induction xs with
  | nil => rfl
  | cons a rest ih =>
    obtain ⟨hfirst, hrest⟩ := List.pairwise_cons.1 h
    have hall : ∀ b ∈ rest.reverse, decide (¬ le a b) = true :=
      fun b hb => decide_eq_true (hfirst b (List.mem_reverse.1 hb))
    rw [List.insertionSort_cons, ih hrest, List.orderedInsert_eq_take_drop, List.takeWhile_eq_self_iff.2 hall,
      List.dropWhile_eq_nil_iff.2 hall, List.reverse_cons]

theorem head?_insertionSort {xs : List α} (h : xs.Pairwise fun a b => ¬ le a b) :
    (xs.insertionSort le).head? = xs.getLast? := by
  rw [insertionSort_eq_reverse h, List.head?_reverse]

end AhlMirror.Core

import Mathlib.Data.List.Sort
import Mathlib.Data.List.Nodup
import Mathlib.Data.List.Induction

/-!
# Lists whose items carry their own positions

A table whose key column counts its rows from zero is a list `l` with `f` the position of each row
(`Indexed`). Reading such a table by key is reading the list by position: a lookup is `l[i]?`, a key
range is a slice, the greatest key is the last position.
-/

namespace AhlMirror.Core

variable {α : Type*} (f : α → Nat)

/-- The `i`-th item's own position is `i`. -/
def Indexed (l : List α) : Prop := l.map f = List.range l.length

namespace Indexed
variable {f}

theorem nil : Indexed f [] := rfl

theorem concat_iff {l : List α} {x : α} : Indexed f (l ++ [x]) ↔ Indexed f l ∧ f x = l.length := by
  unfold Indexed
  rw [List.map_append, List.length_append, List.length_singleton, List.range_succ, List.map_singleton]
  constructor
  · intro h
    obtain ⟨hl, hx⟩ := List.append_inj' h rfl
    exact ⟨hl, by simpa using hx⟩
  · rintro ⟨hl, hx⟩
    rw [hl, hx]

theorem getElem {l : List α} (h : Indexed f l) {i : Nat} (hi : i < l.length) : f l[i] = i := by
  have hlist : l.map f = List.range l.length := h
  have hmap : (l.map f)[i]? = (List.range l.length)[i]? := by rw [hlist]
  simpa [hi] using hmap

theorem find? {l : List α} (h : Indexed f l) (i : Nat) : l.find? (fun x => f x == i) = l[i]? := by
  induction l using List.reverseRecOn with
  | nil => rfl
  | append_singleton l x ih =>
    obtain ⟨hl, hx⟩ := concat_iff.1 h
    rw [List.find?_append, ih hl]
    rcases Nat.lt_trichotomy i l.length with hi | hi | hi
    · rw [List.getElem?_append_left hi, List.getElem?_eq_getElem hi, Option.some_or]
    · subst hi
      simp [hx]
    · rw [List.getElem?_eq_none (Nat.le_of_lt hi), List.getElem?_eq_none (by simp; omega)]
      have hne : f x ≠ i := by omega
      simp [hne]

theorem filter {l : List α} (h : Indexed f l) (a b : Nat) :
    l.filter (fun x => decide (a ≤ f x) && decide (f x < b)) = (l.take b).drop a := by
  induction l using List.reverseRecOn with
  | nil => simp
  | append_singleton l x ih =>
    obtain ⟨hl, hx⟩ := concat_iff.1 h
    rw [List.filter_append, ih hl]
    by_cases hb : l.length < b
    · rw [List.take_of_length_le (by omega), List.take_of_length_le (by simp; omega)]
      by_cases ha : a ≤ l.length
      · rw [List.drop_append_of_le_length ha]
        simp [hx, ha, hb]
      · rw [List.drop_eq_nil_of_le (by omega), List.drop_eq_nil_of_le (by simp; omega)]
        simp [hx, ha]
    · rw [List.take_append_of_le_length (by omega)]
      simp [hx, hb]

theorem pairwise {l : List α} (h : Indexed f l) : l.Pairwise fun x y => f x ≤ f y := by
  have hrange : (l.map f).Pairwise (· ≤ ·) := by
    rw [h]
    exact (List.pairwise_lt_range).imp Nat.le_of_lt
  exact List.pairwise_map.1 hrange

theorem insertionSort {l : List α} (h : Indexed f l) (a b : Nat) :
    ((l.take b).drop a).insertionSort (fun x y => f x ≤ f y) = (l.take b).drop a :=
  List.Pairwise.insertionSort_eq (h.pairwise.sublist ((List.drop_sublist _ _).trans (List.take_sublist _ _)))

theorem max?_map {l : List α} (h : Indexed f l) :
    (l.map f).max? = if l.length = 0 then none else some (l.length - 1) := by
  rw [h]
  split_ifs with hzero
  · simp [hzero]
  · rw [List.max?_eq_some_iff]
    exact ⟨List.mem_range.2 (by omega), fun i hi => by have := List.mem_range.1 hi; omega⟩

end Indexed

end AhlMirror.Core

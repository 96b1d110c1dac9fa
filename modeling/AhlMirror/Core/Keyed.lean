import Mathlib.Data.List.Nodup
import Mathlib.Data.List.Sort

/-!
# Tables with a unique key

A table whose rows arrive in any order and no two of which share a key (`Keyed`). What is read of it by key,
or in an order that ties only rows of one key, does not depend on the order they arrived in.
-/

namespace AhlMirror.Core

variable {α κ : Type*}

/-- No two rows share a key. -/
def Keyed (key : α → κ) (rows : List α) : Prop := (rows.map key).Nodup

theorem find?_filter_not {rows : List α} {p q : α → Bool} (h : ∀ row, p row = true → q row = false) :
    (rows.filter fun row => !q row).find? p = rows.find? p := by
  rw [List.find?_filter]
  congr 1
  funext row
  cases hp : p row with
  | false => simp
  | true => simp [h row hp]

theorem find?_replaced {rows : List α} {p : α → Bool} {row : α} (hp : p row = true) :
    ((rows.filter fun held => !p held) ++ [row]).find? p = some row := by
  have hnone : (rows.filter fun held => !p held).find? p = none := by
    rw [List.find?_eq_none]
    intro held hheld
    simpa using (List.mem_filter.1 hheld).2
  rw [List.find?_append, hnone, Option.none_or, List.find?_singleton, if_pos hp]

namespace Keyed
variable {key : α → κ} {rows other : List α}

theorem nil : Keyed key [] := List.nodup_nil

theorem concat_iff {row : α} : Keyed key (rows ++ [row]) ↔ Keyed key rows ∧ ∀ held ∈ rows, key held ≠ key row := by
  unfold Keyed
  rw [List.map_append, List.map_singleton, List.nodup_append]
  simp

theorem nodup (h : Keyed key rows) : rows.Nodup := h.of_map

theorem unique (h : Keyed key rows) {a b : α} (ha : a ∈ rows) (hb : b ∈ rows) (hkey : key a = key b) : a = b :=
  List.inj_on_of_nodup_map h ha hb hkey

theorem filter (h : Keyed key rows) (p : α → Bool) : Keyed key (rows.filter p) := h.sublist (List.filter_sublist.map key)

theorem perm_of_mem_iff (h : Keyed key rows) (h' : Keyed key other) (hmem : ∀ row, row ∈ other ↔ row ∈ rows) :
    other.Perm rows := (List.perm_ext_iff_of_nodup h'.nodup h.nodup).2 hmem

theorem find?_perm (h : Keyed key rows) (hperm : other.Perm rows) {p : α → Bool}
    (hp : ∀ a b, p a = true → p b = true → key a = key b) : other.find? p = rows.find? p := by
  cases hfind : rows.find? p with
  | none =>
    rw [List.find?_eq_none] at hfind ⊢
    exact fun row hrow => hfind row (hperm.mem_iff.1 hrow)
  | some row =>
    have hrow := List.mem_of_find?_eq_some hfind
    have hasked := List.find?_some hfind
    cases hfind' : other.find? p with
    | none => exact absurd hasked (List.find?_eq_none.1 hfind' row (hperm.mem_iff.2 hrow))
    | some found =>
      have hfound := hperm.mem_iff.1 (List.mem_of_find?_eq_some hfind')
      rw [h.unique hfound hrow (hp _ _ (List.find?_some hfind') hasked)]

theorem insertionSort_perm (h : Keyed key rows) (hperm : other.Perm rows) {le : α → α → Prop} [DecidableRel le]
    [Std.Total le] [IsTrans α le] (hties : ∀ a ∈ rows, ∀ b ∈ rows, le a b → le b a → key a = key b) :
    other.insertionSort le = rows.insertionSort le := by
  have hsorted : (other.insertionSort le).Perm (rows.insertionSort le) :=
    (List.perm_insertionSort le other).trans (hperm.trans (List.perm_insertionSort le rows).symm)
  refine hsorted.eq_of_pairwise (fun a b ha hb hab hba => ?_) (List.pairwise_insertionSort le _) (List.pairwise_insertionSort le _)
  rw [List.mem_insertionSort] at ha hb
  have ha := hperm.mem_iff.1 ha
  exact h.unique ha hb (hties a ha b hb hab hba)

end Keyed

end AhlMirror.Core

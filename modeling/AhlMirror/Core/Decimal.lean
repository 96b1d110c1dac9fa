import Mathlib.Data.Char
import Mathlib.Data.List.Lex
import Mathlib.Tactic.Ring

/-!
# Fixed-width fields

Lists that compare field by field, and numbers written with a fixed count of decimal digits. A number
and the fields it is made of in a mixed radix are in one order (`OrderedBy`); so are the digits of a
fixed width and the number they write (`fixed_lt_iff`).
-/

namespace AhlMirror.Core

/-! ### Fields -/

theorem append_lt_append_iff {α : Type*} [LinearOrder α] : ∀ {l l' : List α} (r r' : List α), l.length = l'.length →
    (l ++ r < l' ++ r' ↔ l < l' ∨ l = l' ∧ r < r')
  | [], [], r, r', _ => by simp
  | a :: l, b :: l', r, r', hlength => by
    have ih := append_lt_append_iff r r' (Nat.succ.inj hlength : l.length = l'.length)
    rw [List.cons_append, List.cons_append, List.cons_lt_cons_iff, List.cons_lt_cons_iff, ih, List.cons.injEq]
    tauto

theorem mul_add_lt_iff {radix q q' r r' : Nat} (hr : r < radix) (hr' : r' < radix) :
    q * radix + r < q' * radix + r' ↔ q < q' ∨ q = q' ∧ r < r' := by
  rcases lt_trichotomy q q' with hq | hq | hq
  · have hle : (q + 1) * radix ≤ q' * radix := Nat.mul_le_mul_right _ hq
    rw [Nat.add_one_mul] at hle
    exact iff_of_true (by omega) (Or.inl hq)
  · rw [hq]
    simp
  · have hle : (q' + 1) * radix ≤ q * radix := Nat.mul_le_mul_right _ hq
    rw [Nat.add_one_mul] at hle
    exact iff_of_false (by omega) (by omega)

/-- The numbers `f` are in the order of the fields `g`. -/
def OrderedBy {T : Type*} (f : T → Nat) (g : T → List Nat) : Prop := ∀ t t', f t < f t' ↔ g t < g t'

namespace OrderedBy
variable {T : Type*} {f : T → Nat} {g : T → List Nat}

theorem eq_iff (h : OrderedBy f g) (t t' : T) : f t = f t' ↔ g t = g t' := by
  have hlt := h t t'
  have hgt := h t' t
  rcases lt_trichotomy (g t) (g t') with hg | hg | hg
  · exact iff_of_false (hlt.2 hg).ne hg.ne
  · refine iff_of_true ?_ hg
    have hnot : ¬ f t < f t' := fun hf => (hlt.1 hf).ne hg
    have hnot' : ¬ f t' < f t := fun hf => (hgt.1 hf).ne hg.symm
    omega
  · exact iff_of_false (hgt.2 hg).ne' hg.ne'

theorem append (h : OrderedBy f g) (hlength : ∀ t t', (g t).length = (g t').length) {r : T → Nat} {radix : Nat}
    (hr : ∀ t, r t < radix) : OrderedBy (fun t => f t * radix + r t) fun t => g t ++ [r t] := by
  intro t t'
  show f t * radix + r t < f t' * radix + r t' ↔ _
  rw [mul_add_lt_iff (hr t) (hr t'), append_lt_append_iff _ _ (hlength t t'), h t t', h.eq_iff t t']
  simp [List.cons_lt_cons_iff]

end OrderedBy

/-! ### Digits -/

/-- The last `width` decimal digits of a number. -/
def fixed : Nat → Nat → List Char
  | 0, _ => []
  | width + 1, n => Nat.digitChar (n / 10 ^ width % 10) :: fixed width n

@[simp] theorem length_fixed (width n : Nat) : (fixed width n).length = width := by
  induction width with
  | zero => rfl
  | succ width ih => rw [fixed, List.length_cons, ih]

theorem digitChar_lt_iff : ∀ a < 10, ∀ b < 10, (Nat.digitChar a < Nat.digitChar b ↔ a < b) := by decide

theorem digitChar_eq_iff : ∀ a < 10, ∀ b < 10, (Nat.digitChar a = Nat.digitChar b ↔ a = b) := by decide

theorem isDigit_digitChar : ∀ a < 10, (Nat.digitChar a).isDigit = true := by decide

theorem isDigit_of_mem_fixed {c : Char} : ∀ {width n : Nat}, c ∈ fixed width n → c.isDigit = true
  | 0, _, h => by simp [fixed] at h
  | width + 1, n, h => by
    rcases List.mem_cons.1 h with rfl | h
    · exact isDigit_digitChar _ (Nat.mod_lt _ (by decide))
    · exact isDigit_of_mem_fixed h

theorem fixed_lt_iff_mod : ∀ (width n m : Nat), fixed width n < fixed width m ↔ n % 10 ^ width < m % 10 ^ width
  | 0, n, m => by simp [fixed, Nat.mod_one]
  | width + 1, n, m => by
    have hn := Nat.mod_lt (n / 10 ^ width) (show 0 < 10 by decide)
    have hm := Nat.mod_lt (m / 10 ^ width) (show 0 < 10 by decide)
    have hpos : 0 < 10 ^ width := Nat.pow_pos (by decide)
    have hsplit : ∀ x, x % 10 ^ (width + 1) = x / 10 ^ width % 10 * 10 ^ width + x % 10 ^ width := by
      intro x
      rw [Nat.pow_succ, Nat.mod_mul, Nat.add_comm, Nat.mul_comm]
    rw [fixed, fixed, List.cons_lt_cons_iff, digitChar_lt_iff _ hn _ hm, digitChar_eq_iff _ hn _ hm,
      fixed_lt_iff_mod width n m, hsplit n, hsplit m, mul_add_lt_iff (Nat.mod_lt n hpos) (Nat.mod_lt m hpos)]

theorem fixed_lt_iff {width n m : Nat} (hn : n < 10 ^ width) (hm : m < 10 ^ width) :
    fixed width n < fixed width m ↔ n < m := by
  rw [fixed_lt_iff_mod, Nat.mod_eq_of_lt hn, Nat.mod_eq_of_lt hm]

theorem fixed_injective {width n m : Nat} (hn : n < 10 ^ width) (hm : m < 10 ^ width)
    (h : fixed width n = fixed width m) : n = m := by
  rcases lt_trichotomy n m with hlt | heq | hgt
  · exact absurd h ((fixed_lt_iff hn hm).2 hlt).ne
  · exact heq
  · exact absurd h ((fixed_lt_iff hm hn).2 hgt).ne'

theorem ofDigitChars_fixed (n : Nat) : ∀ (width initial : Nat),
    Nat.ofDigitChars 10 (fixed width n) initial = initial * 10 ^ width + n % 10 ^ width
  | 0, initial => by simp [fixed, Nat.mod_one]
  | width + 1, initial => by
    rw [fixed, Nat.ofDigitChars_cons_digitChar_of_lt_ten (Nat.mod_lt _ (by decide)), ofDigitChars_fixed n width,
      Nat.pow_succ, Nat.mod_mul]
    ring

end AhlMirror.Core

import Mathlib.Data.List.Chain
import Mathlib.Data.List.Infix

/-!
# Neighbours in a list

What a scan of neighbours finds. For a property that every prefix of a list with it has, the longest
prefix that has it is found by going on while the next item keeps it (`LongestPrefix.of_stop`); `Linked`
is such a property: a condition on every item, one on the first, and one on each two neighbours. And in
an ascending list two items that share a key and differ otherwise show up as two neighbours that do
(`exists_neighbours`).
-/

namespace AhlMirror.Core

variable {α : Type*}

/-- `c` is the longest prefix of `l` with the property `P`. -/
structure LongestPrefix (P : List α → Prop) (l c : List α) : Prop where
  isPrefix : c <+: l
  holds : P c
  longest : ∀ d, d <+: l → P d → d <+: c

/-- Items that are all `good`, the first a `start`, and each two neighbours a `link`. -/
structure Linked (good start : α → Prop) (link : α → α → Prop) (c : List α) : Prop where
  good : ∀ x ∈ c, good x
  start : ∀ x ∈ c.head?, start x
  link : c.IsChain link

theorem LongestPrefix.of_stop {P : List α → Prop} {l c : List α} (hclosed : ∀ a b, P (a ++ b) → P a) (hc : c <+: l)
    (hP : P c) (hstop : ∀ x, c ++ [x] <+: l → ¬ P (c ++ [x])) : LongestPrefix P l c where
  isPrefix := hc
  holds := hP
  longest d hd hPd := by
    rcases List.prefix_or_prefix_of_prefix hd hc with hdc | ⟨more, rfl⟩
    · exact hdc
    · cases more with
      | nil => simp
      | cons x rest =>
        -- a longer prefix would keep the property past the item it stopped at
        rw [← List.singleton_append, ← List.append_assoc] at hd hPd
        exact absurd (hclosed _ _ hPd) (hstop x ((List.prefix_append _ rest).trans hd))

namespace Linked
variable {good start : α → Prop} {link : α → α → Prop}

theorem nil : Linked good start link [] := ⟨by simp, by simp, List.isChain_nil⟩

theorem of_append (a b : List α) (h : Linked good start link (a ++ b)) : Linked good start link a where
  good x hx := h.good x (List.mem_append_left b hx)
  start x hx := h.start x (by cases a with
    | nil => simp at hx
    | cons head rest => exact hx)
  link := h.link.left_of_append

theorem singleton {x : α} (hgood : good x) (hstart : start x) : Linked good start link [x] where
  good y hy := List.mem_singleton.1 hy ▸ hgood
  start y hy := by
    obtain rfl : x = y := by simpa using hy
    exact hstart
  link := List.isChain_singleton x

theorem concat_iff {c : List α} {last x : α} (hlast : c.getLast? = some last) :
    Linked good start link (c ++ [x]) ↔ Linked good start link c ∧ good x ∧ link last x := by
  constructor
  · intro h
    refine ⟨h.of_append c [x], h.good x (by simp), ?_⟩
    exact (List.isChain_append.1 h.link).2.2 last hlast x rfl
  · rintro ⟨h, hgood, hlink⟩
    refine ⟨fun y hy => ?_, fun y hy => ?_, ?_⟩
    · rcases List.mem_append.1 hy with hold | hnew
      · exact h.good y hold
      · exact List.mem_singleton.1 hnew ▸ hgood
    · cases c with
      | nil => simp at hlast
      | cons head rest => exact h.start y hy
    · refine List.isChain_append.2 ⟨h.link, List.isChain_singleton x, fun y hy z hz => ?_⟩
      obtain rfl : last = y := Option.some.inj (hlast.symm.trans hy)
      obtain rfl : x = z := by simpa using hz
      exact hlink

end Linked

theorem find?_of_prefix {f : α → Nat} {l c : List α} {last : α} (hsorted : l.Pairwise fun x y => f x ≤ f y)
    (hc : c <+: l) (hlast : c.getLast? = some last) (n : Nat) :
    (l.find? fun x => decide (n < f x) && decide (f x ≤ f last)) = c.find? fun x => decide (n < f x) := by
  obtain ⟨rest, rfl⟩ := hc
  obtain ⟨init, rfl⟩ := List.getLast?_eq_some_iff.1 hlast
  have hle : ∀ x ∈ init ++ [last], f x ≤ f last := by
    intro x hx
    rcases List.mem_append.1 hx with hold | hnew
    · exact (List.pairwise_append.1 (List.pairwise_append.1 hsorted).1).2.2 x hold last (List.mem_singleton_self last)
    · rw [List.mem_singleton.1 hnew]
  rw [List.find?_append]
  have hsame : ((init ++ [last]).find? fun x => decide (n < f x) && decide (f x ≤ f last)) =
      (init ++ [last]).find? fun x => decide (n < f x) := by
    rw [← List.head?_filter, ← List.head?_filter]
    refine congrArg List.head? (List.filter_congr fun x hx => ?_)
    simp [hle x hx]
  rw [hsame]
  cases hfind : (init ++ [last]).find? fun x => decide (n < f x) with
  | some x => rfl
  | none =>
    -- then the last item itself does not pass `n`, and no later one is both above and at most it
    have hn : f last ≤ n := by simpa using List.find?_eq_none.1 hfind last (by simp)
    rw [Option.none_or, List.find?_eq_none]
    intro x _
    simp
    omega

/-- Two items of an ascending list that agree on the key and differ on `g` have two neighbours between
them, of the same key, that differ on `g`. -/
theorem exists_neighbours {β : Type*} {f : α → Nat} {g : α → β} : ∀ {l : List α},
    (l.Pairwise fun x y => f x ≤ f y) → ∀ a ∈ l, ∀ b ∈ l, f a = f b → g a ≠ g b →
      ∃ before x y after, l = before ++ x :: y :: after ∧ f x = f a ∧ f y = f a ∧ g x ≠ g y
  | [], _, a, ha, _, _, _, _ => by simp at ha
  | head :: rest, hsorted, a, ha, b, hb, hf, hg => by
    obtain ⟨hhead, hrest⟩ := List.pairwise_cons.1 hsorted
    -- with `head` on one side, the next item shares its key, and differs from it or from the other side
    have hside : ∀ c ∈ rest, f head = f c → g head ≠ g c →
        ∃ before x y after, head :: rest = before ++ x :: y :: after ∧ f x = f head ∧ f y = f head ∧ g x ≠ g y := by
      intro c hc hfc hgc
      cases rest with
      | nil => simp at hc
      | cons next tail =>
        have hnext : f next = f head := by
          refine le_antisymm ?_ (hhead next List.mem_cons_self)
          rcases List.mem_cons.1 hc with rfl | hc
          · exact hfc.ge
          · exact ((List.pairwise_cons.1 hrest).1 c hc).trans hfc.ge
        by_cases hgnext : g head = g next
        · obtain ⟨before, x, y, after, hl, hx, hy, hxy⟩ :=
            exists_neighbours hrest next List.mem_cons_self c hc (hnext.trans hfc) (hgnext ▸ hgc)
          exact ⟨head :: before, x, y, after, by rw [hl, List.cons_append], hx.trans hnext, hy.trans hnext, hxy⟩
        · exact ⟨[], head, next, tail, rfl, rfl, hnext, hgnext⟩
    rcases List.mem_cons.1 ha with rfl | ha'
    · rcases List.mem_cons.1 hb with rfl | hb'
      · exact absurd rfl hg
      · exact hside b hb' hf hg
    · rcases List.mem_cons.1 hb with rfl | hb'
      · rw [hf]
        exact hside a ha' hf.symm hg.symm
      · obtain ⟨before, x, y, after, hl, hx, hy, hxy⟩ := exists_neighbours hrest a ha' b hb' hf hg
        exact ⟨head :: before, x, y, after, by rw [hl, List.cons_append], hx, hy, hxy⟩

theorem neighbour_unique {f : α → Nat} {l before before' after after' : List α} {x y x' y' : α}
    (hsorted : l.Pairwise fun a b => f a < f b) (h : l = before ++ x :: y :: after)
    (h' : l = before' ++ x' :: y' :: after')
    (hkey : f y = f y') : x = x' := by
  have hnot : ∀ {p q : List α} {a b c d : α} {r t : List α}, l = p ++ a :: b :: r → l = q ++ c :: d :: t →
      f b = f d → ¬ p.length < q.length := by
    intro p q a b c d r t hp hq hbd hlt
    have hb : l[p.length + 1]? = some b := by simp [hp]
    have hd : l[q.length + 1]? = some d := by simp [hq]
    obtain ⟨hi, rfl⟩ := List.getElem?_eq_some_iff.1 hb
    obtain ⟨hj, rfl⟩ := List.getElem?_eq_some_iff.1 hd
    exact (List.pairwise_iff_getElem.1 hsorted _ _ hi hj (Nat.succ_lt_succ hlt)).ne hbd
  have hlength : before.length = before'.length :=
    Nat.le_antisymm (Nat.le_of_not_lt (hnot h' h hkey.symm)) (Nat.le_of_not_lt (hnot h h' hkey))
  exact (List.cons.inj (List.append_inj (h.symm.trans h') hlength).2).1

end AhlMirror.Core

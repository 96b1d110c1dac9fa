import Mathlib.Data.List.Chain
import Mathlib.Data.List.Induction

/-!
# Greedy chains

A log of `stop` places is read from the front. The first place an `initial` candidate is admitted at
gives the first link; from each link on, the first place that admits a `successor` of it gives the
next. `GreedyChain` says that a list is exactly the links so found: none is missing, none is skipped.
-/

namespace AhlMirror.Core

variable {S : Type*} (position : S → Nat)

/-- `s` stands at the first place from `start` on that admits anything. -/
structure FirstAdmitted (admits : Nat → S → Prop) (start stop : Nat) (s : S) : Prop where
  start_le : start ≤ position s
  lt_stop : position s < stop
  admitted : admits (position s) s
  first : ∀ i t, start ≤ i → i < position s → ¬ admits i t

theorem FirstAdmitted.mono {position : S → Nat} {admits admits' : Nat → S → Prop} {start stop stop' : Nat} {s : S}
    (h : FirstAdmitted position admits start stop s) (hstop : stop ≤ stop')
    (hsame : ∀ i t, i < stop → (admits' i t ↔ admits i t)) : FirstAdmitted position admits' start stop' s where
  start_le := h.start_le
  lt_stop := h.lt_stop.trans_le hstop
  admitted := (hsame _ s h.lt_stop).2 h.admitted
  first i t hstart hlt hadmits := h.first i t hstart hlt ((hsame i t (hlt.trans h.lt_stop)).1 hadmits)

structure GreedyChain (initial : Nat → S → Prop) (successor : S → Nat → S → Prop) (stop : Nat) (links : List S) :
    Prop where
  head : ∀ s ∈ links.head?, FirstAdmitted position initial 0 stop s
  empty : links = [] → ∀ i t, i < stop → ¬ initial i t
  next : links.IsChain fun s t => FirstAdmitted position (successor s) (position s + 1) stop t
  last : ∀ s ∈ links.getLast?, ∀ i t, position s < i → i < stop → ¬ successor s i t

namespace GreedyChain
variable {position} {initial initial' : Nat → S → Prop} {successor successor' : S → Nat → S → Prop} {stop : Nat}
  {links : List S}

theorem nil : GreedyChain position initial successor 0 [] where
  head s hs := by simp at hs
  empty _ i t hi := absurd hi (Nat.not_lt_zero i)
  next := List.isChain_nil
  last s hs := by simp at hs

theorem admitted (h : GreedyChain position initial successor stop links) : ∀ t ∈ links,
    FirstAdmitted position initial 0 stop t ∨
      ∃ s ∈ links, FirstAdmitted position (successor s) (position s + 1) stop t := by
  intro t ht
  obtain ⟨before, after, rfl⟩ := List.mem_iff_append.1 ht
  rcases List.eq_nil_or_concat before with rfl | ⟨before, s, rfl⟩
  · exact Or.inl (h.head t rfl)
  · have hnext := h.next
    rw [List.concat_eq_append, List.append_assoc, List.singleton_append] at hnext
    exact Or.inr ⟨s, by simp, (List.isChain_append_cons_cons.1 hnext).2.1⟩

theorem lt_stop (h : GreedyChain position initial successor stop links) : ∀ s ∈ links, position s < stop := by
  intro s hs
  rcases h.admitted s hs with hfirst | ⟨_, -, hnext⟩
  · exact hfirst.lt_stop
  · exact hnext.lt_stop

theorem increasing (h : GreedyChain position initial successor stop links) :
    links.Pairwise fun s t => position s < position t := by
  have hchain : links.IsChain fun s t => position s < position t := h.next.imp fun s t hnext => hnext.start_le
  have : Trans (fun s t : S => position s < position t) (fun s t : S => position s < position t)
      fun s t => position s < position t := ⟨fun hst htu => Nat.lt_trans hst htu⟩
  exact hchain.pairwise

theorem constant {β : Type*} {f : S → β} (h : GreedyChain position initial successor stop links)
    (hkeep : ∀ s i t, successor s i t → f t = f s) : ∀ first ∈ links.head?, ∀ s ∈ links, f s = f first := by
  have hchain : links.IsChain fun s t => f t = f s := h.next.imp fun s t hnext => hkeep s _ t hnext.admitted
  have : Trans (fun s t : S => f t = f s) (fun s t : S => f t = f s) fun s t => f t = f s :=
    ⟨fun hst htu => htu.trans hst⟩
  intro first hfirst s hs
  cases links with
  | nil => simp at hs
  | cons head rest =>
    obtain rfl : head = first := by simpa using hfirst
    rcases List.mem_cons.1 hs with rfl | hrest
    · rfl
    · exact (List.pairwise_cons.1 hchain.pairwise).1 s hrest

/-- A place that admits nothing adds nothing; conditions may change from `stop` on. -/
theorem skip (h : GreedyChain position initial successor stop links)
    (hinitial : ∀ i t, i < stop → (initial' i t ↔ initial i t))
    (hsuccessor : ∀ s i t, i < stop → (successor' s i t ↔ successor s i t))
    (hnone : links = [] → ∀ t, ¬ initial' stop t) (hlast : ∀ s ∈ links.getLast?, ∀ t, ¬ successor' s stop t) :
    GreedyChain position initial' successor' (stop + 1) links where
  head s hs := (h.head s hs).mono (Nat.le_succ stop) hinitial
  empty hnil i t hi := by
    rcases Nat.lt_succ_iff_lt_or_eq.1 hi with hlt | rfl
    · exact fun hadmits => h.empty hnil i t hlt ((hinitial i t hlt).1 hadmits)
    · exact hnone hnil t
  next := h.next.imp fun s t hnext => hnext.mono (Nat.le_succ stop) (hsuccessor s)
  last s hs i t hpos hi := by
    rcases Nat.lt_succ_iff_lt_or_eq.1 hi with hlt | rfl
    · exact fun hadmits => h.last s hs i t hpos hlt ((hsuccessor s i t hlt).1 hadmits)
    · exact hlast s hs t

theorem concat (h : GreedyChain position initial successor stop links) {t : S} (hplace : position t = stop)
    (hinitial : ∀ i t, i < stop → (initial' i t ↔ initial i t))
    (hsuccessor : ∀ s i t, i < stop → (successor' s i t ↔ successor s i t))
    (hfirst : links = [] → initial' stop t) (hnext : ∀ s ∈ links.getLast?, successor' s stop t) :
    GreedyChain position initial' successor' (stop + 1) (links ++ [t]) where
  head s hs := by
    cases links with
    | nil =>
      obtain rfl : t = s := by simpa using hs
      refine ⟨Nat.zero_le _, by omega, hplace ▸ hfirst rfl, fun i u _ hi hadmits => ?_⟩
      have hlt : i < stop := hplace ▸ hi
      exact h.empty rfl i u hlt ((hinitial i u hlt).1 hadmits)
    | cons head rest => exact (h.head s (by simpa using hs)).mono (Nat.le_succ stop) hinitial
  empty hnil := by simp at hnil
  next := by
    refine List.isChain_append.2 ⟨h.next.imp fun s u hnext => hnext.mono (Nat.le_succ stop) (hsuccessor s),
      List.isChain_singleton t, fun s hs u hu => ?_⟩
    obtain rfl : t = u := by simpa using hu
    have hlt : position s < stop := h.lt_stop s (List.mem_of_getLast? hs)
    refine ⟨by omega, by omega, hplace ▸ hnext s hs, fun i u hstart hi hadmits => ?_⟩
    have hi' : i < stop := hplace ▸ hi
    exact h.last s hs i u hstart hi' ((hsuccessor s i u hi').1 hadmits)
  last s hs i u hpos hi := by
    obtain rfl : t = s := by simpa using hs
    omega

end GreedyChain

end AhlMirror.Core

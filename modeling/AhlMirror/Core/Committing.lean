import Mathlib.Data.List.Basic

/-!
# Scripts whose statements commit one by one

A `Committing` computation runs over a store and commits each of its writes on its own: besides its
result it leaves the states it committed on the way, and a crash leaves the store in one of them.
`Keeps P I x Q` is its triple: from a state in `P`, every state it commits is in `I`, and where it
ends with a result, `Q` holds of that result and the state it ends in. `Completes P x` says that from a state in
`P` it does end with one. `Leaves f x` says that no statement of `x` changes what `f` reads.
-/

namespace AhlMirror.Core

/-- The states committed, oldest first, and the result with the state it ends in. -/
structure Outcome (S ε α : Type) where
  committed : List S
  result : Except ε (α × S)

def Committing (S ε α : Type) := S → Outcome S ε α

namespace Committing

variable {S ε α β : Type}

instance : Monad (Committing S ε) where
  pure a := fun s => ⟨[], .ok (a, s)⟩
  bind x f := fun s =>
    match (x s).result with
    | .ok (a, t) => ⟨(x s).committed ++ (f a t).committed, (f a t).result⟩
    | .error e => ⟨(x s).committed, .error e⟩

/-- A query: it writes nothing. -/
def query (f : S → Except ε α) : Committing S ε α := fun s => ⟨[], (f s).map fun a => (a, s)⟩

/-- One statement, committed where it succeeds. -/
def statement (f : S → Except ε S) : Committing S ε Unit := fun s =>
  match f s with
  | .ok t => ⟨[t], .ok ((), t)⟩
  | .error e => ⟨[], .error e⟩

/-- One script for each item, in order. -/
def forEach (body : β → Committing S ε Unit) : List β → Committing S ε Unit
  | [] => pure ()
  | item :: rest => do
    body item
    forEach body rest

/-- The triple of a script. -/
def Keeps (P I : S → Prop) (x : Committing S ε α) (Q : α → S → Prop) : Prop :=
  ∀ s, P s → (∀ t ∈ (x s).committed, I t) ∧ ∀ a t, (x s).result = .ok (a, t) → Q a t

variable {P P' I : S → Prop} {Q Q' : α → S → Prop} {x : Committing S ε α}

theorem Keeps.consequence (h : Keeps P I x Q) (hpre : ∀ s, P' s → P s) (hpost : ∀ a s, Q a s → Q' a s) :
    Keeps P' I x Q' := fun s hs =>
  ⟨(h s (hpre s hs)).1, fun a t ht => hpost a t ((h s (hpre s hs)).2 a t ht)⟩

theorem Keeps.pure {a : α} (h : ∀ s, P s → Q a s) : Keeps P I (pure a : Committing S ε α) Q := by
  intro s hs
  refine ⟨by simp [Pure.pure], fun b t ht => ?_⟩
  cases ht
  exact h s hs

theorem Keeps.bind {R : β → S → Prop} {f : α → Committing S ε β} (hx : Keeps P I x Q)
    (hf : ∀ a, Keeps (Q a) I (f a) R) : Keeps P I (x >>= f) R := by
  intro s hs
  obtain ⟨hcommitted, hresult⟩ := hx s hs
  show (∀ t ∈ Outcome.committed (match (x s).result with
      | .ok (a, t) => ⟨(x s).committed ++ (f a t).committed, (f a t).result⟩
      | .error e => ⟨(x s).committed, .error e⟩), I t) ∧ ∀ b t, Outcome.result (match (x s).result with
      | .ok (a, t) => ⟨(x s).committed ++ (f a t).committed, (f a t).result⟩
      | .error e => ⟨(x s).committed, .error e⟩) = .ok (b, t) → R b t
  cases hxs : (x s).result with
  | error e => exact ⟨hcommitted, fun b t ht => by cases ht⟩
  | ok out =>
    obtain ⟨a, t⟩ := out
    obtain ⟨hcommitted', hresult'⟩ := hf a t (hresult a t hxs)
    refine ⟨fun u hu => ?_, hresult'⟩
    rcases List.mem_append.1 hu with hu | hu
    · exact hcommitted u hu
    · exact hcommitted' u hu

theorem Keeps.query {f : S → Except ε α} (h : ∀ s a, P s → f s = .ok a → Q a s) : Keeps P I (query f) Q := by
  intro s hs
  refine ⟨by simp [Committing.query], fun a t ht => ?_⟩
  cases hf : f s with
  | error e => simp [Committing.query, hf, Except.map] at ht
  | ok b =>
    simp only [Committing.query, hf, Except.map, Except.ok.injEq, Prod.mk.injEq] at ht
    obtain ⟨rfl, rfl⟩ := ht
    exact h s b hs hf

theorem Keeps.statement {f : S → Except ε S} {Q : S → Prop} (h : ∀ s t, P s → f s = .ok t → I t ∧ Q t) :
    Keeps P I (statement f) fun _ => Q := by
  intro s hs
  unfold Committing.statement
  cases hf : f s with
  | error e => exact ⟨by simp, fun a t ht => by cases ht⟩
  | ok t =>
    obtain ⟨hI, hQ⟩ := h s t hs hf
    refine ⟨by simpa using hI, fun a u hu => ?_⟩
    cases hu
    exact hQ

theorem Keeps.forEach (L : List β → List β → S → Prop) {body : β → Committing S ε Unit}
    (hbody : ∀ done item rest, Keeps (L done (item :: rest)) I (body item) fun _ => L (done ++ [item]) rest) :
    ∀ (rest done : List β), Keeps (L done rest) I (forEach body rest) fun _ => L (done ++ rest) []
  | [], done => Keeps.pure fun s hs => by simpa using hs
  | item :: rest, done => by
    apply (hbody done item rest).bind
    intro _
    have ih := Keeps.forEach L hbody rest (done ++ [item])
    rwa [List.append_assoc] at ih

/-! ### Scripts that complete -/

/-- From a state in `P`, no statement of the script fails. -/
def Completes (P : S → Prop) (x : Committing S ε α) : Prop := ∀ s, P s → ∃ a t, (x s).result = .ok (a, t)

theorem Keeps.trivial (x : Committing S ε α) : Keeps P (fun _ => True) x fun _ _ => True :=
  fun _ _ => ⟨fun _ _ => True.intro, fun _ _ _ => True.intro⟩

theorem Completes.consequence (h : Completes P x) (hpre : ∀ s, P' s → P s) : Completes P' x := fun s hs => h s (hpre s hs)

theorem Completes.pure (a : α) : Completes P (pure a : Committing S ε α) := fun s _ => ⟨a, s, rfl⟩

theorem Completes.bind {f : α → Committing S ε β} (hx : Completes P x) (hkeeps : Keeps P I x Q)
    (hf : ∀ a, Completes (Q a) (f a)) : Completes P (x >>= f) := by
  intro s hs
  obtain ⟨a, t, hresult⟩ := hx s hs
  obtain ⟨b, u, hresult'⟩ := hf a t ((hkeeps s hs).2 a t hresult)
  refine ⟨b, u, ?_⟩
  show Outcome.result (match (x s).result with
    | .ok (a, t) => ⟨(x s).committed ++ (f a t).committed, (f a t).result⟩
    | .error e => ⟨(x s).committed, .error e⟩) = _
  rw [hresult]
  exact hresult'

theorem Completes.query {f : S → Except ε α} (h : ∀ s, P s → ∃ a, f s = .ok a) : Completes P (query f) := by
  intro s hs
  obtain ⟨a, ha⟩ := h s hs
  exact ⟨a, s, by simp [Committing.query, ha, Except.map]⟩

theorem Completes.statement {f : S → Except ε S} (h : ∀ s, P s → ∃ t, f s = .ok t) : Completes P (statement f) := by
  intro s hs
  obtain ⟨t, ht⟩ := h s hs
  exact ⟨(), t, by simp [Committing.statement, ht]⟩

theorem Completes.forEach {body : β → Committing S ε Unit} (h : ∀ item, Completes (fun _ => True) (body item)) :
    ∀ items, Completes (fun _ : S => True) (forEach body items)
  | [] => Completes.pure ()
  | item :: rest => (h item).bind (Keeps.trivial _) fun _ => Completes.forEach h rest

/-! ### What a script leaves alone -/

/-- Every state the script commits, and the one it ends in, reads as the first under `f`. -/
def Leaves {γ : Type} (f : S → γ) (x : Committing S ε α) : Prop :=
  ∀ v, Keeps (fun s => f s = v) (fun s => f s = v) x fun _ s => f s = v

section leaves
variable {γ : Type} {f : S → γ}

theorem Leaves.pure (a : α) : Leaves f (pure a : Committing S ε α) := fun _ => Keeps.pure fun _ h => h

theorem Leaves.bind {g : α → Committing S ε β} (hx : Leaves f x) (hg : ∀ a, Leaves f (g a)) : Leaves f (x >>= g) :=
  fun v => (hx v).bind fun a => hg a v

theorem Leaves.query (g : S → Except ε α) : Leaves f (query g) := fun _ => Keeps.query fun _ _ h _ => h

theorem Leaves.statement {g : S → Except ε S} (h : ∀ s t, g s = .ok t → f t = f s) : Leaves f (statement g) :=
  fun _ => Keeps.statement fun s t hs ht => ⟨(h s t ht).trans hs, (h s t ht).trans hs⟩

theorem Leaves.keeps (hx : Leaves f x) (v : γ) : Keeps (fun s => f s = v) (fun _ => True) x fun _ s => f s = v :=
  fun s hs => ⟨fun _ _ => trivial, (hx v s hs).2⟩

theorem Keeps.and_leaves (h : Keeps P I x Q) (hx : Leaves f x) (v : γ) :
    Keeps (fun s => P s ∧ f s = v) I x fun a s => Q a s ∧ f s = v := fun s hs =>
  ⟨(h s hs.1).1, fun a t ht => ⟨(h s hs.1).2 a t ht, (hx v s hs.2).2 a t ht⟩⟩

theorem Leaves.comp {δ : Type} (g : γ → δ) (hx : Leaves f x) : Leaves (fun s => g (f s)) x := by
  rintro v s rfl
  obtain ⟨hcommitted, hresult⟩ := hx (f s) s rfl
  exact ⟨fun t ht => congrArg g (hcommitted t ht), fun a t ht => congrArg g (hresult a t ht)⟩

theorem Leaves.forEach {body : β → Committing S ε Unit} (h : ∀ item, Leaves f (body item)) :
    ∀ items, Leaves f (forEach body items)
  | [] => Leaves.pure ()
  | item :: rest => (h item).bind fun _ => Leaves.forEach h rest

end leaves

end Committing

end AhlMirror.Core

import AhlMirror.Core.Transition
import Mathlib.Data.List.Chain

/-!
# Computations that read a shared store several times

A `Reading` holds the store for one read at a time. `eval` is its result where the store stays as it is;
`Across` is a call among the writes of others, which come in between any two reads, and `amid` one among the
events of a machine. A call whose every read is `Steady` under those writes computes what it computes on the one
store it began with.
-/

namespace AhlMirror.Core

inductive Reading (S ε α : Type) where
  | done (result : Except ε α)
  | read (next : S → Reading S ε α)

namespace Reading

variable {S ε α β : Type}

/-- Sequencing, stopping at the first error. -/
protected def bind (q : Reading S ε α) (f : α → Reading S ε β) : Reading S ε β :=
  match q with
  | done (.ok a) => f a
  | done (.error e) => done (.error e)
  | read next => read fun s => (next s).bind f

instance : Monad (Reading S ε) where
  pure a := done (.ok a)
  bind := Reading.bind

/-- One read. -/
def query (f : S → Except ε α) : Reading S ε α := read fun s => done (f s)

/-- A step that reads nothing. -/
def lift (result : Except ε α) : Reading S ε α := done result

/-- The result on a store that stays as it is. -/
def eval (s : S) : Reading S ε α → Except ε α
  | done result => result
  | read next => (next s).eval s

@[simp] theorem eval_pure (s : S) (a : α) : (pure a : Reading S ε α).eval s = .ok a := rfl

@[simp] theorem eval_query (s : S) (f : S → Except ε α) : (query f).eval s = f s := rfl

@[simp] theorem eval_lift (s : S) (result : Except ε α) : (lift result).eval s = result := rfl

theorem eval_bind (s : S) (f : α → Reading S ε β) :
    ∀ q : Reading S ε α, (q >>= f).eval s = q.eval s >>= fun a => (f a).eval s
  | done (.ok _) => rfl
  | done (.error _) => rfl
  | read next => eval_bind s f (next s)

/-! ### A call among writes -/

/-- A call that begins in a state, the states the writes of others put in its place until it ends, oldest
first, and its result. -/
inductive Across (step : S → S → Prop) : Reading S ε α → S → List S → Except ε α → Prop
  | done {result : Except ε α} {s : S} : Across step (done result) s [] result
  | read {next : S → Reading S ε α} {s : S} {states : List S} {result : Except ε α} :
      Across step (next s) s states result → Across step (read next) s states result
  | written {q : Reading S ε α} {s t : S} {states : List S} {result : Except ε α} :
      step s t → Across step q t states result → Across step q s (t :: states) result

/-- The result of a call whose reads come after the given batches of writes, one batch for each. -/
def among (batches : List (List S)) : Reading S ε α → S → Except ε α
  | done result, _ => result
  | read next, s =>
    match batches with
    | [] => (next s).among [] s
    | batch :: rest => (next (batch.getLastD s)).among rest (batch.getLastD s)

section across
variable {step R : S → S → Prop} {q : Reading S ε α} {f : α → Reading S ε β} {s : S} {states : List S}
  {result : Except ε α} {a : α} {b : β}

theorem Across.mono (h : ∀ s t, step s t → R s t) (hq : Across step q s states result) :
    Across R q s states result := by
  induction hq with
  | done => exact .done
  | read _ ih => exact .read ih
  | written hstep _ ih => exact .written (h _ _ hstep) ih

theorem Across.done_eq (h : Across step (Reading.done result) s states (.ok a)) : result = .ok a := by
  generalize hq : (Reading.done result : Reading S ε α) = q at h
  generalize hresult : Except.ok a = outcome at h ⊢
  induction h with
  | done => exact Reading.done.inj hq
  | read _ _ => cases hq
  | written _ _ ih => exact ih hq hresult

theorem Across.query_ok {g : S → Except ε α} (h : Across step (query g) s states (.ok a)) :
    ∃ u ∈ s :: states, g u = .ok a := by
  generalize hq : query g = q at h
  generalize hresult : Except.ok a = result at h
  induction h with
  | done => cases hq
  | @read next s states result hnext _ =>
    obtain rfl := Reading.read.inj hq
    subst hresult
    exact ⟨s, List.mem_cons_self, hnext.done_eq⟩
  | written _ _ ih =>
    obtain ⟨u, hu, hread⟩ := ih hq hresult
    exact ⟨u, List.mem_cons_of_mem _ hu, hread⟩

/-- A sequence is called across the states of its first part and then those of its second. -/
theorem Across.bind_ok (h : Across step (q >>= f) s states (.ok b)) : ∃ a before after, states = before ++ after ∧
    Across step q s before (.ok a) ∧ Across step (f a) (before.getLastD s) after (.ok b) := by
  generalize hq : q >>= f = p at h
  generalize hresult : Except.ok b = result at h
  induction h generalizing q with
  | @done result s =>
    subst hresult
    rcases q with (e | a) | next
    · cases hq
    · have hq : f a = Reading.done (.ok b) := hq
      exact ⟨a, [], [], rfl, .done, hq ▸ .done⟩
    · cases hq
  | @read next s states result hnext ih =>
    subst hresult
    rcases q with (e | a) | next'
    · cases hq
    · have hq : f a = Reading.read next := hq
      exact ⟨a, [], states, rfl, .done, hq ▸ .read hnext⟩
    · obtain rfl := Reading.read.inj hq
      obtain ⟨a, before, after, hstates, hfirst, hsecond⟩ := ih rfl rfl
      exact ⟨a, before, after, hstates, .read hfirst, hsecond⟩
  | @written p s t states result hstep hrest ih =>
    obtain ⟨a, before, after, rfl, hfirst, hsecond⟩ := ih hq hresult
    exact ⟨a, t :: before, after, rfl, .written hstep hfirst, by rwa [List.getLastD_cons]⟩

theorem Across.map_ok {g : α → β} (h : Across step (q >>= fun a => pure (g a)) s states (.ok b)) :
    ∃ a, Across step q s states (.ok a) ∧ g a = b := by
  generalize hq : (q >>= fun a => pure (g a)) = p at h
  generalize hresult : Except.ok b = result at h
  induction h generalizing q with
  | @done result s =>
    subst hresult
    rcases q with (e | a) | next
    · cases hq
    · exact ⟨a, .done, Except.ok.inj (Reading.done.inj hq)⟩
    · cases hq
  | @read next s states result hnext ih =>
    rcases q with (e | a) | next'
    · cases hq
    · cases hq
    · obtain rfl := Reading.read.inj hq
      obtain ⟨a, hfirst, ha⟩ := ih rfl hresult
      exact ⟨a, .read hfirst, ha⟩
  | written hstep _ ih =>
    obtain ⟨a, hfirst, ha⟩ := ih hq hresult
    exact ⟨a, .written hstep hfirst, ha⟩

theorem Across.query_bind_ok {g : S → Except ε α} (h : Across step (query g >>= f) s states (.ok b)) :
    ∃ a before after, states = before ++ after ∧ g (before.getLastD s) = .ok a ∧
      Across step (f a) (before.getLastD s) after (.ok b) := by
  generalize hq : query g >>= f = q at h
  generalize hresult : Except.ok b = result at h
  induction h with
  | done => cases hq
  | @read next s states result hnext _ =>
    obtain rfl := Reading.read.inj hq
    subst hresult
    have hnext : Across step (Reading.done (g s) >>= f) s states (.ok b) := hnext
    cases hread : g s with
    | error e =>
      rw [hread] at hnext
      cases hnext.done_eq
    | ok a =>
      rw [hread] at hnext
      exact ⟨a, [], states, rfl, hread, hnext⟩
  | written hstep _ ih =>
    obtain ⟨a, before, after, rfl, hread, hrest⟩ := ih hq hresult
    exact ⟨a, _ :: before, after, rfl, by rwa [List.getLastD_cons], by rwa [List.getLastD_cons]⟩

theorem getLastD_append (before after : List S) (s : S) :
    (before ++ after).getLastD s = after.getLastD (before.getLastD s) := by
  simp only [List.getLastD_eq_getLast?, List.getLast?_append]
  cases after.getLast? <;> rfl

theorem mem_states_of_first {u : S} {before after : List S} (h : u ∈ s :: before) : u ∈ s :: (before ++ after) := by
  rw [← List.cons_append]
  exact List.mem_append_left _ h

theorem mem_states_of_second {u : S} {before after : List S} (h : u ∈ before.getLastD s :: after) :
    u ∈ s :: (before ++ after) := by
  rw [← List.cons_append, List.mem_append]
  rcases List.mem_cons.1 h with rfl | h
  · exact Or.inl List.getLastD_mem_cons
  · exact Or.inr h

theorem Across.related (hrefl : ∀ s, R s s) (htrans : ∀ {s t u}, R s t → R t u → R s u)
    (h : Across R q s states result) :
    ∀ u ∈ s :: states, R s u ∧ R u (states.getLastD s) := by
  induction h with
  | @done result s =>
    intro u hu
    obtain rfl := List.mem_singleton.1 hu
    exact ⟨hrefl u, hrefl u⟩
  | read _ ih => exact ih
  | @written q s t states result hstep hrest ih =>
    intro u hu
    rw [List.getLastD_cons]
    rcases List.mem_cons.1 hu with rfl | hu
    · exact ⟨hrefl u, htrans hstep (ih t List.mem_cons_self).2⟩
    · exact ⟨htrans hstep (ih u hu).1, (ih u hu).2⟩

theorem Across.after : ∀ {batch : List S} {s : S}, Across step q (batch.getLastD s) states result →
    (s :: batch).IsChain step → Across step q s (batch ++ states) result
  | [], _, hq, _ => hq
  | t :: batch, s, hq, hchain => by
    obtain ⟨hstep, hrest⟩ := List.isChain_cons_cons.1 hchain
    rw [List.getLastD_cons] at hq
    exact .written hstep (hq.after hrest)

theorem across_among : ∀ (q : Reading S ε α) {batches : List (List S)} {s : S},
    (s :: batches.flatten).IsChain step → Across step q s batches.flatten (q.among batches s)
  | .done result, batches, s, hchain => by
    have hwrites : Across step (.done result) s (batches.flatten ++ []) result := .after .done hchain
    rwa [List.append_nil] at hwrites
  | .read next, [], s, hchain => .read (across_among (next s) hchain)
  | .read next, batch :: rest, s, hchain => by
    rw [List.flatten_cons, ← List.cons_append] at hchain
    obtain ⟨hbatch, hrest, hlink⟩ := List.isChain_append.1 hchain
    have hlast : (s :: batch).getLast? = some (batch.getLastD s) := by
      rw [List.getLast?_cons, List.getLastD_eq_getLast?]
    have hrest : (batch.getLastD s :: rest.flatten).IsChain step := List.isChain_cons.2 ⟨hlink _ hlast, hrest⟩
    exact .after (.read (across_among (next (batch.getLastD s)) hrest)) hbatch

end across

/-! ### A call among events -/

section amid
variable {T A O : Type} (m : Machine T A O) (part : T → S)

/-- The result of a call on a part of a machine's state, where a batch of events comes before each read. -/
def amid : Reading S ε α → List (List A) → T → Except ε α
  | done result, _, _ => result
  | read next, [], t => (next (part t)).amid [] t
  | read next, batch :: rest, t => (next (part (m.exec t batch))).amid rest (m.exec t batch)

theorem amid_nil (t : T) : ∀ q : Reading S ε α, q.amid m part [] t = q.eval (part t)
  | done _ => rfl
  | read next => amid_nil t (next (part t))

variable {m part} {I : T → Prop} {R : S → S → Prop}
  (hstep : ∀ t a, I t → I (m.next t a) ∧ R (part t) (part (m.next t a)))
include hstep

theorem Across.after_events {q : Reading S ε α} {states : List S} {result : Except ε α} (events : List A) :
    ∀ {t : T}, I t → Across R q (part (m.exec t events)) states result →
      ∃ all, Across R q (part t) all result ∧ all.getLastD (part t) = states.getLastD (part (m.exec t events)) := by
  induction events with
  | nil => exact fun _ hq => ⟨states, hq, rfl⟩
  | cons a rest ih =>
    intro t ht hq
    obtain ⟨hnext, hrelated⟩ := hstep t a ht
    obtain ⟨all, hall, hlast⟩ := ih hnext hq
    exact ⟨part (m.next t a) :: all, .written hrelated hall, by rw [List.getLastD_cons, hlast, Machine.exec_cons]⟩

/-- A call among events is one across the parts of the states they lead through. -/
theorem across_amid : ∀ (q : Reading S ε α) (batches : List (List A)) {t : T}, I t →
    ∃ states, Across R q (part t) states (q.amid m part batches t) ∧
      states.getLastD (part t) = part (m.exec t batches.flatten)
  | .done _, batches, _, ht => Across.after_events hstep batches.flatten ht .done
  | .read next, [], t, ht => by
    obtain ⟨states, hstates, hlast⟩ := across_amid (next (part t)) [] ht
    exact ⟨states, .read hstates, hlast⟩
  | .read next, batch :: rest, t, ht => by
    have hbatch : I (m.exec t batch) := m.exec_invariant (fun t a ht => (hstep t a ht).1) ht batch
    obtain ⟨states, hstates, hlast⟩ := across_amid (next (part (m.exec t batch))) rest hbatch
    obtain ⟨all, hall, hsame⟩ := Across.after_events hstep batch ht (.read hstates)
    exact ⟨all, hall, by rw [hsame, hlast, List.flatten_cons, Machine.exec_append]⟩

end amid

/-! ### Reads that are not disturbed -/

/-- On the way of the result on `s`, every read is the same on the states related to `s`. -/
def Steady (R : S → S → Prop) (s : S) : Reading S ε α → Prop
  | done _ => True
  | read next => (∀ t, R s t → next t = next s) ∧ (next s).Steady R s

section steady
variable {R : S → S → Prop} {s t : S}

theorem Steady.done (result : Except ε α) : (Reading.done result : Reading S ε α).Steady R s := trivial

theorem Steady.query {f : S → Except ε α} (h : ∀ t, R s t → f t = f s) : (query f).Steady R s :=
  ⟨fun t ht => congrArg Reading.done (h t ht), trivial⟩

theorem Steady.bind {f : α → Reading S ε β} : ∀ {q : Reading S ε α}, q.Steady R s →
    (∀ a, q.eval s = .ok a → (f a).Steady R s) → (q >>= f).Steady R s
  | .done (.ok a), _, hf => hf a rfl
  | .done (.error _), _, _ => trivial
  | .read _, hq, hf => ⟨fun t ht => congrArg (Reading.bind · f) (hq.1 t ht), hq.2.bind hf⟩

theorem Steady.eval_eq (ht : R s t) : ∀ {q : Reading S ε α}, q.Steady R s → q.eval t = q.eval s
  | .done _, _ => rfl
  | .read next, hq => by
    rw [eval, eval, hq.1 t ht]
    exact hq.2.eval_eq ht

/-- A call that is not disturbed computes what it computes on one store. -/
theorem Across.eq_eval {step : S → S → Prop} {q : Reading S ε α} {states : List S} {result : Except ε α}
    (h : Across step q t states result) (hq : q.Steady R s) (hstates : ∀ u ∈ t :: states, R s u) :
    result = q.eval s := by
  induction h with
  | done => rfl
  | @read next t states result _ ih =>
    rw [hq.1 t (hstates t List.mem_cons_self)] at ih
    exact ih hq.2 hstates
  | written _ _ ih => exact ih hq fun u hu => hstates u (List.mem_cons_of_mem _ hu)

end steady

end Reading

end AhlMirror.Core

import AhlMirror.Merkle.Root

/-!
# Opening a tree through a node store

A prover that consults a store of perfect-subtree roots is a `NodeQuery`: it asks for nodes
`(level, index)`, is told each one's hash or that it is not held, and answers. `subtreeWalk`,
`pathWalk` and `subproofWalk` are the RFC 6962 root, the RFC 6962 audit path and the RFC 9162
consistency path in that form: a perfect subtree aligned at its own size is asked for first, and
only where the answer is "not held" is it split.

Two facts carry every use. The walks ask only for perfect subtrees inside their span (`Asks`), and
against any reader that is sound there and holds the leaves (`Opens`) they compute the tree's own
values (`spanRoot`, `auditPath`, `subproof`), however many of the higher nodes are held.
-/

namespace AhlMirror.Merkle

/-- A computation that consults a node store. -/
inductive NodeQuery (H α : Type) where
  | done (result : α)
  | ask (level index : Nat) (next : Option H → NodeQuery H α)

namespace NodeQuery

variable {H α β ε σ : Type}

/-- The result against a fixed reader. -/
def eval (get : Nat → Nat → Option H) : NodeQuery H α → α
  | done result => result
  | ask level index next => (next (get level index)).eval get

/-- The result against a reader that carries a state. -/
def run (reader : Nat → Nat → σ → Option H × σ) : NodeQuery H α → σ → α × σ
  | done result, s => (result, s)
  | ask level index next, s => (next (reader level index s).1).run reader (reader level index s).2

/-- Sequencing, stopping at the first error. -/
def andThen (q : NodeQuery H (Except ε α)) (f : α → NodeQuery H (Except ε β)) : NodeQuery H (Except ε β) :=
  match q with
  | done (.ok a) => f a
  | done (.error e) => done (.error e)
  | ask level index next => ask level index fun answer => (next answer).andThen f

/-- Every node the computation can ask for satisfies `P`. -/
def Asks (P : Nat → Nat → Prop) : NodeQuery H α → Prop
  | done _ => True
  | ask level index next => P level index ∧ ∀ answer, (next answer).Asks P

@[simp] theorem asks_done (P : Nat → Nat → Prop) (result : α) : (done result : NodeQuery H α).Asks P := trivial

theorem Asks.mono {P Q : Nat → Nat → Prop} (h : ∀ level index, P level index → Q level index) :
    ∀ {q : NodeQuery H α}, q.Asks P → q.Asks Q
  | done _, _ => trivial
  | ask level index _, hq => ⟨h level index hq.1, fun answer => (hq.2 answer).mono h⟩

theorem Asks.andThen {P : Nat → Nat → Prop} {f : α → NodeQuery H (Except ε β)} (hf : ∀ a, (f a).Asks P) :
    ∀ {q : NodeQuery H (Except ε α)}, q.Asks P → (q.andThen f).Asks P
  | done (.ok a), _ => hf a
  | done (.error _), _ => trivial
  | ask _ _ _, hq => ⟨hq.1, fun answer => (hq.2 answer).andThen hf⟩

theorem eval_andThen (get : Nat → Nat → Option H) (f : α → NodeQuery H (Except ε β)) :
    ∀ q : NodeQuery H (Except ε α), (q.andThen f).eval get =
      match q.eval get with
      | .ok a => (f a).eval get
      | .error e => .error e
  | done (.ok _) => rfl
  | done (.error _) => rfl
  | ask level index next => eval_andThen get f (next (get level index))

theorem run_andThen (reader : Nat → Nat → σ → Option H × σ) (f : α → NodeQuery H (Except ε β)) :
    ∀ (q : NodeQuery H (Except ε α)) (s : σ), (q.andThen f).run reader s =
      match q.run reader s with
      | (.ok a, s') => (f a).run reader s'
      | (.error e, s') => (.error e, s')
  | done (.ok _), _ => rfl
  | done (.error _), _ => rfl
  | ask level index next, s => run_andThen reader f (next (reader level index s).1) (reader level index s).2

/-- A stateful reader that answers as `get` does, on the nodes the computation asks for, computes
the same result, and an invariant its answers keep holds afterwards. -/
theorem run_eq_eval {P : Nat → Nat → Prop} {I : σ → Prop} {get : Nat → Nat → Option H}
    {reader : Nat → Nat → σ → Option H × σ}
    (hread : ∀ level index s, P level index → I s →
      (reader level index s).1 = get level index ∧ I (reader level index s).2) :
    ∀ {q : NodeQuery H α} {s : σ}, q.Asks P → I s → (q.run reader s).1 = q.eval get ∧ I (q.run reader s).2
  | done _, _, _, hs => ⟨rfl, hs⟩
  | ask level index next, s, hq, hs => by
    obtain ⟨hget, hinv⟩ := hread level index s hq.1 hs
    rw [run, eval, hget]
    exact run_eq_eval hread (hq.2 _) hinv

/-- The nodes the computation asks a fixed reader for. -/
def asked (get : Nat → Nat → Option H) : NodeQuery H α → List (Nat × Nat)
  | done _ => []
  | ask level index next => (level, index) :: (next (get level index)).asked get

theorem run_congr {P : Nat → Nat → Prop} {reader whole : Nat → Nat → σ → Option H × σ}
    (hread : ∀ level index s, P level index → reader level index s = whole level index s) :
    ∀ {q : NodeQuery H α} {s : σ}, q.Asks P → q.run reader s = q.run whole s
  | done _, _, _ => rfl
  | ask level index next, s, hq => by
    rw [run, run, hread level index s hq.1]
    exact run_congr hread (hq.2 _)

theorem run_flagged {Flagged : σ → Prop} {reader : Nat → Nat → σ → Option H × σ}
    (hstay : ∀ level index s, Flagged s → Flagged (reader level index s).2) :
    ∀ {q : NodeQuery H α} {s : σ}, Flagged s → Flagged (q.run reader s).2
  | done _, _, hs => hs
  | ask level index next, s, hs => by
    rw [run]
    exact run_flagged hstay (hstay level index s hs)

theorem run_congr_or_flagged {P : Nat → Nat → Prop} {I Flagged : σ → Prop}
    {reader whole : Nat → Nat → σ → Option H × σ}
    (hstay : ∀ level index s, Flagged s → Flagged (reader level index s).2)
    (hread : ∀ level index s, P level index → I s →
      (reader level index s = whole level index s ∧ I (whole level index s).2) ∨ Flagged (reader level index s).2) :
    ∀ {q : NodeQuery H α} {s : σ}, q.Asks P → I s → q.run reader s = q.run whole s ∨ Flagged (q.run reader s).2
  | done _, _, _, _ => Or.inl rfl
  | ask level index next, s, hq, hs => by
    rcases hread level index s hq.1 hs with ⟨hsame, hinv⟩ | hflag
    · rw [run, run, hsame]
      exact run_congr_or_flagged hstay hread (hq.2 _) hinv
    · right
      rw [run]
      exact run_flagged hstay hflag

/-- A reader that answers every node as another one does, or raises a flag that no later answer takes
down, computes what the other computes with every answer it got a node of `get`, or ends with its flag
raised. -/
theorem run_or_flagged {P : Nat → Nat → Prop} {I Flagged : σ → Prop} {get : Nat → Nat → Option H}
    {reader whole : Nat → Nat → σ → Option H × σ}
    (hstay : ∀ level index s, Flagged s → Flagged (reader level index s).2)
    (hread : ∀ level index s, P level index → I s →
      (∃ hash, get level index = some hash ∧ (reader level index s).1 = some hash ∧
        reader level index s = whole level index s ∧ I (whole level index s).2) ∨
      Flagged (reader level index s).2) :
    ∀ {q : NodeQuery H α} {s : σ}, q.Asks P → I s →
      (q.run reader s = q.run whole s ∧ I (q.run whole s).2 ∧
        ∀ node ∈ q.asked get, (get node.1 node.2).isSome) ∨ Flagged (q.run reader s).2
  | done _, s, _, hs => Or.inl ⟨rfl, hs, by simp [asked]⟩
  | ask level index next, s, hq, hs => by
    rcases hread level index s hq.1 hs with ⟨hash, hget, hanswer, hsame, hinv⟩ | hflag
    · have hwhole : (whole level index s).1 = some hash := hsame ▸ hanswer
      rw [run, run, asked, hsame, hwhole, hget]
      rcases run_or_flagged hstay hread (hq.2 (some hash)) hinv with ⟨hrest, hinv, hasked⟩ | hflag
      · refine Or.inl ⟨hrest, hinv, fun node hnode => ?_⟩
        rcases List.mem_cons.1 hnode with rfl | hnode
        · rw [hget]
          rfl
        · exact hasked node hnode
      · exact Or.inr hflag
    · right
      rw [run]
      exact run_flagged hstay hflag

end NodeQuery

/-! ### The walks -/

section walks
variable {H ε : Type} (node : H → H → H) (miss : Nat → ε)

/-- A span that is one perfect subtree, aligned at its own size. -/
def Aligned (offset size : Nat) : Prop := size = 2 ^ Nat.log2 size ∧ offset % size = 0

instance (offset size : Nat) : Decidable (Aligned offset size) := inferInstanceAs (Decidable (_ ∧ _))

open NodeQuery

/-- `subtreeWalk` with explicit fuel. -/
def subtreeWalkFuel : Nat → Nat → Nat → NodeQuery H (Except ε H)
  | 0, offset, _ => done (.error (miss offset))
  | fuel + 1, offset, size =>
    let descend : NodeQuery H (Except ε H) :=
      if size ≤ 1 then done (.error (miss offset))
      else (subtreeWalkFuel fuel offset (splitPoint size)).andThen fun left =>
        (subtreeWalkFuel fuel (offset + splitPoint size) (size - splitPoint size)).andThen fun right =>
          done (.ok (node left right))
    if Aligned offset size then
      ask (Nat.log2 size) (offset / size) fun answer =>
        match answer with
        | some hash => done (.ok hash)
        | none => descend
    else descend

/-- The root of `[offset, offset + size)` opened through a node store; `miss` reports a leaf that is
not held. -/
def subtreeWalk (offset size : Nat) : NodeQuery H (Except ε H) := subtreeWalkFuel node miss size offset size

/-- `pathWalk` with explicit fuel. -/
def pathWalkFuel : Nat → Nat → Nat → Nat → NodeQuery H (Except ε (List H))
  | 0, _, _, _ => done (.ok [])
  | fuel + 1, offset, size, index =>
    if size ≤ 1 then done (.ok [])
    else if index < splitPoint size then
      (pathWalkFuel fuel offset (splitPoint size) index).andThen fun path =>
        (subtreeWalk node miss (offset + splitPoint size) (size - splitPoint size)).andThen fun sibling =>
          done (.ok (path ++ [sibling]))
    else
      (pathWalkFuel fuel (offset + splitPoint size) (size - splitPoint size) (index - splitPoint size)).andThen
        fun path => (subtreeWalk node miss offset (splitPoint size)).andThen fun sibling =>
          done (.ok (path ++ [sibling]))

/-- The audit path of the leaf `offset + index`, leaf to root, opened through a node store. -/
def pathWalk (offset size index : Nat) : NodeQuery H (Except ε (List H)) :=
  pathWalkFuel node miss size offset size index

/-- `subproofWalk` with explicit fuel. -/
def subproofWalkFuel : Nat → Nat → Nat → Nat → Bool → NodeQuery H (Except ε (List H))
  | 0, _, _, _, _ => done (.ok [])
  | fuel + 1, offset, size, old, anchored =>
    if size ≤ old then
      if anchored then done (.ok [])
      else (subtreeWalk node miss offset size).andThen fun root => done (.ok [root])
    else if old ≤ splitPoint size then
      (subproofWalkFuel fuel offset (splitPoint size) old anchored).andThen fun path =>
        (subtreeWalk node miss (offset + splitPoint size) (size - splitPoint size)).andThen fun sibling =>
          done (.ok (path ++ [sibling]))
    else
      (subproofWalkFuel fuel (offset + splitPoint size) (size - splitPoint size) (old - splitPoint size)
        false).andThen fun path => (subtreeWalk node miss offset (splitPoint size)).andThen fun sibling =>
          done (.ok (path ++ [sibling]))

/-- The SUBPROOF of RFC 9162 §2.1.4.1 opened through a node store. -/
def subproofWalk (offset size old : Nat) (anchored : Bool) : NodeQuery H (Except ε (List H)) :=
  subproofWalkFuel node miss size offset size old anchored

/-- The consistency path from size `old` to size `size`: empty for the two trivial pairs. -/
def consistencyWalk (old size : Nat) : NodeQuery H (Except ε (List H)) :=
  if old = 0 ∨ old = size then done (.ok []) else subproofWalk node miss 0 size old true

end walks

/-! ### What the walks compute -/

section paths
variable {H : Type} (node : H → H → H) (leaf : Nat → H)

/-- `auditPath` with explicit fuel. -/
def auditPathFuel : Nat → Nat → Nat → Nat → List H
  | 0, _, _, _ => []
  | fuel + 1, offset, size, index =>
    if size ≤ 1 then []
    else if index < splitPoint size then
      auditPathFuel fuel offset (splitPoint size) index ++
        [spanRoot node leaf (offset + splitPoint size) (size - splitPoint size)]
    else
      auditPathFuel fuel (offset + splitPoint size) (size - splitPoint size) (index - splitPoint size) ++
        [spanRoot node leaf offset (splitPoint size)]

/-- The PATH of RFC 6962 §2.1.1 for the leaf `offset + index` of the span, leaf to root. -/
def auditPath (offset size index : Nat) : List H := auditPathFuel node leaf size offset size index

/-- `subproof` with explicit fuel. -/
def subproofFuel : Nat → Nat → Nat → Nat → Bool → List H
  | 0, _, _, _, _ => []
  | fuel + 1, offset, size, old, anchored =>
    if size ≤ old then
      if anchored then [] else [spanRoot node leaf offset size]
    else if old ≤ splitPoint size then
      subproofFuel fuel offset (splitPoint size) old anchored ++
        [spanRoot node leaf (offset + splitPoint size) (size - splitPoint size)]
    else
      subproofFuel fuel (offset + splitPoint size) (size - splitPoint size) (old - splitPoint size) false ++
        [spanRoot node leaf offset (splitPoint size)]

/-- The SUBPROOF of RFC 9162 §2.1.4.1. -/
def subproof (offset size old : Nat) (anchored : Bool) : List H :=
  subproofFuel node leaf size offset size old anchored

/-- The PROOF of RFC 9162 §2.1.4.1, empty for the two trivial pairs. -/
def consistencyPath (old size : Nat) : List H :=
  if old = 0 ∨ old = size then [] else subproof node leaf 0 size old true

end paths

/-! ### The nodes a walk asks for -/

/-- The perfect subtree `(level, index)` lies inside `[offset, offset + size)`. -/
def InSpan (offset size level index : Nat) : Prop :=
  offset ≤ index * 2 ^ level ∧ (index + 1) * 2 ^ level ≤ offset + size

theorem InSpan.mono {offset size offset' size' level index : Nat} (h : InSpan offset size level index)
    (hlow : offset' ≤ offset) (hhigh : offset + size ≤ offset' + size') : InSpan offset' size' level index :=
  ⟨hlow.trans h.1, h.2.trans hhigh⟩

theorem Aligned.index_mul {offset size : Nat} (h : Aligned offset size) :
    offset / size * 2 ^ Nat.log2 size = offset := by
  obtain ⟨hsize, hmod⟩ := h
  rw [← hsize]
  exact Nat.div_mul_cancel (Nat.dvd_of_mod_eq_zero hmod)

theorem Aligned.inSpan {offset size : Nat} (h : Aligned offset size) :
    InSpan offset size (Nat.log2 size) (offset / size) := by
  refine ⟨h.index_mul.ge, ?_⟩
  rw [Nat.add_mul, h.index_mul, Nat.one_mul, ← h.1]

section correct
variable {H ε : Type} (node : H → H → H) (miss : Nat → ε)

open NodeQuery

theorem subtreeWalkFuel_asks (fuel : Nat) : ∀ offset size : Nat, 1 ≤ size → size ≤ fuel →
    (subtreeWalkFuel node miss fuel offset size).Asks (InSpan offset size) := by
  induction fuel with
  | zero => intro offset size hone hfuel; omega
  | succ fuel ih =>
    intro offset size hone hfuel
    have hdescend : (if size ≤ 1 then done (.error (miss offset))
        else (subtreeWalkFuel node miss fuel offset (splitPoint size)).andThen fun left =>
          (subtreeWalkFuel node miss fuel (offset + splitPoint size) (size - splitPoint size)).andThen
            fun right => done (.ok (node left right)) : NodeQuery H (Except ε H)).Asks
          (InSpan offset size) := by
      split_ifs with hle
      · trivial
      · have hlt := splitPoint_lt (show 2 ≤ size by omega)
        have hpos := splitPoint_pos size
        refine Asks.andThen (fun left => Asks.andThen (fun right => asks_done _ _) ?_) ?_
        · exact (ih _ _ (by omega) (by omega)).mono fun level index h => h.mono (by omega) (by omega)
        · exact (ih _ _ hpos (by omega)).mono fun level index h => h.mono le_rfl (by omega)
    rw [subtreeWalkFuel]
    split_ifs with halign hone' hone'
    · refine ⟨halign.inSpan, fun answer => ?_⟩
      cases answer with
      | some hash => trivial
      | none => simpa only [if_pos hone'] using hdescend
    · refine ⟨halign.inSpan, fun answer => ?_⟩
      cases answer with
      | some hash => trivial
      | none => simpa only [if_neg hone'] using hdescend
    · simpa only [if_pos hone'] using hdescend
    · simpa only [if_neg hone'] using hdescend

theorem subtreeWalk_asks {offset size : Nat} (hsize : 1 ≤ size) :
    (subtreeWalk node miss offset size).Asks (InSpan offset size) :=
  subtreeWalkFuel_asks node miss size offset size hsize le_rfl

theorem pathWalkFuel_asks (fuel : Nat) : ∀ offset size index : Nat,
    (pathWalkFuel node miss fuel offset size index).Asks (InSpan offset size) := by
  induction fuel with
  | zero => intro offset size index; trivial
  | succ fuel ih =>
    intro offset size index
    rw [pathWalkFuel]
    split_ifs with hone hindex
    · trivial
    · have hlt := splitPoint_lt (show 2 ≤ size by omega)
      refine Asks.andThen (fun path => Asks.andThen (fun sibling => asks_done _ _) ?_) ?_
      · exact (subtreeWalk_asks node miss (by omega)).mono fun level index h => h.mono (by omega) (by omega)
      · exact (ih _ _ _).mono fun level index h => h.mono le_rfl (by omega)
    · have hlt := splitPoint_lt (show 2 ≤ size by omega)
      refine Asks.andThen (fun path => Asks.andThen (fun sibling => asks_done _ _) ?_) ?_
      · exact (subtreeWalk_asks node miss (splitPoint_pos size)).mono fun level index h => h.mono le_rfl (by omega)
      · exact (ih _ _ _).mono fun level index h => h.mono (by omega) (by omega)

theorem pathWalk_asks (offset size index : Nat) :
    (pathWalk node miss offset size index).Asks (InSpan offset size) :=
  pathWalkFuel_asks node miss size offset size index

theorem subproofWalkFuel_asks (fuel : Nat) : ∀ (offset size old : Nat) (anchored : Bool), 1 ≤ old → 1 ≤ size →
    (subproofWalkFuel node miss fuel offset size old anchored).Asks (InSpan offset size) := by
  induction fuel with
  | zero => intro offset size old anchored _ _; trivial
  | succ fuel ih =>
    intro offset size old anchored hold hsize
    rw [subproofWalkFuel]
    split_ifs with hle hanch hold'
    · trivial
    · exact Asks.andThen (fun root => asks_done _ _) (subtreeWalk_asks node miss hsize)
    · have hlt := splitPoint_lt (show 2 ≤ size by omega)
      refine Asks.andThen (fun path => Asks.andThen (fun sibling => asks_done _ _) ?_) ?_
      · exact (subtreeWalk_asks node miss (by omega)).mono fun level index h => h.mono (by omega) (by omega)
      · exact (ih _ _ _ _ hold (splitPoint_pos size)).mono fun level index h => h.mono le_rfl (by omega)
    · have hlt := splitPoint_lt (show 2 ≤ size by omega)
      refine Asks.andThen (fun path => Asks.andThen (fun sibling => asks_done _ _) ?_) ?_
      · exact (subtreeWalk_asks node miss (splitPoint_pos size)).mono fun level index h => h.mono le_rfl (by omega)
      · exact (ih _ _ _ _ (by omega) (by omega)).mono fun level index h => h.mono (by omega) (by omega)

theorem consistencyWalk_asks (old size : Nat) : (consistencyWalk node miss old size).Asks (InSpan 0 size) := by
  unfold consistencyWalk
  split_ifs with h
  · trivial
  · cases size with
    | zero => trivial
    | succ size => exact subproofWalkFuel_asks node miss (size + 1) 0 (size + 1) old true (by omega) (by omega)

/-! ### The values a walk computes -/

/-- A reader that is sound on the perfect subtrees below `bound` and holds every leaf below it. -/
structure Opens (leaf : Nat → H) (bound : Nat) (get : Nat → Nat → Option H) : Prop where
  sound : ∀ level index hash, (index + 1) * 2 ^ level ≤ bound → get level index = some hash →
    hash = nodeRoot node leaf level index
  leaves : ∀ index, index < bound → get 0 index = some (leaf index)

variable {leaf : Nat → H} {bound : Nat} {get : Nat → Nat → Option H}

theorem subtreeWalkFuel_eval (hget : Opens node leaf bound get) (fuel : Nat) : ∀ offset size : Nat, 1 ≤ size →
    size ≤ fuel → offset + size ≤ bound →
      (subtreeWalkFuel node miss fuel offset size).eval get = .ok (spanRoot node leaf offset size) := by
  induction fuel with
  | zero => intro offset size hone hfuel; omega
  | succ fuel ih =>
    intro offset size hone hfuel hbound
    -- the split, where the node itself is not held
    have hdescend : 2 ≤ size → ((subtreeWalkFuel node miss fuel offset (splitPoint size)).andThen fun left =>
        (subtreeWalkFuel node miss fuel (offset + splitPoint size) (size - splitPoint size)).andThen
          fun right => done (.ok (node left right)) : NodeQuery H (Except ε H)).eval get =
            .ok (spanRoot node leaf offset size) := by
      intro htwo
      have hlt := splitPoint_lt htwo
      have hpos := splitPoint_pos size
      rw [eval_andThen, ih _ _ hpos (by omega) (by omega)]
      dsimp only
      rw [eval_andThen, ih _ _ (by omega) (by omega) (by omega), spanRoot_split node leaf offset htwo]
      rfl
    rw [subtreeWalkFuel]
    by_cases halign : Aligned offset size
    · rw [if_pos halign, eval]
      cases hnode : get (Nat.log2 size) (offset / size) with
      | some hash =>
        have hhash := hget.sound _ _ _ (halign.inSpan.2.trans hbound) hnode
        rw [nodeRoot, halign.index_mul, ← halign.1] at hhash
        simp only [eval, hhash]
      | none =>
        by_cases hle : size ≤ 1
        · obtain rfl : size = 1 := by omega
          have hleaf := hget.leaves offset (by omega)
          rw [show Nat.log2 1 = 0 by decide, Nat.div_one, hleaf] at hnode
          cases hnode
        · simp only [if_neg hle]
          exact hdescend (by omega)
    · rw [if_neg halign]
      have hle : ¬ size ≤ 1 := by
        intro hle
        obtain rfl : size = 1 := by omega
        exact halign ⟨by decide, Nat.mod_one _⟩
      simp only [if_neg hle]
      exact hdescend (by omega)

theorem subtreeWalk_eval (hget : Opens node leaf bound get) {offset size : Nat} (hsize : 1 ≤ size)
    (hbound : offset + size ≤ bound) :
    (subtreeWalk node miss offset size).eval get = .ok (spanRoot node leaf offset size) :=
  subtreeWalkFuel_eval node miss hget size offset size hsize le_rfl hbound

theorem pathWalkFuel_eval (hget : Opens node leaf bound get) (fuel : Nat) : ∀ offset size index : Nat,
    offset + size ≤ bound →
      (pathWalkFuel node miss fuel offset size index).eval get =
        .ok (auditPathFuel node leaf fuel offset size index) := by
  induction fuel with
  | zero => intro offset size index _; rfl
  | succ fuel ih =>
    intro offset size index hbound
    rw [pathWalkFuel, auditPathFuel]
    split_ifs with hone hindex
    · rfl
    · have hlt := splitPoint_lt (show 2 ≤ size by omega)
      rw [eval_andThen, ih _ _ _ (by omega)]
      dsimp only
      rw [eval_andThen, subtreeWalk_eval node miss hget (by omega) (by omega)]
      rfl
    · have hlt := splitPoint_lt (show 2 ≤ size by omega)
      rw [eval_andThen, ih _ _ _ (by omega)]
      dsimp only
      rw [eval_andThen, subtreeWalk_eval node miss hget (splitPoint_pos size) (by omega)]
      rfl

theorem pathWalk_eval (hget : Opens node leaf bound get) {offset size : Nat} (index : Nat)
    (hbound : offset + size ≤ bound) :
    (pathWalk node miss offset size index).eval get = .ok (auditPath node leaf offset size index) :=
  pathWalkFuel_eval node miss hget size offset size index hbound

theorem subproofWalkFuel_eval (hget : Opens node leaf bound get) (fuel : Nat) :
    ∀ (offset size old : Nat) (anchored : Bool), 1 ≤ old → 1 ≤ size → offset + size ≤ bound →
      (subproofWalkFuel node miss fuel offset size old anchored).eval get =
        .ok (subproofFuel node leaf fuel offset size old anchored) := by
  induction fuel with
  | zero => intro offset size old anchored _ _ _; rfl
  | succ fuel ih =>
    intro offset size old anchored hold hsize hbound
    rw [subproofWalkFuel, subproofFuel]
    split_ifs with hle hanch hold'
    · rfl
    · rw [eval_andThen, subtreeWalk_eval node miss hget hsize hbound]
      rfl
    · have hlt := splitPoint_lt (show 2 ≤ size by omega)
      rw [eval_andThen, ih _ _ _ _ hold (splitPoint_pos size) (by omega)]
      dsimp only
      rw [eval_andThen, subtreeWalk_eval node miss hget (by omega) (by omega)]
      rfl
    · have hlt := splitPoint_lt (show 2 ≤ size by omega)
      rw [eval_andThen, ih _ _ _ _ (by omega) (by omega) (by omega)]
      dsimp only
      rw [eval_andThen, subtreeWalk_eval node miss hget (splitPoint_pos size) (by omega)]
      rfl

theorem consistencyWalk_eval (hget : Opens node leaf bound get) {old size : Nat} (hle : old ≤ size)
    (hbound : size ≤ bound) :
    (consistencyWalk node miss old size).eval get = .ok (consistencyPath node leaf old size) := by
  unfold consistencyWalk consistencyPath
  split_ifs with h
  · rfl
  · exact subproofWalkFuel_eval node miss hget size 0 size old true (by omega) (by omega) (by omega)

end correct

end AhlMirror.Merkle

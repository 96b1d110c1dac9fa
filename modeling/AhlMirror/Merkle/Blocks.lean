import Mathlib.Data.Nat.Bitwise
import AhlMirror.Merkle.Walk

/-!
# The blocks of a prefix

A prefix of `n` leaves is made of one perfect aligned subtree for each set bit of `n`, the largest first
(`blocks`): the maximal ones that lie inside it. Opening its root takes these nodes and no others, in
this order; where one cannot be read, the walk fails on the first of them (`subtreeWalk_run_blocks`).
-/

namespace AhlMirror.Merkle

/-- The block of each set bit of `n` below a level, from the highest down. -/
def blocksBelow (n : Nat) : Nat → List (Nat × Nat)
  | 0 => []
  | level + 1 =>
    if n / 2 ^ level % 2 = 1 then (level, n / 2 ^ level - 1) :: blocksBelow n level else blocksBelow n level

/-- The blocks of `[0, n)`, left to right, each as a level and an index. -/
def blocks (n : Nat) : List (Nat × Nat) := blocksBelow n (Nat.log2 n + 1)

/-- A perfect subtree of `[0, n)` that no other one contains. -/
structure MaximalBlock (n level index : Nat) : Prop where
  inside : (index + 1) * 2 ^ level ≤ n
  maximal : ∀ level' index', (index' + 1) * 2 ^ level' ≤ n → index' * 2 ^ level' ≤ index * 2 ^ level →
    (index + 1) * 2 ^ level ≤ (index' + 1) * 2 ^ level' → level' = level ∧ index' = index

theorem blocksBelow_succ_of_odd {n level : Nat} (h : n / 2 ^ level % 2 = 1) :
    blocksBelow n (level + 1) = (level, n / 2 ^ level - 1) :: blocksBelow n level := by
  rw [blocksBelow, if_pos h]

theorem blocksBelow_succ_of_even {n level : Nat} (h : ¬ n / 2 ^ level % 2 = 1) :
    blocksBelow n (level + 1) = blocksBelow n level := by
  rw [blocksBelow, if_neg h]

theorem start_succ (n level : Nat) : n / 2 ^ (level + 1) * 2 ^ (level + 1) = n / 2 ^ level / 2 * 2 * 2 ^ level := by
  rw [Nat.div_div_eq_div_mul, pow_succ, Nat.mul_comm (2 ^ level), ← Nat.mul_assoc]

theorem mem_blocksBelow {n bound level index : Nat} : (level, index) ∈ blocksBelow n bound ↔
    level < bound ∧ n / 2 ^ level % 2 = 1 ∧ index = n / 2 ^ level - 1 := by
  induction bound with
  | zero => simp [blocksBelow]
  | succ bound ih =>
    by_cases hodd : n / 2 ^ bound % 2 = 1
    · rw [blocksBelow_succ_of_odd hodd, List.mem_cons, ih, Prod.mk.injEq]
      constructor
      · rintro (⟨rfl, rfl⟩ | ⟨hlt, hrest⟩)
        · exact ⟨Nat.lt_succ_self _, hodd, rfl⟩
        · exact ⟨hlt.trans (Nat.lt_succ_self _), hrest⟩
      · rintro ⟨hlt, hbit, rfl⟩
        rcases Nat.lt_or_eq_of_le (Nat.le_of_lt_succ hlt) with hlt | rfl
        · exact Or.inr ⟨hlt, hbit, rfl⟩
        · exact Or.inl ⟨rfl, rfl⟩
    · rw [blocksBelow_succ_of_even hodd, ih]
      constructor
      · rintro ⟨hlt, hrest⟩
        exact ⟨hlt.trans (Nat.lt_succ_self _), hrest⟩
      · rintro ⟨hlt, hbit, hindex⟩
        rcases Nat.lt_or_eq_of_le (Nat.le_of_lt_succ hlt) with hlt | rfl
        · exact ⟨hlt, hbit, hindex⟩
        · exact absurd hbit hodd

theorem blocksBelow_add {n level : Nat} (h : n < 2 ^ level) (more : Nat) :
    blocksBelow n (level + more) = blocksBelow n level := by
  induction more with
  | zero => rfl
  | succ more ih =>
    have hlt : n < 2 ^ (level + more) := h.trans_le (Nat.pow_le_pow_right (by omega) (Nat.le_add_right _ _))
    rw [← Nat.add_assoc, blocksBelow_succ_of_even (by rw [Nat.div_eq_of_lt hlt]; decide), ih]

theorem blocksBelow_eq {n level : Nat} (h : n < 2 ^ level) : blocksBelow n level = blocks n := by
  have hlog : n < 2 ^ (Nat.log2 n + 1) := Nat.lt_log2_self
  unfold blocks
  rcases Nat.le_total level (Nat.log2 n + 1) with hle | hle
  · rw [← Nat.add_sub_cancel' hle, blocksBelow_add h]
  · rw [← Nat.add_sub_cancel' hle, blocksBelow_add hlog]

theorem blocksBelow_eq_nil {n bound : Nat} (h : n % 2 ^ bound = 0) : blocksBelow n bound = [] := by
  apply List.eq_nil_iff_forall_not_mem.2
  rintro ⟨level, index⟩ hmem
  obtain ⟨hlt, hbit, -⟩ := mem_blocksBelow.1 hmem
  obtain ⟨more, rfl⟩ := Nat.exists_eq_add_of_lt hlt
  obtain ⟨q, rfl⟩ := Nat.dvd_of_mod_eq_zero h
  rw [Nat.add_assoc, pow_add, Nat.mul_assoc, Nat.mul_div_cancel_left _ (Nat.two_pow_pos level), pow_succ,
    Nat.mul_right_comm, Nat.mul_mod_left] at hbit
  cases hbit

theorem mem_blocks {n level index : Nat} :
    (level, index) ∈ blocks n ↔ n / 2 ^ level % 2 = 1 ∧ index = n / 2 ^ level - 1 := by
  have hlt : n < 2 ^ (n + level + 1) := Nat.lt_two_pow_self.trans_le (Nat.pow_le_pow_right (by omega) (by omega))
  rw [← blocksBelow_eq hlt, mem_blocksBelow]
  exact and_iff_right (by omega)

theorem mem_blocks_iff_testBit {n level index : Nat} :
    (level, index) ∈ blocks n ↔ n.testBit level = true ∧ index = n / 2 ^ level - 1 := by
  rw [mem_blocks, Nat.testBit_eq_decide_div_mod_eq, decide_eq_true_eq]

theorem one_le_of_odd {q : Nat} (h : q % 2 = 1) : 1 ≤ q := by omega

theorem block_inside {n level index : Nat} (h : (level, index) ∈ blocks n) : (index + 1) * 2 ^ level ≤ n := by
  obtain ⟨hodd, rfl⟩ := mem_blocks.1 h
  rw [Nat.sub_add_cancel (one_le_of_odd hodd)]
  exact Nat.div_mul_le_self n _

/-- The blocks are the maximal perfect subtrees of the prefix. -/
theorem mem_blocks_iff {n level index : Nat} : (level, index) ∈ blocks n ↔ MaximalBlock n level index := by
  have hwidth := Nat.two_pow_pos level
  constructor
  · intro h
    refine ⟨block_inside h, fun level' index' hinside hlow hhigh => ?_⟩
    obtain ⟨hodd, rfl⟩ := mem_blocks.1 h
    rw [Nat.sub_add_cancel (one_le_of_odd hodd)] at hhigh
    have hspan : 2 ^ level ≤ 2 ^ level' := by
      have hend : n / 2 ^ level * 2 ^ level = (n / 2 ^ level - 1) * 2 ^ level + 2 ^ level := by
        rw [← Nat.succ_mul, Nat.succ_eq_add_one, Nat.sub_add_cancel (one_le_of_odd hodd)]
      rw [Nat.add_mul, Nat.one_mul] at hhigh
      omega
    obtain ⟨more, rfl⟩ := Nat.exists_eq_add_of_le ((Nat.pow_le_pow_iff_right (by omega)).1 hspan)
    -- in blocks of the lower level the containing one ends where `n` does
    rw [pow_add, ← Nat.mul_assoc, Nat.mul_right_comm] at hinside hhigh
    have hle := (Nat.le_div_iff_mul_le hwidth).2 hinside
    have hge := Nat.le_of_mul_le_mul_right hhigh hwidth
    cases more with
    | zero => exact ⟨rfl, by rw [pow_zero, Nat.mul_one] at hle hge; omega⟩
    | succ more =>
      have heven : (index' + 1) * 2 ^ (more + 1) = 2 * ((index' + 1) * 2 ^ more) := by
        rw [pow_succ]
        ring
      omega
  · intro h
    have hle := (Nat.le_div_iff_mul_le hwidth).2 h.inside
    -- the parent contains the block, so it reaches beyond `n`
    have hparent : ¬ (index / 2 + 1) * 2 ^ (level + 1) ≤ n := by
      intro hinside
      have hdiv := Nat.div_add_mod index 2
      have hmod := Nat.mod_lt index (show 0 < 2 by omega)
      have hsame := h.maximal (level + 1) (index / 2) hinside
        (by rw [pow_succ, Nat.mul_comm (2 ^ level), ← Nat.mul_assoc]; exact Nat.mul_le_mul_right _ (by omega))
        (by rw [pow_succ, Nat.mul_comm (2 ^ level), ← Nat.mul_assoc]; exact Nat.mul_le_mul_right _ (by omega))
      omega
    have hbeyond : n / 2 ^ level < (index / 2 + 1) * 2 := by
      rw [Nat.div_lt_iff_lt_mul hwidth, Nat.mul_assoc, Nat.mul_comm 2, ← pow_succ]
      omega
    exact mem_blocks.2 ⟨by omega, by omega⟩

theorem pairwise_blocksBelow (n bound : Nat) : (blocksBelow n bound).Pairwise fun a b =>
    b.1 < a.1 ∧ (a.2 + 1) * 2 ^ a.1 ≤ b.2 * 2 ^ b.1 := by
  induction bound with
  | zero => exact List.Pairwise.nil
  | succ bound ih =>
    by_cases hodd : n / 2 ^ bound % 2 = 1
    · rw [blocksBelow_succ_of_odd hodd, List.pairwise_cons]
      refine ⟨?_, ih⟩
      rintro ⟨level, index⟩ hblock
      obtain ⟨hlt, hbit, rfl⟩ := mem_blocksBelow.1 hblock
      refine ⟨hlt, ?_⟩
      obtain ⟨more, rfl⟩ := Nat.exists_eq_add_of_lt hlt
      have hquotient : n / 2 ^ (level + more + 1) = n / 2 ^ level / 2 ^ (more + 1) := by
        rw [Nat.div_div_eq_div_mul, ← pow_add, Nat.add_assoc]
      have hle := Nat.div_mul_le_self (n / 2 ^ level) (2 ^ (more + 1))
      have heven : n / 2 ^ level / 2 ^ (more + 1) * 2 ^ (more + 1) = 2 * (n / 2 ^ level / 2 ^ (more + 1) * 2 ^ more) := by
        rw [pow_succ]
        ring
      have hwidth : 2 ^ (level + more + 1) = 2 ^ (more + 1) * 2 ^ level := by
        rw [← pow_add]
        congr 1
        omega
      dsimp only
      rw [Nat.sub_add_cancel (one_le_of_odd hodd), hquotient, hwidth, ← Nat.mul_assoc]
      apply Nat.mul_le_mul_right
      -- an odd quotient is not twice anything
      generalize n / 2 ^ level = q at hbit hle heven ⊢
      omega
    · rw [blocksBelow_succ_of_even hodd]
      exact ih

theorem pairwise_blocks (n : Nat) : (blocks n).Pairwise fun a b =>
    b.1 < a.1 ∧ (a.2 + 1) * 2 ^ a.1 ≤ b.2 * 2 ^ b.1 := pairwise_blocksBelow n _

theorem blocksBelow_cover (n bound : Nat) : ∀ i, n / 2 ^ bound * 2 ^ bound ≤ i → i < n →
    ∃ block ∈ blocksBelow n bound, block.2 * 2 ^ block.1 ≤ i ∧ i < (block.2 + 1) * 2 ^ block.1 := by
  induction bound with
  | zero =>
    intro i hlow hhigh
    rw [pow_zero, Nat.div_one, Nat.mul_one] at hlow
    omega
  | succ bound ih =>
    intro i hlow hhigh
    rw [start_succ] at hlow
    by_cases hodd : n / 2 ^ bound % 2 = 1
    · obtain ⟨index, hindex⟩ : ∃ index, n / 2 ^ bound = index + 1 := ⟨_, (Nat.sub_add_cancel (one_le_of_odd hodd)).symm⟩
      have hhalf : (index + 1) / 2 * 2 = index := by omega
      rw [hindex, hhalf] at hlow
      rw [blocksBelow_succ_of_odd hodd, hindex, Nat.add_sub_cancel]
      by_cases hblock : i < (index + 1) * 2 ^ bound
      · exact ⟨_, List.mem_cons_self, hlow, hblock⟩
      · obtain ⟨block, hmem, hwithin⟩ := ih i (by rw [hindex]; omega) hhigh
        exact ⟨block, List.mem_cons_of_mem _ hmem, hwithin⟩
    · have hhalf : n / 2 ^ bound / 2 * 2 = n / 2 ^ bound := Nat.div_mul_cancel (Nat.dvd_of_mod_eq_zero (by omega))
      rw [hhalf] at hlow
      rw [blocksBelow_succ_of_even hodd]
      exact ih i hlow hhigh

theorem blocks_cover {n i : Nat} (h : i < n) :
    ∃ block ∈ blocks n, block.2 * 2 ^ block.1 ≤ i ∧ i < (block.2 + 1) * 2 ^ block.1 := by
  have hlt : n < 2 ^ n := Nat.lt_two_pow_self
  rw [← blocksBelow_eq hlt]
  apply blocksBelow_cover n n i _ h
  rw [Nat.div_eq_of_lt hlt, Nat.zero_mul]
  exact Nat.zero_le i

/-! ### Opening the root -/

section walk
variable {H E ε σ : Type} (node : H → H → H) (miss : Nat → ε)

/-- A reader that answers a node of the prefix where it has no fault, and fails for good where it has. -/
structure Reads (n : Nat) (reader : Nat → Nat → σ → Option H × σ) (fault : Nat × Nat → Option E) (Clean : σ → Prop)
    (Failed : E → σ → Prop) : Prop where
  answers : ∀ level index s, (index + 1) * 2 ^ level ≤ n → Clean s → fault (level, index) = none →
    (∃ hash, (reader level index s).1 = some hash) ∧ Clean (reader level index s).2
  fails : ∀ level index s e, (index + 1) * 2 ^ level ≤ n → Clean s → fault (level, index) = some e →
    Failed e (reader level index s).2
  stays : ∀ level index s e, Failed e s → Failed e (reader level index s).2

/-- A run ends with a value where there was no fault, and failed by the fault there was. -/
def EndsWith {α : Type} (Clean : σ → Prop) (Failed : E → σ → Prop) (fault : Option E) (out : Except ε α × σ) : Prop :=
  match fault with
  | none => (∃ value, out.1 = .ok value) ∧ Clean out.2
  | some e => Failed e out.2

variable {node miss} {n : Nat} {reader : Nat → Nat → σ → Option H × σ} {fault : Nat × Nat → Option E} {Clean : σ → Prop}
  {Failed : E → σ → Prop}

open NodeQuery

theorem EndsWith.andThen (h : Reads n reader fault Clean Failed) {α β : Type} {first second : Option E}
    {q : NodeQuery H (Except ε α)} {f : α → NodeQuery H (Except ε β)} {s : σ}
    (hq : EndsWith Clean Failed first (q.run reader s))
    (hf : ∀ a t, Clean t → EndsWith Clean Failed second ((f a).run reader t)) :
    EndsWith Clean Failed (first.or second) ((q.andThen f).run reader s) := by
  rw [run_andThen]
  rcases hrun : q.run reader s with ⟨value, t⟩
  rw [hrun] at hq
  cases first with
  | none =>
    obtain ⟨⟨a, rfl⟩, hclean⟩ := hq
    exact hf a t hclean
  | some e =>
    cases value with
    | error e' => exact hq
    | ok a => exact run_flagged (fun level index s => h.stays level index s e) hq

theorem subtreeWalkFuel_run_block (h : Reads n reader fault Clean Failed) {level index : Nat}
    (hinside : (index + 1) * 2 ^ level ≤ n) {s : σ} (hs : Clean s) (fuel : Nat) :
    EndsWith Clean Failed (fault (level, index))
      ((subtreeWalkFuel node miss (fuel + 1) (index * 2 ^ level) (2 ^ level)).run reader s) := by
  have hwidth := Nat.two_pow_pos level
  have halign : Aligned (index * 2 ^ level) (2 ^ level) := ⟨by rw [Nat.log2_two_pow], Nat.mul_mod_left _ _⟩
  rw [subtreeWalkFuel, if_pos halign, run, Nat.log2_two_pow, Nat.mul_div_cancel _ hwidth]
  cases hfault : fault (level, index) with
  | none =>
    obtain ⟨⟨hash, hanswer⟩, hclean⟩ := h.answers level index s hinside hs hfault
    rw [hanswer]
    exact ⟨⟨hash, rfl⟩, hclean⟩
  | some e => exact run_flagged (fun level index s => h.stays level index s e) (h.fails level index s e hinside hs hfault)

theorem subtreeWalkFuel_run_split (h : Reads n reader fault Clean Failed) {level index rest : Nat}
    (hinside : (index + 1) * 2 ^ level ≤ n) (hrest : 1 ≤ rest) (hlt : rest < 2 ^ level) {s : σ} (hs : Clean s)
    {fuel : Nat} {second : Option E}
    (hright : ∀ t, Clean t →
      EndsWith Clean Failed second ((subtreeWalkFuel node miss (fuel + 1) ((index + 1) * 2 ^ level) rest).run reader t)) :
    EndsWith Clean Failed ((fault (level, index)).or second)
      ((subtreeWalkFuel node miss (fuel + 1 + 1) (index * 2 ^ level) (rest + 2 ^ level)).run reader s) := by
  have hsplit : splitPoint (rest + 2 ^ level) = 2 ^ level := splitPoint_eq (by omega) (by rw [pow_succ]; omega)
  have halign : ¬ Aligned (index * 2 ^ level) (rest + 2 ^ level) := by
    rintro ⟨hsize, -⟩
    have hlog : Nat.log2 (rest + 2 ^ level) = level := by
      rw [Nat.log2_eq_iff (by omega), pow_succ]
      omega
    rw [hlog] at hsize
    omega
  rw [subtreeWalkFuel, if_neg halign, if_neg (by omega), hsplit, ← Nat.succ_mul, Nat.succ_eq_add_one, Nat.add_sub_cancel]
  apply EndsWith.andThen h (subtreeWalkFuel_run_block h hinside hs fuel)
  intro left t ht
  rw [← Option.or_none (o := second)]
  apply EndsWith.andThen h (hright t ht)
  intro right u hu
  exact ⟨⟨node left right, rfl⟩, hu⟩

variable (node miss) in
theorem subtreeWalkFuel_run_blocksBelow (h : Reads n reader fault Clean Failed) (bound : Nat) :
    ∀ (fuel : Nat) (s : σ), Clean s → 1 ≤ n % 2 ^ bound → n % 2 ^ bound ≤ fuel →
      EndsWith Clean Failed ((blocksBelow n bound).findSome? fault)
        ((subtreeWalkFuel node miss fuel (n / 2 ^ bound * 2 ^ bound) (n % 2 ^ bound)).run reader s) := by
  induction bound with
  | zero =>
    intro fuel s _ hpos
    rw [pow_zero, Nat.mod_one] at hpos
    omega
  | succ bound ih =>
    intro fuel s hs hpos hfuel
    have hmod : n % 2 ^ (bound + 1) = n % 2 ^ bound + 2 ^ bound * (n / 2 ^ bound % 2) := by rw [pow_succ, Nat.mod_mul]
    have hlt := Nat.mod_lt n (Nat.two_pow_pos bound)
    by_cases hodd : n / 2 ^ bound % 2 = 1
    · obtain ⟨index, hindex⟩ : ∃ index, n / 2 ^ bound = index + 1 := ⟨_, (Nat.sub_add_cancel (one_le_of_odd hodd)).symm⟩
      have hinside : (index + 1) * 2 ^ bound ≤ n := by
        rw [← hindex]
        exact Nat.div_mul_le_self n _
      have hhalf : (index + 1) / 2 * 2 = index := by omega
      have hcons : (((bound, index) :: blocksBelow n bound).findSome? fault) =
          (fault (bound, index)).or ((blocksBelow n bound).findSome? fault) := by
        rw [List.findSome?_cons]
        cases fault (bound, index) <;> rfl
      rw [hodd, Nat.mul_one] at hmod
      rw [hmod] at hpos hfuel ⊢
      rw [start_succ, blocksBelow_succ_of_odd hodd, hindex, hhalf, Nat.add_sub_cancel, hcons]
      obtain ⟨fuel, rfl⟩ : ∃ m, fuel = m + 1 := ⟨fuel - 1, by omega⟩
      rcases Nat.eq_zero_or_pos (n % 2 ^ bound) with hzero | hmore
      · -- the last block
        rw [hzero, Nat.zero_add, blocksBelow_eq_nil hzero, List.findSome?_nil, Option.or_none]
        exact subtreeWalkFuel_run_block h hinside hs fuel
      · -- the block is the left half, and the blocks after it are the right one
        obtain ⟨fuel, rfl⟩ : ∃ m, fuel = m + 1 := ⟨fuel - 1, by omega⟩
        apply subtreeWalkFuel_run_split h hinside hmore hlt hs
        intro t ht
        rw [← hindex]
        exact ih (fuel + 1) t ht hmore (by omega)
    · have hzero : n / 2 ^ bound % 2 = 0 := by omega
      have hhalf : n / 2 ^ bound / 2 * 2 = n / 2 ^ bound := Nat.div_mul_cancel (Nat.dvd_of_mod_eq_zero hzero)
      rw [hzero, Nat.mul_zero, Nat.add_zero] at hmod
      rw [hmod] at hpos hfuel ⊢
      rw [start_succ, hhalf, blocksBelow_succ_of_even hodd]
      exact ih fuel s hs hpos hfuel

variable (node miss) in
/-- The root of a prefix is opened from its blocks: the first fault among them is what the walk fails by. -/
theorem subtreeWalk_run_blocks (h : Reads n reader fault Clean Failed) (hone : 1 ≤ n) {s : σ} (hs : Clean s) :
    EndsWith Clean Failed ((blocks n).findSome? fault) ((subtreeWalk node miss 0 n).run reader s) := by
  have hlt : n < 2 ^ n := Nat.lt_two_pow_self
  have hwalk := subtreeWalkFuel_run_blocksBelow node miss h n n s hs
  rw [blocksBelow_eq hlt, Nat.div_eq_of_lt hlt, Nat.zero_mul, Nat.mod_eq_of_lt hlt] at hwalk
  exact hwalk hone le_rfl

end walk

end AhlMirror.Merkle

import AhlMirror.Merkle.Blocks
import AhlMirror.Store.Missing

/-!
# The check of the cache before a root

`require_subtree_cache_raw` looks up the blocks of a prefix that lie above the leaves, from left to right,
and stops at the first that is not held. Opening the prefix's root reads the same blocks and then, where
the size is odd, one leaf: it succeeds where the check does and fails by the block the check names
(`cache_check_exact`).
-/

namespace AhlMirror

open Merkle

variable {H K : Type} [HashOctets H]

/-- The blocks of a prefix above the leaves. -/
def cacheBlocks (n : Nat) : List (Nat × Nat) := (blocks n).filter fun block => decide (1 ≤ block.1)

theorem mem_cacheBlocks {n level index : Nat} :
    (level, index) ∈ cacheBlocks n ↔ 1 ≤ level ∧ n / 2 ^ level % 2 = 1 ∧ index = n / 2 ^ level - 1 := by
  unfold cacheBlocks
  rw [List.mem_filter, decide_eq_true_eq, mem_blocks, and_comm]

theorem cacheBlocks_inside {n level index : Nat} (h : (level, index) ∈ cacheBlocks n) : (index + 1) * 2 ^ level ≤ n :=
  block_inside (List.mem_of_mem_filter h)

variable (H) in
/-- What the reading of a node fails by. -/
def nodeFault (db : Db) (block : Nat × Nat) : Option MirrorError :=
  match treeNodeRaw (H := H) db block.1 block.2 with
  | .ok (some _) => none
  | .ok none => some (.treeMaterialMissing block.1 block.2)
  | .error e => some e

/-! ### The nodes looked up -/

section reader
variable {σ : Type} (reader : Nat → Nat → σ → MirrorResult (Option H) × σ)

/-- The loop of `require_subtree_cache_raw` over any reader of nodes. -/
def requireSubtreeCacheLoopBy (treeSize : Nat) : Nat → Nat → σ → MirrorResult Unit × σ
  | 0, _, s => (.ok (), s)
  | level + 1, offset, s =>
    match checkedShlOne (level + 1) with
    | none => requireSubtreeCacheLoopBy treeSize level offset s
    | some width =>
      if (checkedDiv treeSize width).getD 0 % 2 = 0 then requireSubtreeCacheLoopBy treeSize level offset s
      else
        match checkedDiv offset width with
        | none => (.error (.indexOverflow "subtree cache block index"), s)
        | some nodeIndex =>
          match reader (level + 1) nodeIndex s with
          | (.error e, s) => (.error e, s)
          | (.ok none, s) => (.error (.treeMaterialMissing (level + 1) nodeIndex), s)
          | (.ok (some _), s) =>
            match checkedAdd offset width with
            | none => (.error (.indexOverflow "subtree cache block offset"), s)
            | some offset => requireSubtreeCacheLoopBy treeSize level offset s

/-- Nodes looked up in turn, up to the first that is not held. -/
def lookUpEach : List (Nat × Nat) → σ → MirrorResult Unit × σ
  | [], s => (.ok (), s)
  | (level, index) :: rest, s =>
    match reader level index s with
    | (.error e, s) => (.error e, s)
    | (.ok none, s) => (.error (.treeMaterialMissing level index), s)
    | (.ok (some _), s) => lookUpEach rest s

variable {reader}

theorem requireSubtreeCacheLoopBy_fst {db : Db} (hreader : ∀ level index s, (reader level index s).1 = treeNodeRaw db level index)
    (treeSize : Nat) : ∀ (level offset : Nat) (s : σ),
      (requireSubtreeCacheLoopBy reader treeSize level offset s).1 = requireSubtreeCacheLoop (H := H) db treeSize level offset := by
  intro level
  induction level with
  | zero => exact fun _ _ => rfl
  | succ level ih =>
    intro offset s
    rw [requireSubtreeCacheLoopBy, requireSubtreeCacheLoop]
    cases checkedShlOne (level + 1) with
    | none => exact ih offset s
    | some width =>
      dsimp only
      split_ifs with hbit
      · exact ih offset s
      · cases checkedDiv offset width with
        | none => rfl
        | some nodeIndex =>
          have hread := hreader (level + 1) nodeIndex s
          rcases hrun : reader (level + 1) nodeIndex s with ⟨answer, t⟩
          rw [hrun] at hread
          obtain rfl : answer = treeNodeRaw db (level + 1) nodeIndex := hread
          dsimp only [okOr]
          rw [ok_bind, hrun]
          cases treeNodeRaw (H := H) db (level + 1) nodeIndex with
          | error e => rfl
          | ok node =>
            cases node with
            | none => rfl
            | some hash =>
              cases checkedAdd offset width with
              | none => rfl
              | some next => exact ih next t

variable (reader) in
omit [HashOctets H] in
theorem requireSubtreeCacheLoopBy_eq {n : Nat} (hbound : n < u64Bound) : ∀ (level : Nat) (s : σ), level ≤ MAX_SUBTREE_LEVEL →
    requireSubtreeCacheLoopBy reader n level (n / 2 ^ (level + 1) * 2 ^ (level + 1)) s =
      lookUpEach reader ((blocksBelow n (level + 1)).filter fun block => decide (1 ≤ block.1)) s := by
  have hmax : MAX_SUBTREE_LEVEL = 63 := rfl
  intro level
  induction level with
  | zero =>
    intro s _
    have hnone : (blocksBelow n 1).filter (fun block => decide (1 ≤ block.1)) = [] := by
      apply List.eq_nil_iff_forall_not_mem.2
      rintro ⟨level, index⟩ hmem
      obtain ⟨hblock, hlevel⟩ := List.mem_filter.1 hmem
      have hlow := (mem_blocksBelow.1 hblock).1
      rw [decide_eq_true_eq] at hlevel
      omega
    rw [hnone]
    rfl
  | succ level ih =>
    intro s hlevel
    have hwidth := Nat.two_pow_pos (level + 1)
    rw [requireSubtreeCacheLoopBy, checkedShlOne_of_lt (by omega)]
    dsimp only
    rw [checkedDiv_of_pos hwidth, checkedDiv_of_pos hwidth, Option.getD_some, start_succ]
    by_cases hodd : n / 2 ^ (level + 1) % 2 = 1
    · obtain ⟨index, hindex⟩ : ∃ index, n / 2 ^ (level + 1) = index + 1 :=
        ⟨_, (Nat.sub_add_cancel (one_le_of_odd hodd)).symm⟩
      have hhalf : (index + 1) / 2 * 2 = index := by omega
      have hnext : index * 2 ^ (level + 1) + 2 ^ (level + 1) = n / 2 ^ (level + 1) * 2 ^ (level + 1) := by
        rw [hindex, Nat.add_mul, Nat.one_mul]
      have hend : n / 2 ^ (level + 1) * 2 ^ (level + 1) ≤ n := Nat.div_mul_le_self _ _
      rw [blocksBelow_succ_of_odd hodd, List.filter_cons_of_pos (by simp), if_neg (by omega), hindex, hhalf,
        Nat.mul_div_cancel _ hwidth, Nat.add_sub_cancel, lookUpEach]
      dsimp only
      rcases reader (level + 1) index s with ⟨answer, t⟩
      cases answer with
      | error e => rfl
      | ok node =>
        cases node with
        | none => rfl
        | some hash =>
          dsimp only
          rw [checkedAdd_of_lt (by omega), hnext]
          exact ih t (by omega)
    · have hhalf : n / 2 ^ (level + 1) / 2 * 2 = n / 2 ^ (level + 1) :=
        Nat.div_mul_cancel (Nat.dvd_of_mod_eq_zero (by omega))
      rw [blocksBelow_succ_of_even hodd, if_pos (by omega), hhalf]
      exact ih s (by omega)

end reader

section noted
variable (H)

/-- The store as a reader that notes the nodes it is asked for. -/
def noting (db : Db) (level index : Nat) (noted : List (Nat × Nat)) : MirrorResult (Option H) × List (Nat × Nat) :=
  (treeNodeRaw db level index, noted ++ [(level, index)])

/-- `require_subtree_cache_raw` with the nodes it looked up. -/
def requireSubtreeCacheNoted (db : Db) (treeSize : Nat) : MirrorResult Unit × List (Nat × Nat) :=
  requireSubtreeCacheLoopBy (noting H db) treeSize MAX_SUBTREE_LEVEL 0 []

variable {H} {db : Db} {n : Nat}

theorem requireSubtreeCacheNoted_fst (db : Db) (n : Nat) :
    (requireSubtreeCacheNoted H db n).1 = requireSubtreeCacheRaw (H := H) db n :=
  requireSubtreeCacheLoopBy_fst (fun _ _ _ => rfl) n MAX_SUBTREE_LEVEL 0 []

theorem requireSubtreeCacheNoted_eq (db : Db) (hbound : n < u64Bound) :
    requireSubtreeCacheNoted H db n = lookUpEach (noting H db) (cacheBlocks n) [] := by
  have hpow : n < 2 ^ (MAX_SUBTREE_LEVEL + 1) := hbound
  have hloop := requireSubtreeCacheLoopBy_eq (noting H db) hbound MAX_SUBTREE_LEVEL [] le_rfl
  rw [Nat.div_eq_of_lt hpow, Nat.zero_mul, blocksBelow_eq hpow] at hloop
  exact hloop

theorem lookUpEach_noting_cons (block : Nat × Nat) (rest noted : List (Nat × Nat)) :
    lookUpEach (noting H db) (block :: rest) noted = match nodeFault H db block with
      | none => lookUpEach (noting H db) rest (noted ++ [block])
      | some e => (.error e, noted ++ [block]) := by
  rw [lookUpEach, noting, nodeFault]
  cases treeNodeRaw (H := H) db block.1 block.2 with
  | error e => rfl
  | ok node => cases node <;> rfl

theorem lookUpEach_noting_clean {nodes : List (Nat × Nat)} (h : ∀ block ∈ nodes, nodeFault H db block = none) :
    ∀ noted, lookUpEach (noting H db) nodes noted = (.ok (), noted ++ nodes) := by
  induction nodes with
  | nil =>
    intro noted
    rw [List.append_nil]
    rfl
  | cons block rest ih =>
    intro noted
    rw [lookUpEach_noting_cons, h block List.mem_cons_self]
    dsimp only
    rw [ih (fun other hother => h other (List.mem_cons_of_mem _ hother)), List.append_assoc, List.singleton_append]

theorem lookUpEach_noting_fault {before : List (Nat × Nat)} (h : ∀ block ∈ before, nodeFault H db block = none)
    {block : Nat × Nat} {e : MirrorError} (hfault : nodeFault H db block = some e) (rest : List (Nat × Nat)) :
    ∀ noted, lookUpEach (noting H db) (before ++ block :: rest) noted = (.error e, noted ++ (before ++ [block])) := by
  induction before with
  | nil =>
    intro noted
    rw [List.nil_append, lookUpEach_noting_cons, hfault]
    rfl
  | cons first before ih =>
    intro noted
    rw [List.cons_append, lookUpEach_noting_cons, h first List.mem_cons_self]
    dsimp only
    rw [ih fun other hother => h other (List.mem_cons_of_mem _ hother)]
    simp

/-- The check passes over all of its blocks, or stops at the first that has a fault. -/
theorem requireSubtreeCacheNoted_cases (db : Db) (hbound : n < u64Bound) :
    ((∀ block ∈ cacheBlocks n, nodeFault H db block = none) ∧
      requireSubtreeCacheNoted H db n = (.ok (), cacheBlocks n)) ∨
    ∃ before block rest e, cacheBlocks n = before ++ block :: rest ∧
      (∀ other ∈ before, nodeFault H db other = none) ∧ nodeFault H db block = some e ∧
      requireSubtreeCacheNoted H db n = (.error e, before ++ [block]) := by
  rw [requireSubtreeCacheNoted_eq db hbound]
  cases hfirst : (cacheBlocks n).findSome? (nodeFault H db) with
  | none =>
    have hclean := List.findSome?_eq_none_iff.1 hfirst
    exact Or.inl ⟨hclean, lookUpEach_noting_clean hclean []⟩
  | some e =>
    obtain ⟨before, block, rest, hsplit, hfault, hclean⟩ := List.findSome?_eq_some_iff.1 hfirst
    refine Or.inr ⟨before, block, rest, e, hsplit, hclean, hfault, ?_⟩
    rw [hsplit]
    exact lookUpEach_noting_fault hclean hfault rest []

theorem requireSubtreeCacheRaw_eq_ok_iff (hbound : n < u64Bound) :
    requireSubtreeCacheRaw (H := H) db n = .ok () ↔ ∀ block ∈ cacheBlocks n, nodeFault H db block = none := by
  rw [← requireSubtreeCacheNoted_fst]
  rcases requireSubtreeCacheNoted_cases (H := H) db hbound with
    ⟨hclean, hnoted⟩ | ⟨before, block, rest, e, hsplit, -, hfault, hnoted⟩
  · rw [hnoted]
    exact iff_of_true rfl hclean
  · rw [hnoted]
    refine iff_of_false (fun hok => by cases hok) fun hclean => ?_
    rw [hclean block (hsplit ▸ List.mem_append_right _ List.mem_cons_self)] at hfault
    cases hfault

end noted

theorem nodeFault_eq_none {db : Db} {level index : Nat} :
    nodeFault H db (level, index) = none ↔ ∃ hash : H, treeNodeRaw db level index = .ok (some hash) := by
  unfold nodeFault
  dsimp only
  cases treeNodeRaw (H := H) db level index with
  | error e => simp
  | ok node => cases node <;> simp

theorem requireSubtreeCacheRaw_eq_ok {db : Db} {n : Nat} (hbound : n < u64Bound) :
    requireSubtreeCacheRaw (H := H) db n = .ok () ↔ ∀ level, 1 ≤ level → n / 2 ^ level % 2 = 1 →
      ∃ hash : H, treeNodeRaw db level (n / 2 ^ level - 1) = .ok (some hash) := by
  rw [requireSubtreeCacheRaw_eq_ok_iff hbound]
  constructor
  · intro h level hlevel hodd
    exact nodeFault_eq_none.1 (h _ (mem_cacheBlocks.2 ⟨hlevel, hodd, rfl⟩))
  · rintro h ⟨level, index⟩ hblock
    obtain ⟨hlevel, hodd, rfl⟩ := mem_cacheBlocks.1 hblock
    exact nodeFault_eq_none.2 (h level hlevel hodd)

/-! ### The root -/

/-- The reader of a prefix: a node it does not have, or cannot read, is the failure reported. -/
theorem getNode_reads (db : Db) {n : Nat} (hbound : n < u64Bound) :
    Reads n (getNode (H := H) db n) (nodeFault H db) (fun reads => reads.failure = none)
      (fun e reads => reads.failure = some e) where
  answers level index reads _ hreads hfault := by
    obtain ⟨hash, hnode⟩ := nodeFault_eq_none.1 hfault
    unfold getNode
    rw [hnode]
    exact ⟨⟨hash, rfl⟩, hreads⟩
  fails level index reads e hinside hreads hfault := by
    unfold nodeFault at hfault
    unfold getNode
    cases hnode : treeNodeRaw (H := H) db level index with
    | error e' =>
      rw [hnode] at hfault
      obtain rfl := Option.some.inj hfault
      dsimp only
      rw [NodeReads.record, hreads]
    | ok node =>
      rw [hnode] at hfault
      cases node with
      | some hash => cases hfault
      | none =>
        obtain rfl := Option.some.inj hfault
        dsimp only
        rw [nodeIsComplete_of_le (hinside.trans_lt hbound) hinside, if_pos rfl, NodeReads.record, hreads]
  stays e level index reads hreads := getNode_failure hreads

section root
variable {crates : Crates H K} {miss : Nat → AtlError}
  (hwalk : ∀ offset size, 1 ≤ size → crates.computeSubtreeRoot offset size = subtreeWalk crates.hashChildren miss offset size)
include hwalk

/-- The root of a prefix is read from its blocks, and the first fault among them is the refusal. -/
theorem logRootRaw_blocks (db : Db) {n : Nat} (hbound : n < u64Bound) :
    match (blocks n).findSome? (nodeFault H db) with
    | none => ∃ root, logRootRaw crates db n = .ok root
    | some e => logRootRaw crates db n = .error e := by
  rcases Nat.eq_zero_or_pos n with rfl | hone
  · exact ⟨_, if_pos rfl⟩
  · have hrun := subtreeWalk_run_blocks crates.hashChildren miss (getNode_reads (H := H) db hbound) hone
      (s := ⟨none, 0⟩) rfl
    have hsum : saturatingAdd 0 n = n := by rw [saturatingAdd_of_lt (by omega), Nat.zero_add]
    rw [logRootRaw, if_neg (by omega), subtreeRootRaw, hsum, hwalk 0 n hone]
    cases hfault : (blocks n).findSome? (nodeFault H db) with
    | some e =>
      rw [hfault] at hrun
      dsimp only
      rw [withTreeNodes_of_failure hrun]
      rfl
    | none =>
      rw [hfault] at hrun
      obtain ⟨⟨root, hroot⟩, hclean⟩ := hrun
      refine ⟨root, ?_⟩
      unfold withTreeNodes
      rcases hout : (subtreeWalk crates.hashChildren miss 0 n).run (getNode db n) ⟨none, 0⟩ with ⟨computed, reads⟩
      rw [hout] at hroot hclean
      dsimp only at hroot hclean ⊢
      rw [hclean, hroot]
      rfl

end root

/-! ### What is held -/

variable (H) in
/-- The first `n` entries are canonical, each with a leaf hash of its width. -/
def LeavesHeld (db : Db) (n : Nat) : Prop :=
  ∀ index, index < n → ∃ row blob, entryAt db index = some row ∧ row.leafHash = some blob ∧ (tryFrom blob : Option H).isSome

variable (H) in
/-- The stored nodes have the width of a hash. -/
def RowsWellFormed (db : Db) : Prop := ∀ row ∈ db.subtreeRoots, (tryFrom row.hash : Option H).isSome

/-- There is a row for the node. -/
def RowHeld (db : Db) (block : Nat × Nat) : Prop := ∃ row ∈ db.subtreeRoots, row.key = ((block.1 : Int), (block.2 : Int))

theorem LeavesHeld.nodeFault {db : Db} {n index : Nat} (h : LeavesHeld H db n) (hn : n ≤ i64Bound) (hindex : index < n) :
    nodeFault H db (0, index) = none := by
  obtain ⟨row, blob, hrow, hblob, hhash⟩ := h index hindex
  obtain ⟨hash, hhash⟩ := Option.isSome_iff_exists.1 hhash
  apply nodeFault_eq_none.2
  refine ⟨hash, ?_⟩
  unfold treeNodeRaw hashOfBlob
  rw [toI64_of_lt (hindex.trans_le hn), ok_bind, if_pos rfl, hrow, Option.bind_some, hblob]
  dsimp only
  rw [hhash]
  rfl

theorem RowsWellFormed.nodeFault {db : Db} (h : RowsWellFormed H db) {level index : Nat} (hlevel : 1 ≤ level)
    (hindex : index < i64Bound) :
    (RowHeld db (level, index) ∧ nodeFault H db (level, index) = none) ∨
      (¬ RowHeld db (level, index) ∧ nodeFault H db (level, index) = some (.treeMaterialMissing level index)) := by
  unfold AhlMirror.nodeFault treeNodeRaw subtreeBlob hashOfBlob
  dsimp only
  rw [toI64_of_lt hindex, ok_bind, if_neg (by omega)]
  cases hfind : db.subtreeRoots.find? fun row => row.level == (level : Int) && row.nodeIndex == (index : Int) with
  | none =>
    refine Or.inr ⟨?_, rfl⟩
    rintro ⟨row, hrow, hkey⟩
    obtain ⟨hrowLevel, hrowIndex⟩ := Prod.mk.inj hkey
    simpa [hrowLevel, hrowIndex] using List.find?_eq_none.1 hfind row hrow
  | some row =>
    have hrow := List.mem_of_find?_eq_some hfind
    have hkey := List.find?_some hfind
    rw [Bool.and_eq_true, beq_iff_eq, beq_iff_eq] at hkey
    obtain ⟨hash, hhash⟩ := Option.isSome_iff_exists.1 (h row hrow)
    refine Or.inl ⟨⟨row, hrow, Prod.ext hkey.1 hkey.2⟩, ?_⟩
    rw [Option.map_some]
    dsimp only
    rw [hhash]
    rfl

theorem Represents.leavesHeld {crates : Crates H K} {db : Db} (h : Represents crates db) {n : Nat}
    (hn : n ≤ db.entries.length) : LeavesHeld H db n := by
  intro index hindex
  have hlt := hindex.trans_le hn
  refine ⟨db.entries[index], _, ?_, h.leafHash _ (List.getElem_mem hlt), ?_⟩
  · rw [h.toCanonical.entryAt, List.getElem?_eq_getElem hlt]
  · rw [HashOctets.tryFrom_asSlice]
    rfl

theorem Represents.rowsWellFormed {crates : Crates H K} {db : Db} (h : Represents crates db) : RowsWellFormed H db := by
  intro row hrow
  obtain ⟨level, index, -, rfl⟩ := h.cache.complete row hrow
  rw [nodeRow, HashOctets.tryFrom_asSlice]
  rfl

theorem findSome?_blocks {db : Db} {n : Nat} (h : LeavesHeld H db n) (hn : n ≤ i64Bound) :
    (blocks n).findSome? (nodeFault H db) = (cacheBlocks n).findSome? (nodeFault H db) := by
  have hskip : ∀ nodes : List (Nat × Nat), (∀ block ∈ nodes, block ∈ blocks n) →
      nodes.findSome? (nodeFault H db) =
        (nodes.filter fun block => decide (1 ≤ block.1)).findSome? (nodeFault H db) := by
    intro nodes
    induction nodes with
    | nil => exact fun _ => rfl
    | cons block rest ih =>
      intro hmem
      obtain ⟨level, index⟩ := block
      have hrest := ih fun other hother => hmem other (List.mem_cons_of_mem _ hother)
      rcases Nat.eq_zero_or_pos level with rfl | hlevel
      · have hinside := block_inside (hmem _ List.mem_cons_self)
        rw [pow_zero, Nat.mul_one] at hinside
        rw [List.findSome?_cons, h.nodeFault hn hinside, List.filter_cons_of_neg (by simp)]
        exact hrest
      · have hkept : decide (1 ≤ level) = true := decide_eq_true hlevel
        rw [List.filter_cons_of_pos (p := fun block : Nat × Nat => decide (1 ≤ block.1)) hkept, List.findSome?_cons, List.findSome?_cons, hrest]
  exact hskip (blocks n) fun _ hblock => hblock

/-! ### The check and the root -/

/-- The nodes are the maximal perfect subtrees of `[0, n)` above the leaves, one for each set bit, left to right;
an odd prefix has its last leaf beside them. -/
structure DecomposesAbove (n : Nat) (nodes : List (Nat × Nat)) : Prop where
  maximal : ∀ level index, (level, index) ∈ nodes ↔ 1 ≤ level ∧ MaximalBlock n level index
  bits : ∀ level index, (level, index) ∈ nodes ↔ 1 ≤ level ∧ n.testBit level = true ∧ index = n / 2 ^ level - 1
  ordered : nodes.Pairwise fun a b => b.1 < a.1 ∧ (a.2 + 1) * 2 ^ a.1 ≤ b.2 * 2 ^ b.1
  cover : ∀ i, i < n →
    (∃ block ∈ nodes, block.2 * 2 ^ block.1 ≤ i ∧ i < (block.2 + 1) * 2 ^ block.1) ∨ (n % 2 = 1 ∧ i = n - 1)

theorem decomposesAbove_cacheBlocks (n : Nat) : DecomposesAbove n (cacheBlocks n) where
  maximal level index := by
    unfold cacheBlocks
    rw [List.mem_filter, decide_eq_true_eq, mem_blocks_iff, and_comm]
  bits level index := by
    unfold cacheBlocks
    rw [List.mem_filter, decide_eq_true_eq, mem_blocks_iff_testBit, and_comm]
  ordered := (pairwise_blocks n).sublist List.filter_sublist
  cover i hi := by
    obtain ⟨⟨level, index⟩, hblock, hlow, hhigh⟩ := blocks_cover hi
    rcases Nat.eq_zero_or_pos level with rfl | hlevel
    · obtain ⟨hodd, hindex⟩ := mem_blocks.1 hblock
      rw [pow_zero, Nat.div_one] at hodd hindex
      rw [pow_zero, Nat.mul_one] at hlow hhigh
      exact Or.inr ⟨hodd, by omega⟩
    · exact Or.inl ⟨_, List.mem_filter.2 ⟨hblock, decide_eq_true hlevel⟩, hlow, hhigh⟩

theorem compared_of_logRootRaw [DecidableEq H] {crates : Crates H K} {db : Db} {n : Nat}
    (hholds : holdsPrefix (H := H) db n = .ok true) {root : H} (hopen : logRootRaw crates db n = .ok root) :
    (∀ claimedRoot, ∃ contradicts, contradictsStored crates db n claimedRoot = .ok contradicts) ∧
    ∀ cp : Checkpoint, cp.treeSize = n → ∀ claimed, crates.parseHashHex cp.rootHash = .ok claimed →
      ∃ agrees, rootMatchesStored crates db cp = .ok agrees := by
  constructor
  · intro claimedRoot
    unfold contradictsStored
    rw [hholds, ok_bind, if_neg (by decide), hopen]
    exact ⟨_, rfl⟩
  · rintro cp rfl claimed hclaimed
    unfold rootMatchesStored
    rw [hclaimed, hopen]
    exact ⟨_, rfl⟩

/-- What the check tells of the root that is opened after it. -/
structure CheckDecides [DecidableEq H] (crates : Crates H K) (db : Db) (n : Nat) : Prop where
  noted : (requireSubtreeCacheNoted H db n).1 = requireSubtreeCacheRaw (H := H) db n
  ok_iff : requireSubtreeCacheRaw (H := H) db n = .ok () ↔ ∀ block ∈ cacheBlocks n, RowHeld db block
  passed : requireSubtreeCacheRaw (H := H) db n = .ok () →
    (requireSubtreeCacheNoted H db n).2 = cacheBlocks n ∧ ∃ root, logRootRaw crates db n = .ok root
  refused : requireSubtreeCacheRaw (H := H) db n ≠ .ok () → ∃ before level index rest,
    cacheBlocks n = before ++ (level, index) :: rest ∧ (∀ block ∈ before, RowHeld db block) ∧ ¬ RowHeld db (level, index) ∧
    requireSubtreeCacheRaw (H := H) db n = .error (.treeMaterialMissing level index) ∧
    (requireSubtreeCacheNoted H db n).2 = before ++ [(level, index)] ∧
    logRootRaw crates db n = .error (.treeMaterialMissing level index)
  compared : holdsPrefix (H := H) db n = .ok true →
    (∀ claimedRoot, ∃ contradicts, contradictsStored crates db n claimedRoot = .ok contradicts) ∧
    ∀ cp : Checkpoint, cp.treeSize = n → ∀ claimed, crates.parseHashHex cp.rootHash = .ok claimed →
      ∃ agrees, rootMatchesStored crates db cp = .ok agrees

section decides
variable [DecidableEq H] {crates : Crates H K} {miss : Nat → AtlError}
  (hwalk : ∀ offset size, 1 ≤ size → crates.computeSubtreeRoot offset size = subtreeWalk crates.hashChildren miss offset size)
include hwalk

/-- **The check of the cache is what a root needs.** Over any stored nodes of a hash's width, it looks up the
maximal subtrees of the prefix above the leaves and no other node, left to right up to the first that is
not held; with all of them the root is opened, and without one the root is refused by the same error. -/
theorem cache_check_exact {db : Db} {n : Nat} (hn : n < i64Bound) (hrows : RowsWellFormed H db)
    (hleaves : LeavesHeld H db n) : DecomposesAbove n (cacheBlocks n) ∧ CheckDecides crates db n := by
  have hbound : n < u64Bound := hn.trans i64Bound_lt_u64Bound
  have hfault : ∀ level index, (level, index) ∈ cacheBlocks n →
      (RowHeld db (level, index) ∧ nodeFault H db (level, index) = none) ∨
        (¬ RowHeld db (level, index) ∧ nodeFault H db (level, index) = some (.treeMaterialMissing level index)) := by
    intro level index hblock
    exact hrows.nodeFault (mem_cacheBlocks.1 hblock).1 ((index_lt_of_le (cacheBlocks_inside hblock)).trans hn)
  have hheld : ∀ block ∈ cacheBlocks n, (nodeFault H db block = none ↔ RowHeld db block) := by
    rintro ⟨level, index⟩ hblock
    rcases hfault level index hblock with ⟨hheld, hnone⟩ | ⟨hnot, hsome⟩
    · exact iff_of_true hnone hheld
    · exact iff_of_false (by rw [hsome]; exact Option.some_ne_none _) hnot
  have hroot := logRootRaw_blocks hwalk db hbound
  rw [findSome?_blocks hleaves hn.le] at hroot
  have hopened : requireSubtreeCacheRaw (H := H) db n = .ok () → ∃ root, logRootRaw crates db n = .ok root := by
    intro hok
    rw [List.findSome?_eq_none_iff.2 ((requireSubtreeCacheRaw_eq_ok_iff hbound).1 hok)] at hroot
    exact hroot
  refine ⟨decomposesAbove_cacheBlocks n, requireSubtreeCacheNoted_fst db n, ?_, fun hok => ⟨?_, hopened hok⟩, ?_, ?_⟩
  · rw [requireSubtreeCacheRaw_eq_ok_iff hbound]
    exact forall₂_congr hheld
  · rw [requireSubtreeCacheNoted_eq db hbound, lookUpEach_noting_clean ((requireSubtreeCacheRaw_eq_ok_iff hbound).1 hok)]
    exact List.nil_append _
  · intro hrefused
    rw [← requireSubtreeCacheNoted_fst] at hrefused ⊢
    rcases requireSubtreeCacheNoted_cases (H := H) db hbound with
      ⟨-, hnoted⟩ | ⟨before, ⟨level, index⟩, rest, e, hsplit, hclean, hblock, hnoted⟩
    · rw [hnoted] at hrefused
      exact absurd rfl hrefused
    · have hmem : (level, index) ∈ cacheBlocks n := hsplit ▸ List.mem_append_right _ List.mem_cons_self
      rcases hfault level index hmem with ⟨-, hnone⟩ | ⟨hnot, hsome⟩
      · rw [hnone] at hblock
        cases hblock
      · obtain rfl : e = .treeMaterialMissing level index := Option.some.inj (hblock.symm.trans hsome)
        rw [List.findSome?_eq_some_iff.2 ⟨before, (level, index), rest, hsplit, hblock, hclean⟩] at hroot
        refine ⟨before, level, index, rest, hsplit, fun block hbefore => ?_, hnot, by rw [hnoted], by rw [hnoted], hroot⟩
        exact (hheld block (hsplit ▸ List.mem_append_left _ hbefore)).1 (hclean block hbefore)
  · intro hholds
    obtain ⟨root, hopen⟩ := hopened (holdsPrefix_eq_true.1 hholds).2
    exact compared_of_logRootRaw hholds hopen

end decides

theorem cache_check_exact_twoEntries :
    CheckDecides (Symbolic.crates Symbolic.documents) Symbolic.twoEntries 2 ∧
      CheckDecides (Symbolic.crates Symbolic.documents) (Symbolic.twoEntries.losing fun _ => true) 2 ∧
      requireSubtreeCacheNoted Bytes (Symbolic.twoEntries.losing fun _ => true) 2 =
        (.error (.treeMaterialMissing 1 0), [(1, 0)]) := by
  have hrep : Represents (Symbolic.crates Symbolic.documents) Symbolic.twoEntries := (Symbolic.reachable_after _).represents
  have hlen : Symbolic.twoEntries.entries.length = 2 := by decide +kernel
  have hwalk : ∀ offset size, 1 ≤ size → (Symbolic.crates Symbolic.documents).computeSubtreeRoot offset size =
      subtreeWalk (Symbolic.crates Symbolic.documents).hashChildren Symbolic.miss offset size := fun _ _ _ => rfl
  have hlost : LeavesHeld Bytes (Symbolic.twoEntries.losing fun _ => true) 2 := hrep.leavesHeld hlen.ge
  have hkept : RowsWellFormed Bytes (Symbolic.twoEntries.losing fun _ => true) :=
    fun row hrow => hrep.rowsWellFormed row (List.mem_filter.1 hrow).1
  exact ⟨(cache_check_exact hwalk (by decide) hrep.rowsWellFormed (hrep.leavesHeld hlen.ge)).2,
    (cache_check_exact hwalk (by decide) hkept hlost).2, by decide +kernel⟩

end AhlMirror

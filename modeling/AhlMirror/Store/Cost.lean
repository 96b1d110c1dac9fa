import AhlMirror.Merkle.Cost
import AhlMirror.Store.RangeResponse
import AhlMirror.Store.Representation

/-!
# What the store reads

The counts the store reports are the counts of its reads. An open store holds every complete node of its
entries, so each proof costs what its walk asks for (`prover_reads`); and the sum of set bits a range response
reports is what opening its subtrees reads (`range_reads`), a node an entry of the window and logarithmically
many beside.
-/

namespace AhlMirror

open Merkle
open Merkle.NodeQuery (done cost cost_andThen cost_done)

variable {H K : Type} {crates : Crates H K}

/-! ### Saturated counts -/

theorem saturatingAdd_zero {n : Nat} (h : n < u64Bound) : saturatingAdd n 0 = n := saturatingAdd_of_lt h

theorem saturatingAdd_assoc (a b c : Nat) : saturatingAdd (saturatingAdd a b) c = saturatingAdd a (b + c) := by
  unfold saturatingAdd
  omega

theorem saturatingAdd_le (a b : Nat) : saturatingAdd a b ≤ a + b := Nat.min_le_left _ _

theorem saturatingMul_le (a b : Nat) : saturatingMul a b ≤ a * b := Nat.min_le_left _ _

theorem iterate_count {start : Nat} : ∀ {n : Nat}, start + n < u64Bound →
    (fun reads => saturatingAdd reads 1)^[n] start = start + n
  | 0, _ => rfl
  | n + 1, h => by rw [Function.iterate_succ_apply', iterate_count (by omega), saturatingAdd_of_lt (by omega), Nat.add_assoc]

theorem foldl_saturatingAdd (f : Bytes → Nat) : ∀ (items : List Bytes) (start : Nat), start < u64Bound →
    items.foldl (fun total bytes => saturatingAdd total (f bytes)) start = saturatingAdd start (items.map f).sum
  | [], start, h => (saturatingAdd_zero h).symm
  | bytes :: rest, start, h => by
    have hstep : saturatingAdd start (f bytes) < u64Bound := by
      have : u64Bound = 2 ^ 64 := rfl
      unfold saturatingAdd
      omega
    rw [List.foldl_cons, foldl_saturatingAdd f rest _ hstep, saturatingAdd_assoc, List.map_cons, List.sum_cons]

theorem countOnes_eq {n : Nat} (h : n < u64Bound) : countOnes n = blockCount n := by
  have hbits : ∀ bound, ((List.range bound).filter fun bit => n.testBit bit).length = (blocksBelow n bound).length := by
    intro bound
    induction bound with
    | zero => rfl
    | succ bound ih =>
      rw [List.range_succ, List.filter_append, List.length_append, ih, List.filter_singleton, Nat.testBit_eq_decide_div_mod_eq]
      by_cases hodd : n / 2 ^ bound % 2 = 1
      · simp [blocksBelow_succ_of_odd hodd, hodd]
      · simp [blocksBelow_succ_of_even hodd, hodd]
  rw [countOnes, hbits, blocksBelow_eq h, blockCount]

theorem clog_le_of_lt {n : Nat} (h : n < u64Bound) : Nat.clog 2 n ≤ 64 := Nat.clog_le_of_le_pow h.le

/-! ### Reading a represented store -/

theorem storedNode_full (crates : Crates H K) (db : Db) {bound : Nat} (hbound : bound ≤ db.entries.length) :
    Full crates.hashChildren (leafAt crates db) bound (storedNode crates db) where
  toOpens := storedNode_opens crates db hbound
  held level index hle := by
    rw [storedNode, if_pos (hle.trans hbound)]
    rfl

variable [HashOctets H]

theorem Represents.withTreeNodes_cost {db : Db} (h : Represents crates db) {α : Type} {bound : Nat}
    (hbound : bound ≤ db.entries.length) {f : NodeQuery H (Except AtlError α)} {value : α}
    (hasks : f.Asks fun level index => (index + 1) * 2 ^ level ≤ bound)
    (heval : f.eval (storedNode crates db) = .ok value) (hcost : f.cost (storedNode crates db) < u64Bound) :
    AhlMirror.withTreeNodes db bound f = .ok (value, f.cost (storedNode crates db)) := by
  have hread : ∀ (level index : Nat) (reads : NodeReads), (index + 1) * 2 ^ level ≤ bound → True →
      (getNode (H := H) db bound level index reads).1 = storedNode crates db level index ∧ True ∧
        (getNode (H := H) db bound level index reads).2.treeNodes = saturatingAdd reads.treeNodes 1 := by
    intro level index reads hle _
    unfold getNode
    rw [h.treeNodeRaw (h.index_lt (hle.trans hbound)), storedNode, if_pos (hle.trans hbound)]
    exact ⟨rfl, trivial, rfl⟩
  have hcount : (f.run (getNode db bound) ⟨none, 0⟩).2.treeNodes =
      (fun reads => saturatingAdd reads 1)^[f.cost (storedNode crates db)] 0 :=
    NodeQuery.run_cost (I := fun _ => True) hread hasks trivial
  rw [iterate_count (by rwa [Nat.zero_add]), Nat.zero_add] at hcount
  obtain ⟨treeNodes, hopen⟩ := h.withTreeNodes hbound hasks heval
  rw [hopen]
  unfold AhlMirror.withTreeNodes at hopen
  rcases hrun : f.run (getNode db bound) ⟨none, 0⟩ with ⟨computed, reads⟩
  rw [hrun] at hopen hcount
  dsimp only at hopen hcount
  cases hfailure : reads.failure with
  | some e =>
    rw [hfailure] at hopen
    cases hopen
  | none =>
    rw [hfailure] at hopen
    obtain ⟨_, -, hcounted⟩ := bind_eq_ok.1 hopen
    obtain ⟨-, rfl⟩ := Prod.mk.inj (Except.ok.inj hcounted)
    rw [hcount]

/-! ### Roots and proofs -/

section opened
variable {miss : Nat → AtlError} {db : Db} (h : Represents crates db)
include h

theorem Represents.subtreeRoot_cost (hsubtree : SubtreeLaws crates) (hreads : SubtreeReadLaws crates miss)
    {offset size : Nat} (hsize : 1 ≤ size) (hfitting : Fitting offset size) (hle : offset + size ≤ db.entries.length) :
    AhlMirror.withTreeNodes db (saturatingAdd offset size) (crates.computeSubtreeRoot offset size) =
      .ok (spanRoot crates.hashChildren (leafAt crates db) offset size, countOnes size) := by
  have hrepresentable := h.representable
  have hu64 := i64Bound_lt_u64Bound
  have hfull := storedNode_full crates db le_rfl
  have hcost : (crates.computeSubtreeRoot offset size).cost (storedNode crates db) = blockCount size :=
    (hreads.computeSubtreeRoot hfull hsize hle).trans (hfull.subtreeWalk_cost miss hsize hfitting hle)
  have hcount := blockCount_le_of_lt (show size < 2 ^ 64 from (show size < u64Bound by omega))
  rw [saturatingAdd_of_lt (by omega), countOnes_eq (by omega), ← hcost]
  apply h.withTreeNodes_cost hle ((hsubtree.computeSubtreeRoot_asks hsize).mono fun level index hin => hin.2)
    (hsubtree.computeSubtreeRoot (storedNode_opens crates db le_rfl) hsize hle)
  rw [hcost]
  have : u64Bound = 2 ^ 64 := rfl
  omega

theorem Represents.inclusionProof_cost (hproof : InclusionProofLaws crates) (hreads : InclusionProofReadLaws crates miss)
    {leafIndex n : Nat} (hindex : leafIndex < n) (hle : n ≤ db.entries.length) :
    ∃ proof reads, AhlMirror.withTreeNodes db n (crates.generateInclusionProof leafIndex n) = .ok (proof, reads) ∧
      reads < Nat.clog 2 n + countOnes n := by
  have hrepresentable := h.representable
  have hu64 := i64Bound_lt_u64Bound
  have hfull := storedNode_full crates db hle
  have hwalk := hfull.pathWalk_cost miss (show 1 ≤ n by omega) leafIndex le_rfl
  have hcost := hreads.generateInclusionProof hfull hindex le_rfl
  have hblocks := blockCount_le n
  have hlevels := clog_le_of_lt (show n < u64Bound by omega)
  have hbound : u64Bound = 2 ^ 64 := rfl
  rw [countOnes_eq (by omega)]
  refine ⟨_, _, h.withTreeNodes_cost hle
    ((hproof.generateInclusionProof_asks hindex).mono fun level index hin => by simpa using hin.2)
    (hproof.generateInclusionProof (storedNode_opens crates db hle) hindex le_rfl) ?_, ?_⟩
  · omega
  · omega

theorem Represents.consistencyProof_cost (hpath : ConsistencyProofLaws crates)
    (hreads : ConsistencyProofReadLaws crates miss) {fromSize toSize : Nat} (hfrom : fromSize ≤ toSize)
    (hto : toSize ≤ db.entries.length) (haddressable : toSize < i64Bound) :
    ∃ proof reads, AhlMirror.consistencyProofMeasuredRaw crates db fromSize toSize = .ok (proof, reads) ∧
      reads ≤ Nat.clog 2 toSize + countOnes toSize := by
  have hu64 := i64Bound_lt_u64Bound
  have hfull := storedNode_full crates db hto
  have hwalk := hfull.consistencyWalk_cost miss hfrom le_rfl
  have hcost := hreads.generateConsistencyProof hfull hfrom le_rfl
  have hblocks := blockCount_le toSize
  have hlevels := clog_le_of_lt (show toSize < u64Bound by omega)
  have hbound : u64Bound = 2 ^ 64 := rfl
  rw [countOnes_eq (by omega)]
  unfold AhlMirror.consistencyProofMeasuredRaw
  rw [h.toCanonical.countEntriesRaw_held haddressable hto]
  simp only [ok_bind, ne_eq, not_true_eq_false, if_false]
  refine ⟨_, _, h.withTreeNodes_cost hto
    ((hpath.generateConsistencyProof_asks hfrom).mono fun level index hin => by simpa using hin.2)
    (hpath.generateConsistencyProof (storedNode_opens crates db hto) hfrom le_rfl) ?_, ?_⟩
  · omega
  · omega

end opened

/-- **The prover reads logarithmically many nodes.** In an open store, whatever its file went through, opening the
root of a prefix reads one node a set bit of its size, and a proof under that size at most one more a level. -/
theorem prover_reads {config : Config K} [DecidableEq H] (hsubtree : SubtreeLaws crates)
    (hproof : InclusionProofLaws crates) (hpath : ConsistencyProofLaws crates) {miss : Nat → AtlError}
    (hroots : SubtreeReadLaws crates miss) (hproofs : InclusionProofReadLaws crates miss)
    (hpaths : ConsistencyProofReadLaws crates miss) {db : Db} (hstate : DiskState crates config true db) {n : Nat}
    (hheld : n ≤ db.entries.length) (haddressable : n < i64Bound) :
    (1 ≤ n → ∃ root, withTreeNodes db n (crates.computeSubtreeRoot 0 n) = .ok (root, countOnes n)) ∧
    (∀ leafIndex, leafIndex < n → ∃ proof reads,
      withTreeNodes db n (crates.generateInclusionProof leafIndex n) = .ok (proof, reads) ∧
      reads < Nat.clog 2 n + countOnes n) ∧
    (∀ fromSize, fromSize ≤ n → ∃ proof reads,
      consistencyProofMeasuredRaw crates db fromSize n = .ok (proof, reads) ∧ reads ≤ Nat.clog 2 n + countOnes n) ∧
    countOnes n ≤ Nat.clog 2 n + 1 := by
  have hrep := hstate.invariant.2 rfl
  have hu64 := i64Bound_lt_u64Bound
  refine ⟨fun hone => ?_, fun leafIndex hindex => hrep.inclusionProof_cost hproof hproofs hindex hheld,
    fun fromSize hfrom => hrep.consistencyProof_cost hpath hpaths hfrom hheld haddressable, ?_⟩
  · have hroot := hrep.subtreeRoot_cost hsubtree hroots hone (fitting_zero n) (by omega)
    rw [saturatingAdd_of_lt (by omega), Nat.zero_add] at hroot
    exact ⟨_, hroot⟩
  · rw [countOnes_eq (by omega)]
    exact blockCount_le n

theorem prover_reads_migrated :
    (∃ root, withTreeNodes Symbolic.migrated 2 ((Symbolic.crates Symbolic.documents).computeSubtreeRoot 0 2) = .ok (root, 1)) ∧
    ∃ proof reads, consistencyProofMeasuredRaw (Symbolic.crates Symbolic.documents) Symbolic.migrated 1 2 =
      .ok (proof, reads) ∧ reads ≤ 2 := by
  obtain ⟨hroot, -, hconsistency, -⟩ := prover_reads (Symbolic.subtreeLaws _) (Symbolic.inclusionProofLaws _)
    (Symbolic.consistencyProofLaws _) (Symbolic.subtreeReadLaws _) (Symbolic.inclusionProofReadLaws _)
    (Symbolic.consistencyProofReadLaws _) Symbolic.diskState_migrated
    (show 2 ≤ Symbolic.migrated.entries.length by decide) (by decide)
  exact ⟨hroot (by decide), hconsistency 1 (by decide)⟩

-- what the consistency proof from 5 000 to 10 000 entries is known to read
example : (consistencyWalk (· + ·) (fun _ => ()) 5000 10000 : NodeQuery Nat (Except Unit (List Nat))).cost
    (fun level index => if (index + 1) * 2 ^ level ≤ 10000 then some 0 else none) = 15 := by decide +kernel

/-! ### Windows -/

section range
variable [DecidableEq H]

/-- What a response is counted with: the counts of the subtrees opened, the window's leaves, the window's bytes. -/
theorem buildRangeResponseIn_cost {db : Db} {checkpoint : Checkpoint} {start stop : Nat} {response : RangeResponse}
    {cost : RangeReadCost} (hbuild : buildRangeResponseIn crates db checkpoint start stop = .ok (response, cost)) :
    countEntriesRaw db 0 checkpoint.treeSize = .ok checkpoint.treeSize ∧ start < stop ∧ stop ≤ checkpoint.treeSize ∧
    ∃ nodes counted, ∃ leaves : List H, ∃ window,
      openSubtrees crates db ((0, checkpoint.treeSize) :: outsideSubtrees crates 0 checkpoint.treeSize start stop) 0 =
        .ok (nodes, counted) ∧
      leafHashesRangeRaw db start stop = .ok leaves ∧ getEntriesRangeRaw db start stop = .ok window ∧
      cost = ⟨window.foldl (fun total bytes => saturatingAdd total bytes.length) 0, saturatingAdd counted leaves.length⟩ := by
  unfold buildRangeResponseIn at hbuild
  simp only [bind_eq_ok, ite_error_eq_ok] at hbuild
  obtain ⟨held, hcount, hheld, hwindow, root, -, ⟨opened, first⟩, hopen, -, ⟨nodes, counted⟩, hnodes, leaves, hleaves,
    verified, -, -, window, hentries, entries, -, hbuilt⟩ := hbuild
  obtain ⟨-, rfl⟩ := Prod.mk.inj (Except.ok.inj hbuilt)
  obtain rfl : held = checkpoint.treeSize := by simpa using hheld
  refine ⟨hcount, by omega, by omega, opened :: nodes, counted, leaves, window, ?_, hleaves, hentries, rfl⟩
  rw [openSubtrees, hopen]
  simp only [ok_bind]
  rw [hnodes]
  rfl

omit [DecidableEq H] in
theorem openSubtrees_count {db : Db} : ∀ {spans : List (Nat × Nat)} {treeNodes counted : Nat} {nodes : List H},
    openSubtrees crates db spans treeNodes = .ok (nodes, counted) → treeNodes < u64Bound →
      counted = saturatingAdd treeNodes (spans.map fun span => countOnes span.2).sum
  | [], treeNodes, counted, nodes, hopen, hbound => by
    obtain ⟨-, rfl⟩ := Prod.mk.inj (Except.ok.inj hopen)
    exact (saturatingAdd_zero hbound).symm
  | (offset, size) :: rest, treeNodes, counted, nodes, hopen, hbound => by
    rw [openSubtrees, openSubtree] at hopen
    simp only [bind_eq_ok] at hopen
    obtain ⟨⟨node, first⟩, ⟨root, -, hfirst⟩, ⟨others, last⟩, hrest, hlast⟩ := hopen
    obtain ⟨-, rfl⟩ := Prod.mk.inj (Except.ok.inj hfirst)
    obtain ⟨-, rfl⟩ := Prod.mk.inj (Except.ok.inj hlast)
    have hstep : saturatingAdd treeNodes (countOnes size) < u64Bound := by
      have : u64Bound = 2 ^ 64 := rfl
      unfold saturatingAdd
      omega
    rw [openSubtrees_count hrest hstep, saturatingAdd_assoc, List.map_cons, List.sum_cons]

/-- The spans a response opens: the tree, then the subtrees outside the window. -/
def openedSpans (n start stop : Nat) : List (Nat × Nat) := (0, n) :: outsideSpans start stop 0 n

omit [HashOctets H] [DecidableEq H] in
theorem mem_openedSpans {n start stop : Nat} (hone : 1 ≤ n) {span : Nat × Nat} (h : span ∈ openedSpans n start stop) :
    1 ≤ span.2 ∧ Fitting span.1 span.2 ∧ span.1 + span.2 ≤ n := by
  rcases List.mem_cons.1 h with rfl | hspan
  · exact ⟨hone, fitting_zero _, by omega⟩
  · have hwithin := outsideSpans_within hone hspan
    exact ⟨hwithin.1, outsideSpans_fitting hone (fitting_zero _) hspan, by omega⟩

/-- The tree's own blocks, and the blocks of the subtrees that either end of the window leaves outside. -/
theorem sum_openedSpans_lt {n start stop : Nat} (hbound : n < u64Bound) (hlt : start < stop) (hle : stop ≤ n) :
    ((openedSpans n start stop).map fun span => countOnes span.2).sum < 2 * (Nat.clog 2 n + countOnes n) := by
  have hone : 1 ≤ n := by omega
  have hreaches : ¬ Outside start stop 0 n := by
    unfold Outside
    omega
  have hsum := sum_blockCount_outsideSpans_le hlt hone hreaches
  have hpositive := one_le_blockCount hone
  have hcongr : (openedSpans n start stop).map (fun span => countOnes span.2) =
      (openedSpans n start stop).map fun span => blockCount span.2 := by
    apply List.map_congr_left
    intro span hmem
    have := (mem_openedSpans hone hmem).2.2
    exact countOnes_eq (by omega)
  rw [hcongr, countOnes_eq hbound, openedSpans, List.map_cons, List.sum_cons]
  dsimp only
  split_ifs at hsum <;> omega

/-- **A range response reports what it read, and reads its window.** The reported nodes are those that opening the
root and each subtree outside the window reads, and one a leaf of the window; they are the window's width and
logarithmically many beside. The reported bytes are those of the window's entries. -/
theorem range_reads {config : Config K} (hsplit : SplitLaws crates) (hsubtree : SubtreeLaws crates)
    {miss : Nat → AtlError} (hroots : SubtreeReadLaws crates miss) {db : Db} (hstate : DiskState crates config true db)
    {checkpoint : Checkpoint} {start stop : Nat} {response : RangeResponse} {cost : RangeReadCost}
    (hbuild : buildRangeResponseIn crates db checkpoint start stop = .ok (response, cost)) :
    (∃ reads : Nat × Nat → Nat,
      (∀ span ∈ (0, checkpoint.treeSize) :: outsideSubtrees crates 0 checkpoint.treeSize start stop, ∃ root,
        withTreeNodes db (saturatingAdd span.1 span.2) (crates.computeSubtreeRoot span.1 span.2) = .ok (root, reads span)) ∧
      cost.treeNodes = (((0, checkpoint.treeSize) :: outsideSubtrees crates 0 checkpoint.treeSize start stop).map reads).sum +
        (stop - start)) ∧
    cost.treeNodes < (stop - start) + 2 * (Nat.clog 2 checkpoint.treeSize + countOnes checkpoint.treeSize) ∧
    cost.entryBytes = min ((((canonicalEntries db).take stop).drop start).map List.length).sum (u64Bound - 1) ∧
    cost.totalBytes ≤ ((((canonicalEntries db).take stop).drop start).map List.length).sum +
      32 * ((stop - start) + 2 * (Nat.clog 2 checkpoint.treeSize + countOnes checkpoint.treeSize)) := by
  have hrep := hstate.invariant.2 rfl
  obtain ⟨hcount, hlt, hle, nodes, counted, leaves, window, hopen, hleaves, hentries, rfl⟩ := buildRangeResponseIn_cost hbuild
  obtain ⟨haddressable, hheld⟩ := hrep.toCanonical.held_of_count hcount
  have hu64 : i64Bound + 512 < u64Bound := by decide
  have hone : 1 ≤ checkpoint.treeSize := by omega
  rw [hrep.leafHashesRangeRaw (by omega) (by omega)] at hleaves
  rw [hrep.toCanonical.getEntriesRangeRaw (by omega) (by omega)] at hentries
  obtain rfl := Except.ok.inj hleaves
  obtain rfl := Except.ok.inj hentries
  have hwidth : (((leafHashes crates db).take stop).drop start).length = stop - start := by
    rw [List.length_drop, List.length_take, length_leafHashes]
    omega
  have hspans : (0, checkpoint.treeSize) :: outsideSubtrees crates 0 checkpoint.treeSize start stop =
      openedSpans checkpoint.treeSize start stop := by
    rw [outsideSubtrees_eq hsplit.largestPowerOf2LessThan hone (by omega), openedSpans]
  rw [hspans] at hopen ⊢
  have hreads : ∀ span ∈ openedSpans checkpoint.treeSize start stop, ∃ root,
      withTreeNodes db (saturatingAdd span.1 span.2) (crates.computeSubtreeRoot span.1 span.2) =
        .ok (root, countOnes span.2) := by
    intro span hmem
    obtain ⟨hsize, hfitting, hwithin⟩ := mem_openedSpans hone hmem
    exact ⟨_, hrep.subtreeRoot_cost hsubtree hroots hsize hfitting (hwithin.trans hheld)⟩
  have hblocks := sum_openedSpans_lt (show checkpoint.treeSize < u64Bound by omega) hlt hle
  have hcounted := openSubtrees_count hopen (by decide)
  have hbytes := foldl_saturatingAdd List.length (((canonicalEntries db).take stop).drop start) 0 (by decide)
  generalize hsum : ((openedSpans checkpoint.treeSize start stop).map fun span => countOnes span.2).sum = opened
    at hblocks hcounted
  -- neither the levels nor the set bits of a size reach the end of the counter
  have hsmall : 2 * (Nat.clog 2 checkpoint.treeSize + countOnes checkpoint.treeSize) ≤ 512 := by
    have hlevels := clog_le_of_lt (show checkpoint.treeSize < u64Bound by omega)
    have hbits := blockCount_le checkpoint.treeSize
    rw [countOnes_eq (by omega)]
    omega
  rw [saturatingAdd_of_lt (by omega), Nat.zero_add] at hcounted
  dsimp only [RangeReadCost.totalBytes]
  rw [hcounted, hwidth, hbytes, saturatingAdd_of_lt (by omega)]
  refine ⟨⟨_, hreads, by rw [hsum]⟩, by omega, by rw [saturatingAdd, Nat.zero_add], ?_⟩
  have hwindow := saturatingAdd_le 0 ((((canonicalEntries db).take stop).drop start).map List.length).sum
  have hnodes := saturatingMul_le (opened + (stop - start)) 32
  exact (saturatingAdd_le _ _).trans (by omega)

theorem range_reads_migrated : ∃ response cost,
    buildRangeResponseIn (Symbolic.crates Symbolic.documents) Symbolic.migrated
      (Symbolic.checkpoint "A" 2 (Symbolic.rootOf [[1], [5]]) 5) 1 2 = .ok (response, cost) ∧
    cost.treeNodes < 1 + 2 * (Nat.clog 2 2 + countOnes 2) ∧ cost.totalBytes ≤ 1 + 32 * (1 + 2 * (Nat.clog 2 2 + countOnes 2)) := by
  have hserved : (buildRangeResponseIn (Symbolic.crates Symbolic.documents) Symbolic.migrated
      (Symbolic.checkpoint "A" 2 (Symbolic.rootOf [[1], [5]]) 5) 1 2).isOk = true := by decide +kernel
  cases hbuild : buildRangeResponseIn (Symbolic.crates Symbolic.documents) Symbolic.migrated
      (Symbolic.checkpoint "A" 2 (Symbolic.rootOf [[1], [5]]) 5) 1 2 with
  | error e =>
    rw [hbuild] at hserved
    cases hserved
  | ok out =>
    obtain ⟨-, hnodes, -, htotal⟩ := range_reads (Symbolic.splitLaws _) (Symbolic.subtreeLaws _)
      (Symbolic.subtreeReadLaws _) Symbolic.diskState_migrated hbuild
    exact ⟨out.1, out.2, rfl, hnodes, htotal⟩

end range

end AhlMirror

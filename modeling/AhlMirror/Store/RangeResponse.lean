import AhlMirror.Store.Prover
import AhlMirror.Store.Sealed

/-!
# Range responses

The windowed builder reads the window and the roots of the subtrees outside it. Its geometry is the
declarative one (`outsideSubtrees_eq`), so its proof is the one generated from all the leaves, and the
verifier's descent rebuilds the checkpoint's root from it.
-/

namespace AhlMirror

open Merkle

variable {H K : Type} {crates : Crates H K}

/-! ### The geometry -/

theorem classify_eq {offset size start stop : Nat} (hbound : offset + size < u64Bound) :
    classify offset size start stop =
      if Outside start stop offset size then .outside
      else if Inside start stop offset size then .inside else .straddles := by
  unfold classify Outside Inside
  rw [saturatingAdd_of_lt hbound]
  rfl

theorem outsideSubtreesFuel_eq (hpower : ∀ size, 2 ≤ size → crates.largestPowerOf2LessThan size = splitPoint size)
    {start stop : Nat} {offset size : Nat} (hsize : 1 ≤ size) : offset + size < u64Bound → ∀ fuel, size ≤ fuel →
      outsideSubtreesFuel crates start stop fuel offset size = outsideSpans start stop offset size := by
  refine window_induction start stop (P := fun offset size => offset + size < u64Bound → ∀ fuel, size ≤ fuel →
      outsideSubtreesFuel crates start stop fuel offset size = outsideSpans start stop offset size) ?_ ?_ ?_
    offset size hsize
  · intro offset size hone hout hbound fuel hfuel
    obtain ⟨fuel, rfl⟩ : ∃ n, fuel = n + 1 := ⟨fuel - 1, by omega⟩
    rw [outsideSubtreesFuel, classify_eq hbound, outsideSpans_eq hone, if_pos hout, if_pos hout]
  · intro offset size hone hout hin hbound fuel hfuel
    obtain ⟨fuel, rfl⟩ : ∃ n, fuel = n + 1 := ⟨fuel - 1, by omega⟩
    rw [outsideSubtreesFuel, classify_eq hbound, outsideSpans_eq hone, if_neg hout, if_pos hin, if_neg hout, if_pos hin]
  · intro offset size htwo hout hin ihl ihr hbound fuel hfuel
    obtain ⟨fuel, rfl⟩ : ∃ n, fuel = n + 1 := ⟨fuel - 1, by omega⟩
    have hlt := splitPoint_lt htwo
    have hpos := splitPoint_pos size
    rw [outsideSubtreesFuel, classify_eq hbound, outsideSpans_eq (by omega), if_neg hout, if_neg hin, if_neg hout,
      if_neg hin]
    dsimp only
    rw [hpower size htwo, saturatingAdd_of_lt (by omega), ihl (by omega) fuel (by omega),
      ihr (by omega) fuel (by omega)]

theorem outsideSubtrees_eq (hpower : ∀ size, 2 ≤ size → crates.largestPowerOf2LessThan size = splitPoint size)
    {start stop treeSize : Nat} (hsize : 1 ≤ treeSize) (hbound : treeSize < u64Bound) :
    outsideSubtrees crates 0 treeSize start stop = outsideSpans start stop 0 treeSize :=
  outsideSubtreesFuel_eq hpower hsize (by omega) (treeSize + 1) (by omega)

variable [HashOctets H]

theorem openSubtrees_eq (hlaws : SubtreeLaws crates) {db : Db} (h : Represents crates db) :
    ∀ (spans : List (Nat × Nat)) (treeNodes : Nat),
      (∀ span ∈ spans, 1 ≤ span.2 ∧ span.1 + span.2 ≤ db.entries.length) →
      ∃ treeNodes', openSubtrees crates db spans treeNodes =
        .ok (spans.map fun span => spanRoot crates.hashChildren (leafAt crates db) span.1 span.2, treeNodes')
  | [], treeNodes, _ => ⟨treeNodes, rfl⟩
  | (offset, size) :: rest, treeNodes, hspans => by
    obtain ⟨hsize, hle⟩ := hspans (offset, size) List.mem_cons_self
    obtain ⟨treeNodes', hrest⟩ := openSubtrees_eq hlaws h rest (saturatingAdd treeNodes (countOnes size))
      fun span hspan => hspans span (List.mem_cons_of_mem _ hspan)
    refine ⟨treeNodes', ?_⟩
    rw [openSubtrees, openSubtree, h.subtreeRootRaw hlaws hsize hle]
    simp only [ok_bind, hrest, List.map_cons]

/-! ### The window -/

omit [HashOctets H] in
theorem enumerateEntries_ok (fromIndex : Nat) : ∀ (window : List Bytes) (offset : Nat),
    (∀ bytes ∈ window, CanonicalBytes crates bytes) → fromIndex + offset + window.length < u64Bound →
      ∃ entries, enumerateEntries crates fromIndex offset window = .ok entries ∧
        entries.map (fun entry => crates.jcs entry.envelope) = window ∧
        ∀ response : RangeResponse, response.range.fromIndex = fromIndex →
          checkContiguous response offset entries = .ok ()
  | [], offset, _, _ => ⟨[], rfl, rfl, fun _ _ => rfl⟩
  | bytes :: rest, offset, hcanonical, hbound => by
    rw [List.length_cons] at hbound
    obtain ⟨value, hvalue, hjcs⟩ := hcanonical bytes List.mem_cons_self
    obtain ⟨entries, hentries, hbytes, hcontiguous⟩ := enumerateEntries_ok fromIndex rest (offset + 1)
      (fun other hother => hcanonical other (List.mem_cons_of_mem _ hother)) (by omega)
    refine ⟨⟨fromIndex + offset, value⟩ :: entries, ?_, ?_, ?_⟩
    · rw [enumerateEntries, checkedAdd_of_lt (by omega), hvalue, hentries]
      rfl
    · rw [List.map_cons, hbytes, hjcs]
    · intro response hrange
      rw [checkContiguous, hrange, checkedAdd_of_lt (by omega)]
      simp only [okOr, ok_bind]
      rw [if_neg (by simp)]
      exact hcontiguous response hrange

theorem sliceGet_take {α : Type} {items : List α} {start stop n : Nat} (hlt : start ≤ stop) (hle : stop ≤ n)
    (hn : n ≤ items.length) : sliceGet (items.take n) start stop = some ((items.take stop).drop start) := by
  rw [sliceGet, if_pos ⟨hlt, by rw [List.length_take]; omega⟩, List.drop_take, List.drop_take, List.take_take,
    Nat.min_eq_left (by omega)]

/-! ### A window -/

variable (crates) in
/-- The proof of the window `[start, stop)` of the first `n` entries. -/
def windowProof (db : Db) (n start stop : Nat) : RangeProof H :=
  ⟨n, start, stop, (outsideSpans start stop 0 n).map fun span =>
    spanRoot crates.hashChildren (leafAt crates db) span.1 span.2⟩

/-- A proper window of the prefix a checkpoint covers: its entries, parsed, and its leaves, which its proof
opens to the checkpoint's root. -/
structure Windowed (crates : Crates H K) (db : Db) (checkpoint : Checkpoint) (start stop : Nat)
    (entries : List EnumeratedEntry) (root : H) : Prop where
  lt : start < stop
  le : stop ≤ checkpoint.treeSize
  held : checkpoint.treeSize ≤ db.entries.length
  addressable : checkpoint.treeSize < i64Bound
  claimed : crates.parseHashHex checkpoint.rootHash = .ok root
  prefixRoot : root = mth crates.hashChildren (crates.digest []) ((leafHashes crates db).take checkpoint.treeSize)
  parsed : enumerateEntries crates start 0 (((canonicalEntries db).take stop).drop start) = .ok entries
  canonical : entries.map (fun entry => crates.jcs entry.envelope) = ((canonicalEntries db).take stop).drop start
  contiguous : ∀ response : RangeResponse, response.range.fromIndex = start → checkContiguous response 0 entries = .ok ()
  verifies : crates.rangeProofVerify (windowProof crates db checkpoint.treeSize start stop)
    (((leafHashes crates db).take stop).drop start) root = .ok true

/-- The response both builders give. -/
def windowResponse (crates : Crates H K) (db : Db) (checkpoint : Checkpoint) (start stop : Nat)
    (entries : List EnumeratedEntry) : RangeResponse :=
  ⟨⟨start, stop⟩, entries, ⟨crates.rangeProofEncode (windowProof crates db checkpoint.treeSize start stop)⟩, checkpoint⟩

omit [HashOctets H] in
theorem windowLeaves_eq (db : Db) (start stop : Nat) : ((leafHashes crates db).take stop).drop start =
    (((canonicalEntries db).take stop).drop start).map (logLeafHash crates) := by
  rw [leafHashes, List.map_drop, List.map_take]

namespace Windowed

variable {db : Db} {checkpoint : Checkpoint} {start stop : Nat} {entries : List EnumeratedEntry} {root : H}
  (h : Windowed crates db checkpoint start stop entries root)
include h

theorem buildRangeResponse [DecidableEq H] (hsplit : SplitLaws crates) (hsubtree : SubtreeLaws crates)
    (hrep : Represents crates db) : buildRangeResponse crates db checkpoint start stop =
      .ok (windowResponse crates db checkpoint start stop entries) := by
  have hlt := h.lt
  have hle := h.le
  have hheld := h.held
  have haddressable := h.addressable
  have hu64 := i64Bound_lt_u64Bound
  have hone : 1 ≤ checkpoint.treeSize := by omega
  obtain ⟨treeNodes, hopen⟩ := openSubtrees_eq hsubtree hrep (outsideSpans start stop 0 checkpoint.treeSize)
    (saturatingAdd 0 (countOnes checkpoint.treeSize)) fun span hspan => by
      have hwithin := outsideSpans_within hone hspan
      omega
  unfold AhlMirror.buildRangeResponse buildRangeResponseIn
  simp only [hrep.toCanonical.countEntriesRaw_held haddressable hheld, ok_bind, ne_eq, not_true_eq_false, if_false]
  rw [if_neg (by omega)]
  simp only [h.claimed, mapErr, ok_bind, openSubtree]
  rw [hrep.subtreeRootRaw hsubtree hone (by omega), ← mth_leafHashes crates hone hheld, ← h.prefixRoot]
  simp only [ok_bind, not_true_eq_false, if_false]
  rw [outsideSubtrees_eq hsplit.largestPowerOf2LessThan hone (by omega), hopen]
  simp only [ok_bind]
  rw [hrep.leafHashesRangeRaw (by omega) (by omega)]
  simp only [ok_bind]
  rw [show crates.rangeProofVerify ⟨checkpoint.treeSize, start, stop, _⟩ _ root = _ from h.verifies]
  simp only [ok_bind, Bool.true_eq_false, if_false]
  rw [hrep.toCanonical.getEntriesRangeRaw (by omega) (by omega)]
  simp only [ok_bind]
  rw [h.parsed]
  rfl

omit [HashOctets H] in
theorem buildRangeResponseFromPrefix [DecidableEq H] (hroot : RootLaws crates) (hrange : RangeLaws crates) :
    buildRangeResponseFromPrefix crates checkpoint start stop ((canonicalEntries db).take checkpoint.treeSize) =
      .ok (windowResponse crates db checkpoint start stop entries) := by
  have hlt := h.lt
  have hle := h.le
  have hheld := h.held
  have hlength : ((canonicalEntries db).take checkpoint.treeSize).length = checkpoint.treeSize := by
    rw [List.length_take, length_canonicalEntries]
    omega
  have hleaves : ((canonicalEntries db).take checkpoint.treeSize).map (logLeafHash crates) =
      (leafHashes crates db).take checkpoint.treeSize := by
    rw [leafHashes, List.map_take]
  have hleavesLength : ((leafHashes crates db).take checkpoint.treeSize).length = checkpoint.treeSize := by
    rw [← hleaves, List.length_map, hlength]
  obtain ⟨spans, hsorted, hmem, hgenerate⟩ := hrange.generate ((leafHashes crates db).take checkpoint.treeSize)
    (leafAt crates db) start stop hlt (by omega) fun i hi => by
      rw [List.getElem_take]
      exact leafHashes_getElem crates db _
  rw [hleavesLength] at hmem hgenerate
  rw [eq_outsideSpans (by omega) hsorted hmem] at hgenerate
  unfold AhlMirror.buildRangeResponseFromPrefix
  simp only [hlength, ne_eq, not_true_eq_false, if_false]
  rw [if_neg (by omega)]
  simp only [h.claimed, mapErr, ok_bind, hleaves]
  rw [hroot.computeRoot, ← h.prefixRoot, if_neg (by simp), hgenerate]
  simp only [ok_bind]
  rw [sliceGet_take hlt.le hle (by simpa using hheld)]
  simp only [okOr, ok_bind]
  rw [show crates.rangeProofVerify ⟨checkpoint.treeSize, start, stop, _⟩ _ root = _ from h.verifies]
  simp only [ok_bind, Bool.true_eq_false, if_false]
  rw [sliceGet_take hlt.le hle (by simpa using hheld)]
  simp only [ok_bind]
  rw [h.parsed]
  rfl

omit [HashOctets H] in
theorem verifyRangeResponse (hrange : RangeLaws crates) :
    verifyRangeResponse crates (windowResponse crates db checkpoint start stop entries) = .ok true := by
  have hleaves : entries.map (fun entry => logLeafHash crates (crates.jcs entry.envelope)) =
      ((leafHashes crates db).take stop).drop start := by
    rw [windowLeaves_eq, ← h.canonical, List.map_map]
    rfl
  unfold AhlMirror.verifyRangeResponse windowResponse
  rw [h.contiguous _ rfl]
  simp only [ok_bind, hrange.decode, mapErr, windowProof, ne_eq, not_true_eq_false, false_or, if_false, h.claimed]
  rw [hleaves]
  exact congrArg (mapErr _) h.verifies

end Windowed

/-! ### Agreement -/

variable [DecidableEq H] {config : Config K}

omit [HashOctets H] [DecidableEq H] in
theorem windowed_of_root (hrange : RangeLaws crates) {db : Db}
    (hcanonical : ∀ row ∈ db.entries, CanonicalBytes crates row.envelope) {checkpoint : Checkpoint}
    (hsize : checkpoint.treeSize ≤ db.entries.length) (hbound : checkpoint.treeSize < i64Bound)
    (hroot : crates.parseHashHex checkpoint.rootHash =
      .ok (mth crates.hashChildren (crates.digest []) ((leafHashes crates db).take checkpoint.treeSize)))
    {start stop : Nat} (hlt : start < stop) (hle : stop ≤ checkpoint.treeSize) : ∃ entries,
      Windowed crates db checkpoint start stop entries
        (mth crates.hashChildren (crates.digest []) ((leafHashes crates db).take checkpoint.treeSize)) := by
  have hu64 := i64Bound_lt_u64Bound
  have hone : 1 ≤ checkpoint.treeSize := by omega
  have hlength : (((canonicalEntries db).take stop).drop start).length = stop - start := by
    rw [List.length_drop, List.length_take, length_canonicalEntries]
    omega
  have hbytes : ∀ bytes ∈ ((canonicalEntries db).take stop).drop start, CanonicalBytes crates bytes := by
    intro bytes hbytes
    obtain ⟨row, hrow, rfl⟩ := List.mem_map.1 (List.mem_of_mem_take (List.mem_of_mem_drop hbytes))
    exact hcanonical row hrow
  obtain ⟨entries, hparsed, hjcs, hcontiguous⟩ := enumerateEntries_ok start _ 0 hbytes (by rw [hlength]; omega)
  refine ⟨entries, hlt, hle, hsize, hbound, hroot, rfl, hparsed, hjcs, hcontiguous, ?_⟩
  apply hrange.verify _ _ _ _ _ (leafAt crates db) _ hlt hle
  · rw [windowLeaves_eq, List.length_map, hlength]
  · intro i hi
    simp only [List.getElem_drop, List.getElem_take]
    exact leafHashes_getElem crates db _
  · rw [mth_leafHashes crates hone hsize]
    exact rebuild_outsideSpans (fun i _ _ => rfl) hone

theorem Reachable.windowed (hinclusion : InclusionLaws crates) (hrange : RangeLaws crates) {db : Db}
    (hreach : Reachable crates config db) {checkpoint : Checkpoint} (hsize : checkpoint.treeSize ≤ db.entries.length)
    (hroot : crates.parseHashHex checkpoint.rootHash =
      .ok (mth crates.hashChildren (crates.digest []) ((leafHashes crates db).take checkpoint.treeSize)))
    {start stop : Nat} (hlt : start < stop) (hle : stop ≤ checkpoint.treeSize) : ∃ entries,
      Windowed crates db checkpoint start stop entries
        (mth crates.hashChildren (crates.digest []) ((leafHashes crates db).take checkpoint.treeSize)) :=
  windowed_of_root hrange (fun row hrow => (hreach.isSealed.entries row hrow).2) hsize
    (hsize.trans_lt (hreach.addressable hinclusion)) hroot hlt hle

/-- **The windowed builder is the full-prefix builder.** Under a checkpoint whose root is that of the
stored prefix, a proper window yields the response built from all the entries, which verifies offline;
every other window is refused. -/
theorem rangeResponse_agrees (hsplit : SplitLaws crates) (hcompute : RootLaws crates) (hsubtree : SubtreeLaws crates)
    (hinclusion : InclusionLaws crates) (hrange : RangeLaws crates) {db : Db} (hreach : Reachable crates config db)
    {checkpoint : Checkpoint} (hsize : checkpoint.treeSize ≤ db.entries.length)
    (hroot : crates.parseHashHex checkpoint.rootHash =
      .ok (mth crates.hashChildren (crates.digest []) ((leafHashes crates db).take checkpoint.treeSize))) :
    (∀ start stop, start < stop → stop ≤ checkpoint.treeSize → ∃ response,
      buildRangeResponse crates db checkpoint start stop = .ok response ∧
      buildRangeResponseFromPrefix crates checkpoint start stop
        ((canonicalEntries db).take checkpoint.treeSize) = .ok response ∧
      verifyRangeResponse crates response = .ok true) ∧
    ∀ start stop, ¬ (start < stop ∧ stop ≤ checkpoint.treeSize) →
      buildRangeResponse crates db checkpoint start stop = .error (.invalidRange start stop checkpoint.treeSize) := by
  constructor
  · intro start stop hlt hle
    obtain ⟨entries, h⟩ := hreach.windowed hinclusion hrange hsize hroot hlt hle
    exact ⟨windowResponse crates db checkpoint start stop entries, h.buildRangeResponse hsplit hsubtree hreach.represents,
      h.buildRangeResponseFromPrefix hcompute hrange, h.verifyRangeResponse hrange⟩
  · intro start stop hwindow
    have hbound : checkpoint.treeSize < i64Bound := hsize.trans_lt (hreach.addressable hinclusion)
    unfold buildRangeResponse buildRangeResponseIn
    simp only [hreach.represents.toCanonical.countEntriesRaw_held hbound hsize, ok_bind, ne_eq, not_true_eq_false, if_false]
    rw [if_pos (by omega)]
    rfl

theorem rangeResponse_agrees_twoEntries : ∃ response,
    buildRangeResponse (Symbolic.crates Symbolic.documents) Symbolic.twoEntries
      (Symbolic.checkpoint "A" 2 (Symbolic.rootOf [[1], [5]]) 5) 1 2 = .ok response ∧
    buildRangeResponseFromPrefix (Symbolic.crates Symbolic.documents)
      (Symbolic.checkpoint "A" 2 (Symbolic.rootOf [[1], [5]]) 5) 1 2
      ((canonicalEntries Symbolic.twoEntries).take 2) = .ok response ∧
    verifyRangeResponse (Symbolic.crates Symbolic.documents) response = .ok true :=
  (rangeResponse_agrees (Symbolic.splitLaws _) (Symbolic.rootLaws _) (Symbolic.subtreeLaws _) (Symbolic.inclusionLaws _)
    (Symbolic.rangeLaws _) (Symbolic.reachable_after _)
    (show (Symbolic.checkpoint "A" 2 (Symbolic.rootOf [[1], [5]]) 5).treeSize ≤ Symbolic.twoEntries.entries.length by
      decide +kernel) (by decide +kernel)).1 1 2 (by decide) (by decide)

end AhlMirror

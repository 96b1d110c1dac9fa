import AhlMirror.Core.Lows
import AhlMirror.Series.Independence

/-!
# The rotation table over any sequence of offers

The rows of a rotation are the lows of the checkpoints offered for it, in the order of the offers, and the
last of them is served. What is served is therefore the least offer that was not refused, in whatever
order the offers came and whatever was offered for other rotations in between.
-/

namespace AhlMirror

open AhlMirror.Core (lower lows Machine)

/-- The checkpoints a table or a sequence of offers has for a rotation, in order. -/
def ofRotation (index : Nat) (table : List (Nat × Checkpoint)) : List Checkpoint :=
  (table.filter fun row => row.1 == index).map (·.2)

/-- Of the offers, those whose size a row can hold. -/
def storable (cps : List Checkpoint) : List Checkpoint := cps.filter fun cp => decide (cp.treeSize < i64Bound)

/-- The store after a sequence of offers. -/
abbrev afterOffers (db : Db) (offers : List (Nat × Checkpoint)) : Db := rotationTable.exec db offers

/-- The offer is made, and it is not refused. -/
def Taken (db : Db) (offers : List (Nat × Checkpoint)) (index : Nat) (cp : Checkpoint) : Prop :=
  ∃ before rest outcome, offers = before ++ (index, cp) :: rest ∧
    (insertRotationCheckpoint (afterOffers db before) index cp).2 = .ok outcome

/-- Each offer for the rotation is taken when it comes. -/
def NoneRefused (db : Db) (offers : List (Nat × Checkpoint)) (index : Nat) : Prop :=
  rotationTable.Along (fun db offer => offer.1 = index →
    ∃ outcome, (insertRotationCheckpoint db offer.1 offer.2).2 = .ok outcome) db offers

/-- No two have one size and one time. -/
def PairwiseDistinct (cps : List Checkpoint) : Prop :=
  cps.Pairwise fun a b => ¬ (a.treeSize = b.treeSize ∧ a.checkpointTime = b.checkpointTime)

theorem mem_ofRotation {table : List (Nat × Checkpoint)} {index : Nat} {cp : Checkpoint} :
    cp ∈ ofRotation index table ↔ (index, cp) ∈ table := by
  unfold ofRotation
  simp only [List.mem_map, List.mem_filter, beq_iff_eq, Prod.exists, exists_eq_right]

theorem ofRotation_append (index : Nat) (table more : List (Nat × Checkpoint)) :
    ofRotation index (table ++ more) = ofRotation index table ++ ofRotation index more := by
  unfold ofRotation
  rw [List.filter_append, List.map_append]

theorem ofRotation_self (index : Nat) (cp : Checkpoint) : ofRotation index [(index, cp)] = [cp] := by
  unfold ofRotation
  rw [List.filter_singleton, beq_self_eq_true]
  rfl

theorem ofRotation_other {i index : Nat} (h : i ≠ index) (cp : Checkpoint) : ofRotation index [(i, cp)] = [] := by
  unfold ofRotation
  rw [List.filter_singleton, beq_false_of_ne h]
  rfl

theorem mem_storable {cps : List Checkpoint} {cp : Checkpoint} : cp ∈ storable cps ↔ cp ∈ cps ∧ cp.treeSize < i64Bound := by
  unfold storable
  rw [List.mem_filter, decide_eq_true_eq]

theorem storable_append_singleton (cps : List Checkpoint) (cp : Checkpoint) :
    storable (cps ++ [cp]) = if cp.treeSize < i64Bound then storable cps ++ [cp] else storable cps := by
  unfold storable
  rw [List.filter_append, List.filter_singleton]
  split_ifs with hsize
  · rw [decide_eq_true hsize]
    rfl
  · rw [decide_eq_false hsize]
    exact List.append_nil _

/-! ### One offer -/

theorem insertRotationCheckpointRaw_bounds {db : Db} {index : Nat} {cp : Checkpoint} {out : InsertOutcome × Db}
    (h : insertRotationCheckpointRaw db index cp = .ok out) : index < i64Bound ∧ cp.treeSize < i64Bound := by
  unfold insertRotationCheckpointRaw at h
  simp only [bind_eq_ok, toI64_eq_ok] at h
  obtain ⟨-, ⟨hindex, -⟩, -, ⟨hsize, -⟩, -⟩ := h
  exact ⟨hindex, hsize⟩

theorem rotationTable_next_cases {db : Db} (hkeyed : RotationsKeyed db) (index : Nat) (cp : Checkpoint) :
    (rotationTable.next db (index, cp) = db ∧ (index < i64Bound → cp.treeSize < i64Bound →
      ∃ held, (index, held) ∈ db.rotationCheckpoints ∧ seriesLE held cp)) ∨
    (rotationTable.next db (index, cp) = { db with rotationCheckpoints := db.rotationCheckpoints ++ [(index, cp)] } ∧
      (index < i64Bound ∧ cp.treeSize < i64Bound) ∧
      (∀ held, (index, held) ∈ db.rotationCheckpoints → ¬ seriesLE held cp) ∧
      ∃ outcome, (insertRotationCheckpoint db index cp).2 = .ok outcome) := by
  show ((insertRotationCheckpoint db index cp).1 = db ∧ _) ∨ ((insertRotationCheckpoint db index cp).1 = _ ∧ _)
  unfold insertRotationCheckpoint withTransaction
  dsimp only
  cases hraw : insertRotationCheckpointRaw db index cp with
  | error e =>
    refine Or.inl ⟨rfl, fun hindex hsize => ?_⟩
    have hclash : Clash db index cp := by
      by_contra hnone
      obtain ⟨out, hout⟩ := (insertRotationCheckpointRaw_ok_iff hkeyed hindex hsize).2 hnone
      rw [hraw] at hout
      cases hout
    obtain ⟨held, hheld, hheldSize, hheldTime, -⟩ := hclash
    exact ⟨held, hheld, Or.inr ⟨hheldSize, hheldTime.le⟩⟩
  | ok out =>
    obtain ⟨outcome, after⟩ := out
    rcases insertRotationCheckpointRaw_cases hraw with ⟨rfl, hheld⟩ | ⟨rfl, hfree⟩
    · exact Or.inl ⟨rfl, fun _ _ => hheld⟩
    · exact Or.inr ⟨rfl, insertRotationCheckpointRaw_bounds hraw, hfree, outcome, rfl⟩

theorem RotationsKeyed.offer {db : Db} (h : RotationsKeyed db) (offer : Nat × Checkpoint) :
    RotationsKeyed (rotationTable.next db offer) := by
  rcases withTransaction_cases db (insertRotationCheckpointRaw · offer.1 offer.2) with hsame | ⟨outcome, hok⟩
  · show RotationsKeyed (withTransaction db _).1
    rw [hsame]
    exact h
  · exact h.insert hok

theorem ofRotation_next {db : Db} (hkeyed : RotationsKeyed db) {index : Nat} (hindex : index < i64Bound) (cp : Checkpoint) :
    ofRotation index (rotationTable.next db (index, cp)).rotationCheckpoints =
      if cp.treeSize < i64Bound then lower seriesLE (ofRotation index db.rotationCheckpoints) cp
      else ofRotation index db.rotationCheckpoints := by
  rcases rotationTable_next_cases hkeyed index cp with ⟨hsame, hheld⟩ | ⟨hadded, ⟨-, hsize⟩, hfree, -⟩
  · rw [hsame]
    split_ifs with hsize
    · obtain ⟨held, hmem, hle⟩ := hheld hindex hsize
      rw [Core.lower_of_le ⟨held, mem_ofRotation.2 hmem, hle⟩]
    · rfl
  · rw [hadded, if_pos hsize, Core.lower_of_free fun held hmem => hfree held (mem_ofRotation.1 hmem)]
    show ofRotation index (db.rotationCheckpoints ++ [(index, cp)]) = _
    rw [ofRotation_append, ofRotation_self]

theorem ofRotation_next_other {db : Db} (hkeyed : RotationsKeyed db) {i index : Nat} (hne : i ≠ index) (cp : Checkpoint) :
    ofRotation index (rotationTable.next db (i, cp)).rotationCheckpoints = ofRotation index db.rotationCheckpoints := by
  rcases rotationTable_next_cases hkeyed i cp with ⟨hsame, -⟩ | ⟨hadded, -⟩
  · rw [hsame]
  · rw [hadded]
    show ofRotation index (db.rotationCheckpoints ++ [(i, cp)]) = _
    rw [ofRotation_append, ofRotation_other hne, List.append_nil]

/-! ### Over a sequence -/

section sequence
variable {db : Db} (hempty : db.rotationCheckpoints = []) {index : Nat}
include hempty

theorem afterOffers_keyed (offers : List (Nat × Checkpoint)) : RotationsKeyed (afterOffers db offers) := by
  apply rotationTable.exec_invariant fun _ offer h => h.offer offer
  unfold RotationsKeyed
  rw [hempty]
  exact fun _ _ _ ha => absurd ha List.not_mem_nil

/-- The rows of a rotation are the lows of what was offered for it. -/
theorem ofRotation_afterOffers (hindex : index < i64Bound) (offers : List (Nat × Checkpoint)) :
    ofRotation index (afterOffers db offers).rotationCheckpoints = lows seriesLE (storable (ofRotation index offers)) := by
  induction offers using List.reverseRecOn with
  | nil =>
    show ofRotation index db.rotationCheckpoints = []
    rw [hempty]
    rfl
  | append_singleton offers offer ih =>
    obtain ⟨i, cp⟩ := offer
    have hkeyed := afterOffers_keyed hempty offers
    show ofRotation index (rotationTable.exec db (offers ++ [(i, cp)])).rotationCheckpoints = _
    rw [Machine.exec_append, ofRotation_append]
    by_cases hsame : i = index
    · subst hsame
      rw [ofRotation_self, storable_append_singleton]
      refine (ofRotation_next hkeyed hindex cp).trans ?_
      rw [ih]
      split_ifs
      · rw [Core.lows_append_singleton]
      · rfl
    · rw [ofRotation_other hsame, List.append_nil]
      exact (ofRotation_next_other hkeyed hsame cp).trans ih

theorem getRotationCheckpoint_afterOffers (hindex : index < i64Bound) (offers : List (Nat × Checkpoint)) :
    getRotationCheckpoint (afterOffers db offers) index =
      .ok (lows seriesLE (storable (ofRotation index offers))).getLast? := by
  have hrows := ofRotation_afterOffers hempty hindex offers
  unfold getRotationCheckpoint rotationRows
  rw [toI64_of_lt hindex, ok_bind]
  show Except.ok (((ofRotation index (afterOffers db offers).rotationCheckpoints).insertionSort seriesLE).head?) = _
  rw [hrows, Core.head?_insertionSort (Core.pairwise_lows _)]

theorem taken_of_row (offers : List (Nat × Checkpoint)) {cp : Checkpoint}
    (h : (index, cp) ∈ (afterOffers db offers).rotationCheckpoints) : Taken db offers index cp := by
  induction offers using List.reverseRecOn with
  | nil =>
    have hrow : (index, cp) ∈ db.rotationCheckpoints := h
    rw [hempty] at hrow
    cases hrow
  | append_singleton offers offer ih =>
    obtain ⟨i, other⟩ := offer
    have hearlier : (index, cp) ∈ (afterOffers db offers).rotationCheckpoints → Taken db (offers ++ [(i, other)]) index cp := by
      intro hrow
      obtain ⟨before, rest, outcome, rfl, hok⟩ := ih hrow
      exact ⟨before, rest ++ [(i, other)], outcome, by simp, hok⟩
    have hstep : afterOffers db (offers ++ [(i, other)]) = rotationTable.next (afterOffers db offers) (i, other) :=
      Machine.exec_append _ _ _ _
    rw [hstep] at h
    rcases rotationTable_next_cases (afterOffers_keyed hempty offers) i other with ⟨hsame, -⟩ | ⟨hadded, -, -, outcome, hok⟩
    · rw [hsame] at h
      exact hearlier h
    · rw [hadded] at h
      rcases List.mem_append.1 h with hold | hnew
      · exact hearlier hold
      · obtain ⟨rfl, rfl⟩ := Prod.mk.inj (List.mem_singleton.1 hnew)
        exact ⟨offers, [], outcome, rfl, hok⟩

end sequence

theorem ofRotation_filter (index : Nat) (offers : List (Nat × Checkpoint)) :
    ofRotation index (offers.filter fun offer => offer.1 == index) = ofRotation index offers := by
  unfold ofRotation
  rw [List.filter_filter]
  simp only [Bool.and_self]

theorem Taken.mem_storable {db : Db} {offers : List (Nat × Checkpoint)} {index : Nat} {cp : Checkpoint}
    (h : Taken db offers index cp) : cp ∈ storable (ofRotation index offers) := by
  obtain ⟨before, rest, outcome, rfl, hok⟩ := h
  have hresult := withTransaction_eq_ok (Prod.ext rfl hok)
  refine AhlMirror.mem_storable.2 ⟨mem_ofRotation.2 ?_, (insertRotationCheckpointRaw_bounds hresult).2⟩
  exact List.mem_append_right _ List.mem_cons_self

theorem rotationCheckpoints_prefix {db : Db} (hkeyed : RotationsKeyed db) (more : List (Nat × Checkpoint)) :
    db.rotationCheckpoints <+: (afterOffers db more).rotationCheckpoints := by
  refine rotationTable.exec_relates (I := RotationsKeyed)
    (E := fun db after => db.rotationCheckpoints <+: after.rotationCheckpoints) (fun _ offer h => h.offer offer)
    (fun _ => List.prefix_rfl) (fun _ _ _ h h' => h.trans h') (fun db offer hkeyed => ?_) more hkeyed
  obtain ⟨i, cp⟩ := offer
  rcases rotationTable_next_cases hkeyed i cp with ⟨hsame, -⟩ | ⟨hadded, -⟩
  · rw [hsame]
  · rw [hadded]
    exact List.prefix_append _ _

/-! ### The order of the offers -/

theorem PairwiseDistinct.eq {cps : List Checkpoint} (h : PairwiseDistinct cps) {a b : Checkpoint} (ha : a ∈ cps)
    (hb : b ∈ cps) (hle : seriesLE a b) (hle' : seriesLE b a) : a = b := by
  have hsymm : Std.Symm fun a b : Checkpoint => ¬ (a.treeSize = b.treeSize ∧ a.checkpointTime = b.checkpointTime) :=
    ⟨fun _ _ hdistinct hkey => hdistinct ⟨hkey.1.symm, hkey.2.symm⟩⟩
  by_contra hne
  exact List.Pairwise.forall h ha hb hne (hle.antisymm hle')

theorem noneRefused_of_distinct {db : Db} (hempty : db.rotationCheckpoints = []) {index : Nat} (hindex : index < i64Bound)
    (offers : List (Nat × Checkpoint)) (hdistinct : PairwiseDistinct (ofRotation index offers))
    (hsize : ∀ cp ∈ ofRotation index offers, cp.treeSize < i64Bound) : NoneRefused db offers index := by
  induction offers using List.reverseRecOn with
  | nil => trivial
  | append_singleton offers offer ih =>
    obtain ⟨i, cp⟩ := offer
    unfold PairwiseDistinct at hdistinct
    rw [ofRotation_append, List.pairwise_append] at hdistinct
    rw [ofRotation_append] at hsize
    apply rotationTable.along_append.2
    refine ⟨ih hdistinct.1 fun a ha => hsize a (List.mem_append_left _ ha), fun hsame => ?_, trivial⟩
    obtain rfl : i = index := hsame
    rw [ofRotation_self] at hdistinct hsize
    have hcp : cp.treeSize < i64Bound := hsize cp (List.mem_append_right _ (List.mem_singleton_self cp))
    have hnone : ¬ Clash (afterOffers db offers) i cp := by
      rintro ⟨held, hheld, hkey, hkey', -⟩
      have hoffered := (mem_storable.1 (taken_of_row hempty offers hheld).mem_storable).1
      exact hdistinct.2.2 held hoffered cp (List.mem_singleton_self cp) ⟨hkey, hkey'⟩
    obtain ⟨⟨outcome, after⟩, hraw⟩ :=
      (insertRotationCheckpointRaw_ok_iff (afterOffers_keyed hempty offers) hindex hcp).2 hnone
    refine ⟨outcome, ?_⟩
    show (withTransaction (afterOffers db offers) (insertRotationCheckpointRaw · i cp)).2 = .ok outcome
    unfold withTransaction
    dsimp only
    rw [hraw]

/-- What a rotation is owed after a sequence of offers. -/
structure ServesLeast (db : Db) (offers : List (Nat × Checkpoint)) (index : Nat) : Prop where
  answers : ∃ found, getRotationCheckpoint (afterOffers db offers) index = .ok found
  none_iff : getRotationCheckpoint (afterOffers db offers) index = .ok none ↔
    ∀ cp, (index, cp) ∈ offers → ¬ cp.treeSize < i64Bound
  least : ∀ served, getRotationCheckpoint (afterOffers db offers) index = .ok (some served) →
    Taken db offers index served ∧ ∀ other, Taken db offers index other → seriesLE served other
  descending : (ofRotation index (afterOffers db offers).rotationCheckpoints).Pairwise fun earlier later =>
    seriesLE later earlier ∧ ¬ seriesLE earlier later
  own : getRotationCheckpoint (afterOffers db (offers.filter fun offer => offer.1 == index)) index =
    getRotationCheckpoint (afterOffers db offers) index
  anyOrder : ∀ others, (ofRotation index others).Perm (ofRotation index offers) →
    PairwiseDistinct (ofRotation index offers) → (∀ cp ∈ ofRotation index offers, cp.treeSize < i64Bound) →
    getRotationCheckpoint (afterOffers db others) index = getRotationCheckpoint (afterOffers db offers) index ∧
      NoneRefused db offers index ∧ NoneRefused db others index

theorem servesLeast {db : Db} (hempty : db.rotationCheckpoints = []) {index : Nat} (hindex : index < i64Bound)
    (offers : List (Nat × Checkpoint)) : ServesLeast db offers index where
  answers := ⟨_, getRotationCheckpoint_afterOffers hempty hindex offers⟩
  none_iff := by
    rw [getRotationCheckpoint_afterOffers hempty hindex, Except.ok.injEq, List.getLast?_eq_none_iff, Core.lows_eq_nil,
      List.eq_nil_iff_forall_not_mem]
    simp only [mem_storable, mem_ofRotation, not_and]
  least served hserved := by
    rw [getRotationCheckpoint_afterOffers hempty hindex, Except.ok.injEq] at hserved
    have hlow := List.mem_of_getLast? hserved
    rw [← ofRotation_afterOffers hempty hindex offers] at hlow
    refine ⟨taken_of_row hempty offers (mem_ofRotation.1 hlow), fun other hother => ?_⟩
    exact Core.last_low_le hserved other hother.mem_storable
  descending := by
    rw [ofRotation_afterOffers hempty hindex]
    apply (Core.pairwise_lows _).imp
    intro earlier later hnot
    exact ⟨(seriesLE.total earlier later).resolve_left hnot, hnot⟩
  own := by
    rw [getRotationCheckpoint_afterOffers hempty hindex, getRotationCheckpoint_afterOffers hempty hindex,
      ofRotation_filter]
  anyOrder others hperm hdistinct hsize := by
    have hdistinct' : PairwiseDistinct (ofRotation index others) := by
      apply hperm.symm.pairwise hdistinct
      intro a b hab hkey
      exact hab ⟨hkey.1.symm, hkey.2.symm⟩
    refine ⟨?_, noneRefused_of_distinct hempty hindex offers hdistinct hsize,
      noneRefused_of_distinct hempty hindex others hdistinct' fun cp hcp => hsize cp (hperm.subset hcp)⟩
    rw [getRotationCheckpoint_afterOffers hempty hindex, getRotationCheckpoint_afterOffers hempty hindex]
    congr 1
    apply Core.last_low_perm (hperm.filter _)
    intro a ha b hb
    exact hdistinct'.eq (mem_storable.1 ha).1 (mem_storable.1 hb).1

/-- **The least offer is served.** The rotation table keeps every row it took. For a rotation whose index a
row can hold it serves the least offer taken, whatever the order and whatever was offered for others; for
any other rotation every offer and the read are refused. -/
theorem rotation_table_serves_least {db : Db} (hempty : db.rotationCheckpoints = []) (index : Nat)
    (offers : List (Nat × Checkpoint)) :
    (∀ more, (afterOffers db offers).rotationCheckpoints <+: (afterOffers db (offers ++ more)).rotationCheckpoints) ∧
    (index < i64Bound → ServesLeast db offers index) ∧
    (¬ index < i64Bound → (∀ cp, ¬ Taken db offers index cp) ∧
      getRotationCheckpoint (afterOffers db offers) index = .error (.indexOverflow "manifest_entry_index")) := by
  refine ⟨fun more => ?_, fun hindex => servesLeast hempty hindex offers, fun hindex => ⟨?_, ?_⟩⟩
  · rw [afterOffers, afterOffers, Machine.exec_append]
    exact rotationCheckpoints_prefix (afterOffers_keyed hempty offers) more
  · rintro cp ⟨before, rest, outcome, -, hok⟩
    exact hindex (insertRotationCheckpointRaw_bounds (withTransaction_eq_ok (Prod.ext rfl hok))).1
  · unfold getRotationCheckpoint toI64
    rw [if_neg hindex]
    rfl

/-- Offers for two rotations, those for the first from the latest to the earliest. -/
def mixedOffers : List (Nat × Checkpoint) :=
  [(1, ⟨"log", 7, "r7", "2026-02-02T00:00:00Z", "k", "s"⟩), (4, ⟨"log", 5, "r5", "2026-01-01T00:00:00Z", "k", "s"⟩),
    (1, ⟨"log", 6, "r6", "2026-01-03T00:00:00Z", "k", "s"⟩), (1, ⟨"log", 6, "r6", "2026-01-02T00:00:00Z", "k", "s"⟩)]

theorem rotation_table_serves_least_mixed :
    ServesLeast Db.empty mixedOffers 1 ∧
    getRotationCheckpoint (afterOffers Db.empty mixedOffers) 1 =
      .ok (some ⟨"log", 6, "r6", "2026-01-02T00:00:00Z", "k", "s"⟩) :=
  ⟨(rotation_table_serves_least rfl 1 mixedOffers).2.1 (by decide), by decide +kernel⟩

/-- An offer no row can hold is refused, and nothing is served though an offer was made. -/
theorem rotation_offer_of_unstorable_size :
    ¬ ∀ (index : Nat) (offers : List (Nat × Checkpoint)),
      getRotationCheckpoint (afterOffers Db.empty offers) index = .ok none ↔ ∀ cp, (index, cp) ∉ offers := by
  intro h
  have hnone : getRotationCheckpoint (afterOffers Db.empty [(1, ⟨"log", 2 ^ 63, "r", "t", "k", "s"⟩)]) 1 = .ok none := by
    decide +kernel
  exact (h 1 _).1 hnone _ (List.mem_singleton_self _)

end AhlMirror

import AhlMirror.Store.Calls

/-!
# The prefix an admission sees

`build_visible_prefix` lays the entries to promote over the canonical ones before any of them is
promoted. Where the batch then goes through, what it saw is exactly what is canonical afterwards, up to
the checkpoint's size (`visiblePrefix_eq_promoted`); and what becomes canonical is told by the batch
alone (`proposedEntries`).
-/

namespace AhlMirror

/-! ### What a batch proposes -/

/-- The entries after one pending promotion, where it names the next index. -/
def proposeEntry (db : Db) (entries : List Bytes) (p : PendingPromotion) : List Bytes :=
  if p.leafIndex = entries.length then entries ++ (getStagedRaw db p.entryId).toList else entries

/-- The canonical entries as a batch would leave them. -/
def proposedEntries (db : Db) (batch : List PendingPromotion) : List Bytes :=
  batch.foldl (proposeEntry db) (canonicalEntries db)

/-- The promotions a call asks for. -/
def Call.pendings : Call → List PendingPromotion
  | .stage _ _ _ => []
  | .ingest _ _ batch _ => batch
  | .promote req => [⟨req.entryId, req.leafIndex, req.inclusionPath⟩]

variable {H K : Type} [HashOctets H] {crates : Crates H K}

theorem promoteEntryIn_proposes {db after : Db} (hrep : Represents crates db) {cp : Checkpoint} {p : PendingPromotion}
    {outcome : InsertOutcome}
    (h : promoteEntryIn crates db cp p.entryId p.leafIndex p.inclusionPath = .ok (outcome, after)) :
    canonicalEntries after = proposeEntry db (canonicalEntries db) p ∧ p.leafIndex < after.entries.length := by
  unfold proposeEntry
  rw [length_canonicalEntries]
  rcases promoteEntryIn_cases hrep h with ⟨rfl, hlt, -⟩ | ⟨bytes, rows, root, hstaged, hindex, -, -, -, rfl, -⟩
  · rw [if_neg hlt.ne]
    exact ⟨rfl, hlt⟩
  · rw [if_pos hindex, hstaged]
    refine ⟨by simp [canonicalEntries, promotedRow], ?_⟩
    rw [List.length_append, List.length_singleton]
    omega

theorem proposeEntry_congr {db other : Db} (h : other.stagedEntries = db.stagedEntries) :
    proposeEntry other = proposeEntry db := by
  funext entries p
  unfold proposeEntry getStagedRaw
  rw [h]

theorem promoteBatch_proposes {cp : Checkpoint} : ∀ {batch : List PendingPromotion} {db after : Db},
    Represents crates db → promoteBatch crates cp batch db = .ok after →
      canonicalEntries after = proposedEntries db batch ∧ ∀ p ∈ batch, p.leafIndex < after.entries.length
  | [], db, after, _, h => by
    obtain rfl := Except.ok.inj h
    exact ⟨rfl, by simp⟩
  | p :: rest, db, after, hrep, h => by
    simp only [promoteBatch, bind_eq_ok] at h
    obtain ⟨⟨outcome, mid⟩, hpromote, hrest⟩ := h
    obtain ⟨hrep', hgrow⟩ := promoteEntryIn_grow hrep hpromote
    obtain ⟨hmid, hp⟩ := promoteEntryIn_proposes hrep hpromote
    obtain ⟨hafter, hbelow⟩ := promoteBatch_proposes hrep' hrest
    refine ⟨?_, fun q hq => ?_⟩
    · rw [hafter, proposedEntries, proposedEntries, List.foldl_cons, proposeEntry_congr hgrow.staged, hmid]
    · rcases List.mem_cons.1 hq with rfl | hq
      · exact hp.trans_le (promoteBatch_grow hrep' hrest).2.entries.length_le
      · exact hbelow q hq

theorem proposedEntries_of_canonical {db : Db} {batch : List PendingPromotion}
    (h : ∀ p ∈ batch, p.leafIndex < db.entries.length) : proposedEntries db batch = canonicalEntries db := by
  unfold proposedEntries
  induction batch with
  | nil => rfl
  | cons p rest ih =>
    have hp : p.leafIndex ≠ (canonicalEntries db).length := by
      rw [length_canonicalEntries]
      exact (h p List.mem_cons_self).ne
    rw [List.foldl_cons, proposeEntry, if_neg hp]
    exact ih fun q hq => h q (List.mem_cons_of_mem _ hq)

/-! ### The overlay -/

/-- Values in consecutive slots from `start` on. -/
def slots : Nat → List Bytes → Overlay
  | _, [] => []
  | start, value :: rest => (start, value) :: slots (start + 1) rest

theorem slots_concat (value : Bytes) : ∀ (start : Nat) (values : List Bytes),
    slots start (values ++ [value]) = slots start values ++ [(start + values.length, value)]
  | start, [] => rfl
  | start, head :: rest => by
    rw [List.cons_append, slots, slots, slots_concat value (start + 1) rest, List.length_cons, List.cons_append,
      Nat.add_assoc, Nat.add_comm 1]

theorem slots_get (i : Nat) : ∀ (start : Nat) (values : List Bytes),
    ((slots start values).get i).isSome ↔ start ≤ i ∧ i < start + values.length
  | start, [] => by
    simp [slots, Overlay.get]
  | start, head :: rest => by
    have ih := slots_get i (start + 1) rest
    unfold Overlay.get at ih ⊢
    rw [slots, List.find?_cons]
    by_cases hi : start = i
    · simp [hi]
    · have hne : (start == i) = false := by simpa using hi
      rw [hne, List.length_cons]
      dsimp only
      rw [ih]
      omega

theorem slots_remove {i : Nat} : ∀ {start : Nat} (values : List Bytes), i < start →
    (slots start values).remove i = slots start values
  | start, [], _ => rfl
  | start, head :: rest, hi => by
    have ih := slots_remove rest (Nat.lt_succ_of_lt hi)
    unfold Overlay.remove at ih ⊢
    have hne : (start != i) = true := by simpa using hi.ne'
    rw [slots, List.filter_cons, hne, if_pos rfl, ih]

theorem extendPrefix_slots {target : Nat} : ∀ (values : List Bytes) (next : Nat) (entries : List Bytes),
    next + values.length ≤ target →
      extendPrefix target values.length next (slots next values) entries = entries ++ values
  | [], next, entries, _ => by simp [extendPrefix]
  | value :: rest, next, entries, hle => by
    rw [List.length_cons] at hle ⊢
    have hget : (slots next (value :: rest)).get next = some value := by simp [slots, Overlay.get]
    have hremove : (slots next (value :: rest)).remove next = slots (next + 1) rest := by
      have htail := slots_remove rest (Nat.lt_succ_self next)
      unfold Overlay.remove at htail ⊢
      rw [slots, List.filter_cons]
      simpa using htail
    rw [extendPrefix, if_pos (by omega), hget]
    dsimp only
    rw [hremove, extendPrefix_slots rest (next + 1) _ (by omega), List.append_assoc, List.singleton_append]

theorem length_slots : ∀ (start : Nat) (values : List Bytes), (slots start values).length = values.length
  | _, [] => rfl
  | start, _ :: rest => by rw [slots, List.length_cons, length_slots (start + 1) rest, List.length_cons]

theorem overlayPending_promoted {cp : Checkpoint} {target canonicalLen n : Nat} {root : H} {db mid next : Db}
    {p : PendingPromotion} {outcome : InsertOutcome} {overlay : Overlay} (hlen : canonicalLen = min target n)
    (hrep : Represents crates mid) (hstaged : mid.stagedEntries = db.stagedEntries) (hn : n ≤ mid.entries.length)
    (hpromote : promoteEntryIn crates mid cp p.entryId p.leafIndex p.inclusionPath = .ok (outcome, next))
    (hturn : overlayPending crates db canonicalLen target root
      (slots n (((canonicalEntries mid).take target).drop n)) p = .ok overlay) :
    overlay = slots n (((canonicalEntries next).take target).drop n) := by
  have hget : ((slots n (((canonicalEntries mid).take target).drop n)).get p.leafIndex).isSome ↔
      n ≤ p.leafIndex ∧ p.leafIndex < n + (min target mid.entries.length - n) := by
    rw [slots_get, List.length_drop, List.length_take, length_canonicalEntries]
  unfold overlayPending at hturn
  rcases promoteEntryIn_cases hrep hpromote with ⟨rfl, hlt, -⟩ | ⟨bytes, rows, _, hbytes, hindex, -, -, -, rfl, -⟩
  · -- already canonical: the entry is passed over, or its slot is taken
    split_ifs at hturn with htarget hcanonical hslot
    · exact (Except.ok.inj hturn).symm
    · exact (Except.ok.inj hturn).symm
    · exact (Except.ok.inj hturn).symm
    · exact absurd (hget.2 ⟨by omega, by omega⟩) hslot
  · have hnext : canonicalEntries { mid with
        entries := mid.entries ++ [promotedRow crates mid p.entryId bytes], subtreeRoots := rows } =
          canonicalEntries mid ++ [bytes] := by simp [canonicalEntries, promotedRow]
    rw [hnext]
    split_ifs at hturn with htarget hcanonical hslot
    · rw [List.take_append_of_le_length (by rw [length_canonicalEntries]; omega)]
      exact (Except.ok.inj hturn).symm
    · omega
    · have := hget.1 hslot
      omega
    · -- the next index: a new slot at the end of the overlay
      simp only [bind_eq_ok, okOr_eq_ok] at hturn
      obtain ⟨bytes', hbytes', included, -, hturn⟩ := hturn
      have hsame : getStagedRaw db p.entryId = getStagedRaw mid p.entryId := by
        unfold getStagedRaw
        rw [hstaged]
      obtain rfl : bytes' = bytes := Option.some.inj (hbytes'.symm.trans (hsame.trans hbytes))
      rw [ite_error_eq_ok] at hturn
      have hlength : (canonicalEntries mid).length = mid.entries.length := length_canonicalEntries mid
      rw [← Except.ok.inj hturn.2, List.take_of_length_le (by omega),
        List.take_of_length_le (by rw [List.length_append, List.length_singleton]; omega),
        List.drop_append_of_le_length (by omega), slots_concat, List.length_drop, hlength, Nat.add_sub_cancel' hn, hindex]

/-- The overlay follows the promotions: after each it holds the entries promoted so far, below `target`. -/
theorem overlay_eq_promoted {cp : Checkpoint} {target canonicalLen n : Nat} {root : H} {db : Db}
    (hlen : canonicalLen = min target n) : ∀ {batch : List PendingPromotion} {mid after : Db} {overlay : Overlay},
    Represents crates mid → mid.stagedEntries = db.stagedEntries → n ≤ mid.entries.length →
    promoteBatch crates cp batch mid = .ok after →
    batch.foldlM (overlayPending crates db canonicalLen target root)
        (slots n (((canonicalEntries mid).take target).drop n)) = .ok overlay →
      overlay = slots n (((canonicalEntries after).take target).drop n)
  | [], mid, after, overlay, _, _, _, hpromote, hoverlay => by
    obtain rfl := Except.ok.inj hpromote
    exact (Except.ok.inj hoverlay).symm
  | p :: rest, mid, after, overlay, hrep, hstaged, hn, hpromote, hoverlay => by
    simp only [promoteBatch, bind_eq_ok] at hpromote
    obtain ⟨⟨outcome, next⟩, hp, hrest⟩ := hpromote
    rw [List.foldlM_cons, bind_eq_ok] at hoverlay
    obtain ⟨turned, hturn, hfold⟩ := hoverlay
    obtain ⟨hrep', hgrow⟩ := promoteEntryIn_grow hrep hp
    rw [overlayPending_promoted hlen hrep hstaged hn hp hturn] at hfold
    exact overlay_eq_promoted hlen hrep' (hgrow.staged.trans hstaged) (hn.trans hgrow.entries.length_le) hrest hfold

/-- **The visible prefix of an admission is the canonical prefix after it.** -/
theorem visiblePrefix_eq_promoted {cp : Checkpoint} {batch : List PendingPromotion} {root : H} {db after : Db}
    {visible : List Bytes} (hrep : Represents crates db) (hsize : cp.treeSize < i64Bound)
    (hvisible : buildVisiblePrefix crates db batch cp.treeSize root = .ok visible)
    (hpromote : promoteBatch crates cp batch db = .ok after) :
    visible = (canonicalEntries after).take cp.treeSize := by
  unfold buildVisiblePrefix at hvisible
  rw [hrep.toCanonical.entriesPrefix hsize] at hvisible
  simp only [ok_bind] at hvisible
  obtain ⟨overlay, hoverlay, hvisible⟩ := bind_eq_ok.1 hvisible
  have hlength : ((canonicalEntries db).take cp.treeSize).length = min cp.treeSize db.entries.length := by
    rw [List.length_take, length_canonicalEntries]
  have hempty : ((canonicalEntries db).take cp.treeSize).drop db.entries.length = [] :=
    List.drop_eq_nil_of_le (by rw [hlength]; exact Nat.min_le_right _ _)
  have hstart : batch.foldlM (overlayPending crates db ((canonicalEntries db).take cp.treeSize).length cp.treeSize root)
      (slots db.entries.length (((canonicalEntries db).take cp.treeSize).drop db.entries.length)) = .ok overlay := by
    rw [hempty]
    exact hoverlay
  obtain rfl := overlay_eq_promoted hlength hrep rfl le_rfl hpromote hstart
  obtain ⟨more, hmore⟩ := (promoteBatch_grow hrep hpromote).2.grows.canonicalEntries
  have hdb : (canonicalEntries db).length = db.entries.length := length_canonicalEntries db
  rw [← Except.ok.inj hvisible, hlength, length_slots, ← hmore]
  rcases Nat.le_total cp.treeSize db.entries.length with hle | hle
  · rw [List.take_append_of_le_length (by omega), hempty]
    simp [extendPrefix, slots]
  · have hcanonical : (canonicalEntries db).take cp.treeSize = canonicalEntries db := List.take_of_length_le (by omega)
    rw [Nat.min_eq_right hle, List.take_append, hcanonical, List.drop_append_of_le_length (by omega),
      List.drop_of_length_le (by omega), List.nil_append, extendPrefix_slots _ _ _ (by rw [List.length_take]; omega)]

end AhlMirror

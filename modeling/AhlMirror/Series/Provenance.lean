import AhlMirror.Series.Anchors
import AhlMirror.Series.Visible
import AhlMirror.Store.Prover
import AhlMirror.Store.Sealed

/-!
# Where an entry came from

What a canonical entry is owed, over a whole run: bytes that hash to its id and are the canonical
serialization of an envelope, a promotion that placed it at its index, and an inclusion path under the
root of a checkpoint whose signature was verified by then. The invariant relates the store to the calls
so far (`Provenance`); a retrieval reads it off.
-/

namespace AhlMirror

open AhlMirror.Core (Machine)

variable {H K : Type} [HashOctets H]

/-! ### One promotion -/

section promotion
variable {crates : Crates H K}

variable (crates) in
/-- The row a promotion placed, with the path under which its leaf opened the checkpoint's root. -/
structure PlacedUnder (cp : Checkpoint) (p : PendingPromotion) (row : EntryRow) : Prop where
  entryId : p.entryId = row.entryId
  entryIndex : p.leafIndex = row.entryIndex
  opened : ∃ root, crates.parseHashHex cp.rootHash = .ok root ∧
    verifyInclusionFor crates row.envelope row.entryIndex cp.treeSize p.inclusionPath root = .ok true

variable (crates) in
/-- What promotions make of the entries: the rows there were, and those placed out of the staged bytes. -/
structure Places (cp : Checkpoint) (batch : List PendingPromotion) (db after : Db) : Prop where
  rows : ∀ row ∈ after.entries, row ∈ db.entries ∨
    ∃ p ∈ batch, getStagedRaw db p.entryId = some row.envelope ∧ PlacedUnder crates cp p row
  placed : ∀ p ∈ batch, ∃ row ∈ after.entries, row.entryIndex = p.leafIndex ∧ row.entryId = p.entryId

theorem promoteEntryIn_places {db after : Db} (hrep : Represents crates db) {cp : Checkpoint} {p : PendingPromotion}
    {outcome : InsertOutcome}
    (h : promoteEntryIn crates db cp p.entryId p.leafIndex p.inclusionPath = .ok (outcome, after)) :
    Places crates cp [p] db after := by
  rcases promoteEntryIn_cases hrep h with ⟨rfl, -, hheld⟩ | ⟨bytes, rows, root, hstaged, hindex, -, hroot, hopened, rfl, -⟩
  · exact ⟨fun row hrow => Or.inl hrow, fun q hq => List.mem_singleton.1 hq ▸ hheld⟩
  · refine ⟨fun row hrow => ?_, fun q hq => ?_⟩
    · rcases List.mem_append.1 hrow with hold | hnew
      · exact Or.inl hold
      · obtain rfl := List.mem_singleton.1 hnew
        rw [hindex] at hopened
        exact Or.inr ⟨p, List.mem_singleton_self p, hstaged, rfl, hindex, root, hroot, hopened⟩
    · obtain rfl := List.mem_singleton.1 hq
      exact ⟨_, List.mem_append_right _ (List.mem_singleton_self _), hindex.symm, rfl⟩

theorem promoteBatch_places {cp : Checkpoint} : ∀ {batch : List PendingPromotion} {db after : Db},
    Represents crates db → promoteBatch crates cp batch db = .ok after → Places crates cp batch db after
  | [], db, after, _, h => by
    obtain rfl := Except.ok.inj h
    exact ⟨fun row hrow => Or.inl hrow, by simp⟩
  | p :: rest, db, after, hrep, h => by
    simp only [promoteBatch, bind_eq_ok] at h
    obtain ⟨⟨outcome, mid⟩, hpromote, hrest⟩ := h
    obtain ⟨hrep', hgrow⟩ := promoteEntryIn_grow hrep hpromote
    have hfirst := promoteEntryIn_places hrep hpromote
    have hothers := promoteBatch_places hrep' hrest
    refine ⟨fun row hrow => ?_, fun q hq => ?_⟩
    · rcases hothers.rows row hrow with hmem | ⟨q, hq, hstaged, hunder⟩
      · rcases hfirst.rows row hmem with hold | ⟨q, hq, hplaced⟩
        · exact Or.inl hold
        · exact Or.inr ⟨q, List.mem_cons.2 (Or.inl (List.mem_singleton.1 hq)), hplaced⟩
      · have hsame : getStagedRaw mid q.entryId = getStagedRaw db q.entryId := by
          unfold getStagedRaw
          rw [hgrow.staged]
        exact Or.inr ⟨q, List.mem_cons_of_mem _ hq, hsame ▸ hstaged, hunder⟩
    · rcases List.mem_cons.1 hq with rfl | hq
      · obtain ⟨row, hrow, hkey⟩ := hfirst.placed q (List.mem_singleton_self q)
        exact ⟨row, (promoteBatch_grow hrep' hrest).2.entries.subset hrow, hkey⟩
      · exact hothers.placed q hq

end promotion

/-! ### Over a run -/

variable [DecidableEq H]

section history
variable (crates : Crates H K) (config : Config K)

/-- After the calls `before` the run makes this call, and it is answered with `Ok`. -/
structure Succeeds (calls before : List Call) (call : Call) : Prop where
  isPrefix : before ++ [call] <+: calls
  isOk : (serve crates config (storeAfter crates config before) call).2.isOk = true

/-- A promotion of the run, in a call answered with `Ok`, placed this id at this index. -/
def Placed (calls : List Call) (entryId : String) (entryIndex : Nat) : Prop :=
  ∃ before call, Succeeds crates config calls before call ∧
    ∃ p ∈ call.pendings, p.leafIndex = entryIndex ∧ p.entryId = entryId

/-- An admission of the run verified the checkpoint's signature, under a manifest version of the prefix it
saw. -/
def SignatureVerified (calls : List Call) (cp : Checkpoint) : Prop :=
  ∃ before raw batch rotationFor, Succeeds crates config calls before (.ingest cp raw batch rotationFor) ∧
    ∃ claimedRoot visible list, crates.parseHashHex cp.rootHash = .ok claimedRoot ∧
      buildVisiblePrefix crates (storeAfter crates config before) batch cp.treeSize claimedRoot = .ok visible ∧
      versions crates config visible = .ok list ∧ ∃ state ∈ list, verifiesUnder crates config state cp raw = .ok ()

/-- The row was promoted with a path that opened the root of a checkpoint whose signature the same call or
an earlier one verified. -/
def Evidenced (calls : List Call) (row : EntryRow) : Prop :=
  ∃ before call, Succeeds crates config calls before call ∧ ∃ p ∈ call.pendings, ∃ cp,
    PlacedUnder crates cp p row ∧ SignatureVerified crates config (before ++ [call]) cp

/-- What the rows of a store owe to the calls that led to it. -/
structure Provenance (calls : List Call) (db : Db) : Prop where
  staged : ∀ row ∈ db.stagedEntries, EnvelopeBytes crates row.2
  entries : ∀ row ∈ db.entries, EnvelopeBytes crates row.envelope ∧ Evidenced crates config calls row
  placed : ∀ entryId entryIndex, Placed crates config calls entryId entryIndex →
    ∃ row ∈ db.entries, row.entryIndex = entryIndex ∧ row.entryId = entryId
  checkpoints : ∀ cp ∈ db.checkpoints, SignatureVerified crates config calls cp

end history

variable {crates : Crates H K} {config : Config K}

theorem Succeeds.mono {calls calls' before : List Call} {call : Call} (h : Succeeds crates config calls before call)
    (hle : calls <+: calls') : Succeeds crates config calls' before call := ⟨h.isPrefix.trans hle, h.isOk⟩

theorem SignatureVerified.mono {calls calls' : List Call} {cp : Checkpoint}
    (h : SignatureVerified crates config calls cp)
    (hle : calls <+: calls') : SignatureVerified crates config calls' cp := by
  obtain ⟨before, raw, batch, rotationFor, hsucceeds, hverified⟩ := h
  exact ⟨before, raw, batch, rotationFor, hsucceeds.mono hle, hverified⟩

theorem Evidenced.mono {calls calls' : List Call} {row : EntryRow} (h : Evidenced crates config calls row)
    (hle : calls <+: calls') : Evidenced crates config calls' row := by
  obtain ⟨before, call, hsucceeds, hrest⟩ := h
  exact ⟨before, call, hsucceeds.mono hle, hrest⟩

theorem Placed.cases {before : List Call} {call : Call} {entryId : String} {entryIndex : Nat}
    (h : Placed crates config (before ++ [call]) entryId entryIndex) :
    Placed crates config before entryId entryIndex ∨
      (serve crates config (storeAfter crates config before) call).2.isOk = true ∧
        ∃ p ∈ call.pendings, p.leafIndex = entryIndex ∧ p.entryId = entryId := by
  obtain ⟨earlier, made, hsucceeds, hp⟩ := h
  rcases List.prefix_concat_iff.1 hsucceeds.isPrefix with hsame | hle
  · obtain ⟨rfl, hcall⟩ := List.append_inj' hsame rfl
    obtain rfl := List.singleton_inj.1 hcall
    exact Or.inr ⟨hsucceeds.isOk, hp⟩
  · exact Or.inl ⟨earlier, made, ⟨hle, hsucceeds.isOk⟩, hp⟩

theorem Provenance.keep {before : List Call} {call : Call} {db after : Db} (h : Provenance crates config before db)
    (hstaged : ∀ row ∈ after.stagedEntries, EnvelopeBytes crates row.2) (hentries : after.entries = db.entries)
    (hcheckpoints : after.checkpoints = db.checkpoints)
    (hnone : ∀ entryId entryIndex, Placed crates config (before ++ [call]) entryId entryIndex →
      Placed crates config before entryId entryIndex) : Provenance crates config (before ++ [call]) after where
  staged := hstaged
  entries row hrow := by
    obtain ⟨henvelope, hevidence⟩ := h.entries row (hentries ▸ hrow)
    exact ⟨henvelope, hevidence.mono (List.prefix_append _ _)⟩
  placed entryId entryIndex hplaced := hentries ▸ h.placed entryId entryIndex (hnone entryId entryIndex hplaced)
  checkpoints cp hcp := (h.checkpoints cp (hcheckpoints ▸ hcp)).mono (List.prefix_append _ _)

theorem Provenance.places {before : List Call} {call : Call} {db mid after : Db} {cp : Checkpoint}
    (h : Provenance crates config before db) (hnow : Succeeds crates config (before ++ [call]) before call)
    (hplaces : Places crates cp call.pendings db mid) (hgrow : db.entries <+: mid.entries)
    (hentries : after.entries = mid.entries) (hstaged : after.stagedEntries = db.stagedEntries)
    (hcheckpoints : ∀ row ∈ after.checkpoints, row ∈ db.checkpoints ∨ row = cp)
    (hverified : SignatureVerified crates config (before ++ [call]) cp) :
    Provenance crates config (before ++ [call]) after where
  staged row hrow := h.staged row (hstaged ▸ hrow)
  entries row hrow := by
    rcases hplaces.rows row (hentries ▸ hrow) with hold | ⟨p, hp, hbytes, hunder⟩
    · obtain ⟨henvelope, hevidence⟩ := h.entries row hold
      exact ⟨henvelope, hevidence.mono (List.prefix_append _ _)⟩
    · exact ⟨h.staged _ (getStagedRaw_mem hbytes), before, call, hnow, p, hp, cp, hunder, hverified⟩
  placed entryId entryIndex hplaced := by
    rw [hentries]
    rcases hplaced.cases with hold | ⟨-, p, hp, rfl, rfl⟩
    · obtain ⟨row, hrow, hkey⟩ := h.placed entryId entryIndex hold
      exact ⟨row, hgrow.subset hrow, hkey⟩
    · exact hplaces.placed p hp
  checkpoints row hrow := by
    rcases hcheckpoints row hrow with hold | rfl
    · exact (h.checkpoints row hold).mono (List.prefix_append _ _)
    · exact hverified

theorem Served.provenance {before : List Call} {call : Call} {after : Db}
    (h : Provenance crates config before (storeAfter crates config before))
    (hok : (serve crates config (storeAfter crates config before) call).2.isOk = true)
    (hserved : Served crates config (storeAfter crates config before) call after) :
    Provenance crates config (before ++ [call]) after := by
  have hrep := storeAfter_represents crates config before
  have hnow : Succeeds crates config (before ++ [call]) before call := ⟨List.prefix_rfl, hok⟩
  cases hserved with
  | @staged claimed bytes metadata _ _ hstage =>
    have hnone : ∀ entryId entryIndex, Placed crates config (before ++ [.stage claimed bytes metadata]) entryId entryIndex →
        Placed crates config before entryId entryIndex := by
      intro entryId entryIndex hplaced
      rcases hplaced.cases with hold | ⟨-, p, hp, -⟩
      · exact hold
      · simp [Call.pendings] at hp
    obtain ⟨hbytes, rfl | rfl⟩ := stageEntry_cases hstage
    · exact h.keep h.staged rfl rfl hnone
    · refine h.keep (fun row hrow => ?_) rfl rfl hnone
      rcases List.mem_append.1 hrow with hold | hnew
      · exact h.staged row hold
      · obtain rfl := List.mem_singleton.1 hnew
        exact hbytes
  | @admitted cp raw batch rotationFor claimedRoot admission _ hjudge hcommit =>
    obtain ⟨-, mid, recorded, hcommitted⟩ := commitAdmission_cases hcommit
    obtain ⟨visible, list, active, hjudged⟩ := judgeCheckpoint_cases hjudge
    have hgrow := (promoteBatch_grow hrep hcommitted.batch).2
    have hverified : SignatureVerified crates config (before ++ [.ingest cp raw batch rotationFor]) cp :=
      ⟨before, raw, batch, rotationFor, hnow, claimedRoot, visible, list, hjudged.root, hjudged.visiblePrefix,
        hjudged.versions, hjudged.verified⟩
    exact h.places hnow (promoteBatch_places hrep hcommitted.batch) hgrow.entries hcommitted.entries.1
      (hcommitted.entries.2.trans hgrow.staged) (fun row hrow => (hcommitted.checkpoints hrep hrow).imp_right And.left) hverified
  | @promoted req cp _ _ hget hpromote =>
    have hplaces := promoteEntryIn_places (p := ⟨req.entryId, req.leafIndex, req.inclusionPath⟩) hrep hpromote
    have hgrow := (promoteEntryIn_grow hrep hpromote).2
    have hverified := (h.checkpoints cp (getCheckpoint_mem hget).1).mono (List.prefix_append before [Call.promote req])
    exact h.places hnow hplaces hgrow.entries rfl hgrow.staged (fun row hrow => Or.inl (hgrow.checkpoints ▸ hrow)) hverified

theorem provenance_after (crates : Crates H K) (config : Config K) (calls : List Call) :
    Provenance crates config calls (storeAfter crates config calls) := by
  apply Machine.exec_history (mirror crates config) (I := Provenance crates config)
  · refine ⟨by simp [Db.empty], by simp [Db.empty], ?_, by simp [Db.empty]⟩
    rintro entryId entryIndex ⟨before, call, hsucceeds, -⟩
    have hlength := hsucceeds.isPrefix.length_le
    simp at hlength
  · intro before call h
    show Provenance crates config (before ++ [call]) (serve crates config (storeAfter crates config before) call).1
    rcases serve_cases crates config (storeAfter crates config before) call with ⟨hfailed, hsame⟩ | ⟨hok, hserved⟩
    · rw [hsame]
      refine h.keep h.staged rfl rfl fun entryId entryIndex hplaced => ?_
      rcases hplaced.cases with hold | ⟨hok, -⟩
      · exact hold
      · exact absurd (hfailed.symm.trans hok) (by decide)
    · exact hserved.provenance h hok

/-! ### Retrieval -/

omit [HashOctets H] [DecidableEq H] in
theorem Canonical.getEntryById {db : Db} (h : Canonical db) {entryId : String} {stored : StoredEntry} :
    getEntryById db entryId = some stored ↔
      ∃ row ∈ db.entries, row.entryId = entryId ∧ (⟨row.entryIndex, row.envelope⟩ : StoredEntry) = stored := by
  unfold AhlMirror.getEntryById
  rw [Option.map_eq_some_iff]
  constructor
  · rintro ⟨row, hfind, rfl⟩
    exact ⟨row, List.mem_of_find?_eq_some hfind, by simpa using List.find?_some hfind, rfl⟩
  · rintro ⟨row, hrow, rfl, rfl⟩
    cases hfind : db.entries.find? fun other => other.entryId == row.entryId with
    | none => simpa using List.find?_eq_none.1 hfind row hrow
    | some other =>
      have hkey : other.entryId = row.entryId := by simpa using List.find?_some hfind
      obtain rfl := List.inj_on_of_nodup_map h.distinct (List.mem_of_find?_eq_some hfind) hrow hkey
      exact ⟨other, rfl, rfl⟩

theorem Reachable.retrieveById {db : Db} (h : Reachable crates config db) (entryId : String) :
    (∀ e, retrieveById crates db entryId ≠ .error e) ∧
      ∀ entryIndex bytes, retrieveById crates db entryId = .ok (.present entryIndex bytes) ↔
        ∃ row ∈ db.entries, row.entryId = entryId ∧ row.entryIndex = entryIndex ∧ row.envelope = bytes := by
  have hrows := h.represents.toCanonical
  unfold AhlMirror.retrieveById
  cases hget : getEntryById db entryId with
  | none =>
    refine ⟨by simp, fun entryIndex bytes => ?_⟩
    simp only [Except.ok.injEq, reduceCtorEq, false_iff]
    rintro ⟨row, hrow, hid, -⟩
    exact absurd (hrows.getEntryById.2 ⟨row, hrow, hid, rfl⟩) (by simp [hget])
  | some stored =>
    obtain ⟨row, hrow, rfl, rfl⟩ := hrows.getEntryById.1 hget
    have hsealed := (h.isSealed.entries row hrow).1
    dsimp only
    rw [if_neg (not_not.2 hsealed.symm)]
    refine ⟨by simp, fun entryIndex bytes => ?_⟩
    rw [Except.ok.injEq, Retrieved.present.injEq]
    constructor
    · exact fun hkey => ⟨row, hrow, rfl, hkey⟩
    · rintro ⟨other, hother, hid, hkey⟩
      obtain rfl := List.inj_on_of_nodup_map hrows.distinct hother hrow hid
      exact hkey

/-- **Content addressing, end to end.** Retrieval never reports a corrupt entry. It returns an id at an
index exactly where a promotion of the run placed it there; the bytes then hash to the id, are the
canonical serialization of an envelope and the whole of that one-entry range, and were promoted with a
path that opened the root of a checkpoint whose signature was verified by then. -/
theorem content_addressed (hinclusion : InclusionLaws crates) (calls : List Call) (entryId : String) :
    retrieveById crates (storeAfter crates config calls) entryId ≠ .error (.storedEntryCorrupt entryId) ∧
    (∀ entryIndex, (∃ bytes, retrieveById crates (storeAfter crates config calls) entryId = .ok (.present entryIndex bytes)) ↔
      Placed crates config calls entryId entryIndex) ∧
    ∀ entryIndex bytes, retrieveById crates (storeAfter crates config calls) entryId = .ok (.present entryIndex bytes) →
      sha256Id crates bytes = entryId ∧ EnvelopeBytes crates bytes ∧
      getEntriesRangeRaw (storeAfter crates config calls) entryIndex (entryIndex + 1) = .ok [bytes] ∧
      ∃ row ∈ (storeAfter crates config calls).entries, row.entryId = entryId ∧ row.entryIndex = entryIndex ∧
        row.envelope = bytes ∧ Evidenced crates config calls row := by
  have hreach : Reachable crates config (storeAfter crates config calls) := ⟨calls, rfl⟩
  have hprovenance := provenance_after crates config calls
  obtain ⟨hnever, hpresent⟩ := hreach.retrieveById entryId
  refine ⟨hnever _, fun entryIndex => ⟨?_, fun hplaced => ?_⟩, fun entryIndex bytes hbytes => ?_⟩
  · rintro ⟨bytes, hbytes⟩
    obtain ⟨row, hrow, rfl, rfl, -⟩ := (hpresent entryIndex bytes).1 hbytes
    obtain ⟨-, before, call, hsucceeds, p, hp, cp, hunder, -⟩ := hprovenance.entries row hrow
    exact ⟨before, call, hsucceeds, p, hp, hunder.entryIndex, hunder.entryId⟩
  · obtain ⟨row, hrow, hindex, hid⟩ := hprovenance.placed entryId entryIndex hplaced
    exact ⟨row.envelope, (hpresent entryIndex row.envelope).2 ⟨row, hrow, hid, hindex, rfl⟩⟩
  · obtain ⟨row, hrow, rfl, rfl, rfl⟩ := (hpresent entryIndex bytes).1 hbytes
    obtain ⟨henvelope, hevidence⟩ := hprovenance.entries row hrow
    refine ⟨(hreach.isSealed.entries row hrow).1.symm, henvelope, ?_, row, hrow, rfl, rfl, rfl, hevidence⟩
    obtain ⟨position, hposition, hat⟩ := List.mem_iff_getElem.1 hrow
    have hcontiguous := hreach.represents.contiguous.getElem hposition
    rw [hat] at hcontiguous
    have haddressable := hreach.addressable hinclusion
    unfold Addressable at haddressable
    have henvelopes : (canonicalEntries (storeAfter crates config calls))[position]? = some row.envelope := by
      rw [canonicalEntries, List.getElem?_map, List.getElem?_eq_getElem hposition, hat]
      rfl
    rw [hreach.represents.toCanonical.getEntriesRangeRaw (by omega) (by omega), hcontiguous, List.drop_take,
      Nat.add_sub_cancel_left]
    obtain ⟨hlt, hget⟩ := List.getElem?_eq_some_iff.1 henvelopes
    rw [List.drop_eq_getElem_cons hlt, hget]
    rfl

/-- The genesis promoted with its checkpoint, and an entry promoted on its own after it. -/
def Symbolic.promotedLater : List Call :=
  [stage 1, stage 5, ingest (checkpoint "A" 2 (rootOf [[1], [5]]) 5) [pending [[1], [5]] 0],
    promote 2 (pending [[1], [5]] 1)]

theorem content_addressed_promotedLater :
    Placed (Symbolic.crates Symbolic.documents) Symbolic.config Symbolic.promotedLater (Symbolic.hashText [5]) 1 ∧
      ∃ row ∈ (Symbolic.after Symbolic.promotedLater).entries, row.envelope = [5] ∧
        Evidenced (Symbolic.crates Symbolic.documents) Symbolic.config Symbolic.promotedLater row := by
  obtain ⟨-, hplaced, hpresent⟩ := @content_addressed _ _ _ _ _ Symbolic.config
    (Symbolic.inclusionLaws Symbolic.documents) Symbolic.promotedLater (Symbolic.hashText [5])
  have hretrieved : retrieveById (Symbolic.crates Symbolic.documents) (Symbolic.after Symbolic.promotedLater)
      (Symbolic.hashText [5]) = .ok (.present 1 [5]) := by decide +kernel
  obtain ⟨-, -, -, row, hrow, -, -, hbytes, hevidence⟩ := hpresent 1 [5] hretrieved
  exact ⟨(hplaced 1).1 ⟨[5], hretrieved⟩, row, hrow, hbytes, hevidence⟩

end AhlMirror

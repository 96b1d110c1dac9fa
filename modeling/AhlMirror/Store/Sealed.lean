import AhlMirror.Store.Calls

/-!
# Entries are filed under what they hash to

Staging files bytes under their own hash and only in canonical form, and promotion copies a staged row;
so every entry a run makes canonical is the canonical serialization of an envelope, under its hash.
-/

namespace AhlMirror

variable {H K : Type} [HashOctets H] {crates : Crates H K}

variable (crates) in
/-- Every staged and every canonical row is filed under its hash and in canonical form. -/
structure Sealed (db : Db) : Prop where
  staged : ∀ row ∈ db.stagedEntries, row.1 = sha256Id crates row.2 ∧ CanonicalBytes crates row.2
  entries : ∀ row ∈ db.entries, row.entryId = sha256Id crates row.envelope ∧ CanonicalBytes crates row.envelope

theorem Sealed.empty : Sealed crates Db.empty where
  staged := by simp [Db.empty]
  entries := by simp [Db.empty]

theorem getStagedRaw_mem {db : Db} {entryId : String} {bytes : Bytes} (h : getStagedRaw db entryId = some bytes) :
    (entryId, bytes) ∈ db.stagedEntries := by
  unfold getStagedRaw at h
  obtain ⟨row, hfind, rfl⟩ := Option.map_eq_some_iff.1 h
  have hkey : row.1 = entryId := by simpa using List.find?_some hfind
  exact hkey ▸ List.mem_of_find?_eq_some hfind

theorem Sealed.promoteEntryIn {db after : Db} (h : Sealed crates db) (hrep : Represents crates db) {cp : Checkpoint}
    {entryId : String} {leafIndex : Nat} {path : List String} {outcome : InsertOutcome}
    (hok : promoteEntryIn crates db cp entryId leafIndex path = .ok (outcome, after)) : Sealed crates after := by
  rcases promoteEntryIn_cases hrep hok with ⟨rfl, -⟩ | ⟨bytes, rows, root, hstaged, -, -, -, -, rfl, -⟩
  · exact h
  · refine ⟨h.staged, fun row hrow => ?_⟩
    rcases List.mem_append.1 hrow with hold | hnew
    · exact h.entries row hold
    · obtain rfl := List.mem_singleton.1 hnew
      exact h.staged (entryId, bytes) (getStagedRaw_mem hstaged)

theorem Sealed.promoteBatch {cp : Checkpoint} : ∀ {batch : List PendingPromotion} {db after : Db}, Sealed crates db →
    Represents crates db → promoteBatch crates cp batch db = .ok after → Sealed crates after
  | [], db, after, h, _, hok => Except.ok.inj hok ▸ h
  | pending :: rest, db, after, h, hrep, hok => by
    simp only [AhlMirror.promoteBatch, bind_eq_ok] at hok
    obtain ⟨⟨outcome, mid⟩, hpromote, hrest⟩ := hok
    exact Sealed.promoteBatch (h.promoteEntryIn hrep hpromote) (promoteEntryIn_grow hrep hpromote).1 hrest

variable [DecidableEq H] {config : Config K}

theorem CallEffect.isSealed {db after : Db} {call : Call} (hrep : Represents crates db) (hdb : Sealed crates db)
    (h : CallEffect crates config db call after) : Sealed crates after := by
  cases h with
  | unchanged => exact hdb
  | staged hcanonical =>
    refine ⟨fun row hrow => ?_, hdb.entries⟩
    rcases List.mem_append.1 hrow with hold | hnew
    · exact hdb.staged row hold
    · obtain rfl := List.mem_singleton.1 hnew
      exact ⟨rfl, hcanonical⟩
  | admitted _ hcommit =>
    obtain ⟨-, mid, recorded, hcommitted⟩ := commitAdmission_cases hcommit
    have hmid := hdb.promoteBatch hrep hcommitted.batch
    obtain ⟨kept, -, -, rfl⟩ := insertRotationCheckpoints_cases hcommitted.rotations
    rcases recordSeriesMember_cases hcommitted.member with ⟨rfl, -⟩ | ⟨-, rfl, -⟩
    · exact ⟨hmid.staged, hmid.entries⟩
    · exact ⟨hmid.staged, hmid.entries⟩
  | promoted _ hpromote => exact hdb.promoteEntryIn hrep hpromote

theorem Reachable.isSealed {db : Db} (h : Reachable crates config db) : Sealed crates db :=
  h.keeps Sealed.empty fun _ _ _ hrep hdb heffect => heffect.isSealed hrep hdb

end AhlMirror

import AhlMirror.Core.Base64
import AhlMirror.Model.Service
import AhlMirror.Server.Durable

/-!
# What is published is served as it was submitted

A request that writes is a call of the mirror once its base64 fields are decoded (`Request.call`), so a run of
requests is a run of calls. An entry staged and published in such a run is served from then on, in the octets
and in the text it was submitted in.
-/

namespace AhlMirror

open AhlMirror.Core (Machine)

variable {H K : Type} [HashOctets H] [DecidableEq H] {base64 : Base64} {crates : Crates H K} {config : Config K}

/-! ### Base64 fields -/

theorem stripPrefix_eq_some {start value rest : String} (h : stripPrefix start value = some rest) : start ++ rest = value := by
  unfold stripPrefix at h
  split_ifs at h with hprefix
  obtain rfl := Option.some.inj h
  obtain ⟨tail, htail⟩ := hprefix
  rw [← htail, ← String.length_toList, List.drop_left, ← String.ofList_toList (s := value), ← htail, String.ofList_append,
    String.ofList_toList]

theorem decodeBase64Field_text (hlaws : Base64Laws base64) {value reason : String} {bytes : Bytes}
    (h : decodeBase64Field base64 value reason = .ok bytes) : "base64:" ++ base64.encode bytes = value := by
  unfold decodeBase64Field at h
  cases hstripped : stripPrefix "base64:" value with
  | none => simp [hstripped] at h
  | some stripped =>
    simp only [hstripped, okOr_eq_ok] at h
    rw [hlaws.encode_decode h]
    exact stripPrefix_eq_some hstripped

/-! ### Requests as calls -/

variable (base64) in
/-- The call a request makes, if it makes one. -/
def Request.call : Request → Option Call
  | .stage req =>
    match decodeBase64Field base64 req.envelopeBase64 "envelope_base64 must be `base64:...`" with
    | .ok bytes => some (.stage req.entryId bytes req.atlMetadata)
    | .error _ => none
  | .promote req => some (.promote req)
  | .ingestCheckpoint req =>
    match decodeOptionalField base64 req.raw "raw must be `base64:...`" with
    | .ok raw => some (.ingest req.checkpoint raw req.entriesToPromote req.rotationFor)
    | .error _ => none
  | _ => none

theorem respond_store (db : Db) (request : Request) : (respond base64 crates config db request).1 =
    ((request.call base64).elim db fun call => (serve crates config db call).1) := by
  cases request with
  | stage req =>
    unfold respond stageHandler Request.call
    dsimp only
    cases decodeBase64Field base64 req.envelopeBase64 "envelope_base64 must be `base64:...`" <;> rfl
  | ingestCheckpoint req =>
    unfold respond checkpointIngestHandler Request.call
    dsimp only
    cases decodeOptionalField base64 req.raw "raw must be `base64:...`" <;> rfl
  | _ => rfl

theorem exec_requests (requests : List Request) : ∀ db : Db, (service base64 crates config).exec db requests =
    (mirror crates config).exec db (requests.filterMap (Request.call base64)) := by
  induction requests with
  | nil => exact fun _ => rfl
  | cons request rest ih =>
    intro db
    have hnext : (service base64 crates config).next db request =
        ((request.call base64).elim db fun call => (serve crates config db call).1) := respond_store db request
    rw [Machine.exec_cons, hnext, List.filterMap_cons]
    cases request.call base64 with
    | none => exact ih db
    | some call => exact ih _

theorem servedAfter_eq (requests : List Request) :
    servedAfter base64 crates config requests = storeAfter crates config (requests.filterMap (Request.call base64)) :=
  exec_requests requests Db.empty

theorem servedAfter_append (before : List Request) (request : Request) (later : List Request) :
    servedAfter base64 crates config (before ++ request :: later) =
      (service base64 crates config).exec (respond base64 crates config (servedAfter base64 crates config before) request).1
        later := Machine.exec_append _ _ _ _

theorem storeAfter_accounted (calls : List Call) : Accounted crates config (storeAfter crates config calls) := by
  have h := serverAfter_accounted crates config (oneAtATime calls)
  rwa [serverAfter_oneAtATime] at h

/-! ### Publishing -/

def Response.succeeded (response : Response) : Prop := response.status = .ok ∨ response.status = .created

instance (response : Response) : Decidable response.succeeded := inferInstanceAs (Decidable (_ ∨ _))

/-- The request asks for the entry at the index. -/
def Request.publishes (entryId : String) (index : Nat) : Request → Prop
  | .promote req => req.entryId = entryId ∧ req.leafIndex = index
  | .ingestCheckpoint req => ∃ p ∈ req.entriesToPromote, p.entryId = entryId ∧ p.leafIndex = index
  | _ => False

theorem refused_not_succeeded (e : MirrorError) : ¬ (Response.refused e).succeeded := by
  unfold Response.refused Response.succeeded MirrorError.status
  cases e <;> simp

theorem of_succeeded {α : Type} {f : α → Response} {result : MirrorResult α} (h : (Response.of f result).succeeded) :
    ∃ value, result = .ok value := by
  cases result with
  | error e => exact absurd h (refused_not_succeeded e)
  | ok value => exact ⟨value, rfl⟩

theorem stage_succeeded {db : Db} {req : StageRequest}
    (h : (respond base64 crates config db (.stage req)).2.succeeded) :
    ∃ bytes, decodeBase64Field base64 req.envelopeBase64 "envelope_base64 must be `base64:...`" = .ok bytes ∧
      getStagedRaw (respond base64 crates config db (.stage req)).1 req.entryId = some bytes := by
  unfold respond stageHandler at h ⊢
  dsimp only at h ⊢
  cases hfield : decodeBase64Field base64 req.envelopeBase64 "envelope_base64 must be `base64:...`" with
  | error e => exact absurd (by simpa [hfield] using h) (refused_not_succeeded e)
  | ok bytes =>
    simp only [hfield] at h
    obtain ⟨outcome, hok⟩ := of_succeeded h
    have hrows : AnswerRows _ (.stage req.entryId bytes req.atlMetadata)
        (.stored (withTransaction db (stageEntry crates · req.entryId bytes req.atlMetadata)).2) :=
      stage_rows db req.entryId bytes req.atlMetadata
    rw [hok] at hrows
    exact ⟨bytes, rfl, hrows⟩

/-- A request that publishes an entry and succeeds leaves its row. -/
theorem publish_succeeded {db : Db} (hrep : Represents crates db) {request : Request} {entryId : String} {index : Nat}
    (h : (respond base64 crates config db request).2.succeeded) (hpublishes : request.publishes entryId index) :
    ∃ path, Promoted (respond base64 crates config db request).1 ⟨entryId, index, path⟩ := by
  cases request with
  | promote req =>
    obtain ⟨rfl, rfl⟩ := hpublishes
    obtain ⟨outcome, hok⟩ := of_succeeded h
    have hrows : AnswerRows (serve crates config db (.promote req)).1 _ _ := serve_rows hrep (.promote req)
    unfold serve at hrows
    dsimp only at hrows
    rw [hok] at hrows
    exact ⟨req.inclusionPath, hrows⟩
  | ingestCheckpoint req =>
    obtain ⟨p, hp, rfl, rfl⟩ := hpublishes
    unfold respond checkpointIngestHandler at h ⊢
    dsimp only at h ⊢
    cases hfield : decodeOptionalField base64 req.raw "raw must be `base64:...`" with
    | error e => exact absurd (by simpa [hfield] using h) (refused_not_succeeded e)
    | ok raw =>
      simp only [hfield] at h
      obtain ⟨admission, hok⟩ := of_succeeded h
      have hrows : AnswerRows (serve crates config db
          (.ingest req.checkpoint raw req.entriesToPromote req.rotationFor)).1 _ _ := serve_rows hrep _
      unfold serve at hrows
      dsimp only at hrows
      rw [hok] at hrows
      exact ⟨p.inclusionPath, hrows.batch p hp⟩
  | _ => exact hpublishes.elim

/-- **What is published is served as it was submitted.** Take a run of requests in which an entry is staged and
then published, by a promotion or with a checkpoint, both with success. After any further requests it is served
from the index it was published at: without `encoding=base64` in the octets staged, and with it in the very text
they were submitted in. -/
theorem published_as_submitted (hlaws : Base64Laws base64) {before between : List Request} (later : List Request)
    {req : StageRequest} {publish : Request} {index : Nat}
    (hstage : (respond base64 crates config (servedAfter base64 crates config before) (.stage req)).2.succeeded)
    (hpublish : (respond base64 crates config (servedAfter base64 crates config (before ++ .stage req :: between))
      publish).2.succeeded) (hpublishes : publish.publishes req.entryId index) {db : Db}
    (hdb : servedAfter base64 crates config (before ++ .stage req :: between ++ publish :: later) = db) :
    ∃ bytes, decodeBase64Field base64 req.envelopeBase64 "envelope_base64 must be `base64:...`" = .ok bytes ∧
      (∀ encoding, encoding ≠ some "base64" →
        respond base64 crates config db (.retrieve req.entryId encoding) = (db, ⟨.ok, .raw index bytes⟩)) ∧
      respond base64 crates config db (.retrieve req.entryId (some "base64")) =
        (db, ⟨.ok, .base64 req.entryId index req.envelopeBase64⟩) := by
  have hgrow : ∀ {start : Db} (requests : List Request), Represents crates start →
      Grows start ((service base64 crates config).exec start requests) := by
    intro start requests hrep
    rw [exec_requests]
    exact mirror_grows hrep _
  have hreaches : ∀ requests, Represents crates (servedAfter base64 crates config requests) := by
    intro requests
    rw [servedAfter_eq]
    exact storeAfter_represents crates config _
  obtain ⟨bytes, hfield, hstaged⟩ := stage_succeeded hstage
  obtain ⟨path, hpromoted⟩ := publish_succeeded (hreaches _) hpublish hpublishes
  have hstep : ∀ before request, Represents crates
      (respond base64 crates config (servedAfter base64 crates config before) request).1 := by
    intro before request
    have h := hreaches (before ++ [request])
    rwa [servedAfter_append] at h
  have hend : Promoted db ⟨req.entryId, index, path⟩ := by
    refine hpromoted.grow ?_
    rw [← hdb, servedAfter_append (before ++ .stage req :: between) publish later]
    exact hgrow later (hstep _ publish)
  have hstagedEnd : getStagedRaw db req.entryId = some bytes := by
    refine Grows.getStagedRaw ?_ hstaged
    rw [← hdb, List.append_assoc, List.cons_append, servedAfter_append before (.stage req)]
    exact hgrow (between ++ publish :: later) (hstep _ _)
  have haccount : Accounted crates config db := by
    rw [← hdb, servedAfter_eq]
    exact storeAfter_accounted _
  obtain ⟨bytes', hstaged', -, hretrieve⟩ := hend.retrievable (hdb ▸ hreaches _) haccount
  obtain rfl := Option.some.inj (hstagedEnd.symm.trans hstaged')
  refine ⟨bytes, hfield, fun encoding hencoding => ?_, ?_⟩
  · unfold respond retrieveHandler
    dsimp only
    rw [hretrieve]
    simp only [Response.of, if_neg hencoding]
  · unfold respond retrieveHandler
    dsimp only
    rw [hretrieve, ← decodeBase64Field_text hlaws hfield]
    rfl

namespace Symbolic

/-- The engine over the standard alphabet. -/
def standard : Base64 := ⟨AhlMirror.Core.Base64.encode, AhlMirror.Core.Base64.decode⟩

theorem standardLaws : Base64Laws standard := ⟨AhlMirror.Core.Base64.decode_encode, AhlMirror.Core.Base64.encode_decode⟩

/-- The first entry of the small log, as a client submits it. -/
def stageRequest : StageRequest := ⟨hashText [1], "base64:AQ==", adaptorMetadataObject⟩

def admissionRequest : CheckpointIngestRequest :=
  ⟨checkpoint "A" 1 (Binding.root [[1]]) 5, none, [Binding.pending [[1]] 0], none⟩

end Symbolic

theorem published_as_submitted_genesis :
    (respond Symbolic.standard Symbolic.binding Symbolic.config (servedAfter Symbolic.standard Symbolic.binding Symbolic.config
      [.stage Symbolic.stageRequest, .ingestCheckpoint Symbolic.admissionRequest])
      (.retrieve (Symbolic.hashText [1]) (some "base64"))).2 =
        ⟨.ok, .base64 (Symbolic.hashText [1]) 0 "base64:AQ=="⟩ := by
  obtain ⟨hstage, hpublish⟩ :
      (respond Symbolic.standard Symbolic.binding Symbolic.config (servedAfter Symbolic.standard Symbolic.binding
        Symbolic.config []) (.stage Symbolic.stageRequest)).2.succeeded ∧
      (respond Symbolic.standard Symbolic.binding Symbolic.config (servedAfter Symbolic.standard Symbolic.binding
        Symbolic.config ([] ++ .stage Symbolic.stageRequest :: [])) (.ingestCheckpoint Symbolic.admissionRequest)).2.succeeded := by
    decide +kernel
  obtain ⟨bytes, -, -, htext⟩ := published_as_submitted Symbolic.standardLaws [] hstage hpublish
    ⟨_, List.mem_singleton_self _, rfl, rfl⟩ rfl
  exact congrArg Prod.snd htext

end AhlMirror

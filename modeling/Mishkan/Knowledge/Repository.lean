import Mishkan.Foundations.Refusal
import Mishkan.Knowledge.Models

/-!
# Knowledge/Repository — the transactions on operations and corpora

The operations of `SQLiteKnowledgeRepository` that a knowledge mutation makes, each one transaction,
and the artifacts they refer to.  Beside the tables the store keeps a record of what happened, which
no operation reads: the provider mutations that were started, the settlements a provider reported,
the graphs it handed over, and every corpus that was written.
-/

namespace Mishkan.Knowledge

open Refusal Table

/-- An available artifact, and the request its text reads back as. -/
structure StoredArtifact where
  reference : String
  request : Option KnowledgeRequest := none
deriving DecidableEq

structure KnowledgeStore where
  operations : Table KnowledgeOperation := ∅
  corpora : Table KnowledgeCorpus := ∅
  artifacts : List StoredArtifact := []
  /-- The operations whose provider mutation was started, once for each start. -/
  started : List Uuid := []
  /-- The settlements a provider reported. -/
  reported : List (Uuid × KnowledgeOperationState) := []
  /-- The graphs handed over for an operation, with the revision they index. -/
  graphs : List (Uuid × String × String) := []
  /-- Every corpus that was written. -/
  recorded : List KnowledgeCorpus := []
deriving DecidableEq

/-- `_OPERATION_TRANSITIONS`. -/
def transitions : KnowledgeOperationState → List KnowledgeOperationState
  | .queued => [.running, .cancelled, .failed]
  | .running => [.succeeded, .failed, .cancelRequested, .uncertain]
  | .cancelRequested => [.cancelled, .succeeded, .failed, .uncertain]
  | .uncertain => [.succeeded, .failed, .cancelled]
  | .succeeded | .failed | .cancelled => []

/-- The operation after a transition. -/
def KnowledgeOperation.moved (operation : KnowledgeOperation) (state : KnowledgeOperationState)
    (providerOperationId : Option String) (resultReferences : List String) : KnowledgeOperation :=
  { operation with
    state := state
    providerOperationId := providerOperationId
    resultReferences := resultReferences
    revision := operation.revision + 1 }

/-- The corpus as it is written over a row. -/
def KnowledgeCorpus.over (corpus row : KnowledgeCorpus) : KnowledgeCorpus :=
  { corpus with
    corpusId := row.corpusId
    projectId := row.projectId
    sourceId := row.sourceId }

namespace KnowledgeStore

/-! ## Rows -/

def operation? (s : KnowledgeStore) (operationId : Uuid) : Option KnowledgeOperation :=
  s.operations.find (·.operationId = operationId)

def corpus? (s : KnowledgeStore) (corpusId : Uuid) : Option KnowledgeCorpus :=
  s.corpora.find (·.corpusId = corpusId)

/-- The artifact is available. -/
def Available (s : KnowledgeStore) (reference : String) : Prop :=
  ∃ a ∈ s.artifacts, a.reference = reference

instance (s : KnowledgeStore) (reference : String) : Decidable (s.Available reference) :=
  inferInstanceAs (Decidable (∃ a ∈ s.artifacts, a.reference = reference))

/-- The request an artifact reads back as. -/
def requestOf (s : KnowledgeStore) (reference : String) : Option KnowledgeRequest :=
  (s.artifacts.find? (·.reference = reference)).bind (·.request)

/-- `put_bytes`: store an artifact under a new reference. -/
def putBytes (s : KnowledgeStore) (artifact : StoredArtifact) :
    Except Raised (StoredArtifact × KnowledgeStore) := do
  refuseIf (s.Available artifact.reference) .integrityError
  return (artifact, { s with artifacts := s.artifacts ++ [artifact] })

/-! ## Operations -/

def operation (s : KnowledgeStore) (operationId : Uuid) : Except Raised KnowledgeOperation := do
  let row ← require (s.operation? operationId) <|
    fault .context "knowledge operation does not exist"
  refuseIf (¬ row.Valid) (.valueError "provider_operation_id")
  return row

def createOperation (s : KnowledgeStore) (operation : KnowledgeOperation) :
    Except Raised (KnowledgeOperation × KnowledgeStore) := do
  refuseIf (operation.state ≠ .queued ∨ operation.revision ≠ 0) <|
    fault .outputContract "new knowledge operation must begin queued at revision zero"
  let durable := { operation with revision := 1 }
  match s.operation? operation.operationId with
  | some current =>
    refuseIf (¬ current.Valid) (.valueError "provider_operation_id")
    refuseIf (current.requestFingerprint ≠ operation.requestFingerprint) <|
      fault .duplicateResult "knowledge operation identity already contains different content"
    return (current, s)
  | none =>
    refuseIf (¬ s.Available durable.requestReference) <|
      fault .artifact "knowledge operation request artifact is unavailable"
    refuseIf (∃ corpusId ∈ durable.corpusId, s.corpus? corpusId = none) <|
      fault .context "knowledge operation references no corpus"
    let operations ← require (s.operations.insert durable) .integrityError
    return (durable, { s with operations := operations })

/-- Write a transition over the row of an operation. -/
def moveOperation (s : KnowledgeStore) (operationId : Uuid) (state : KnowledgeOperationState)
    (providerOperationId : Option String) (resultReferences : List String) : KnowledgeStore :=
  let move := fun o : KnowledgeOperation => o.moved state providerOperationId resultReferences
  { s with operations := s.operations.update (·.operationId = operationId) move fun _ => rfl }

def transitionOperation (s : KnowledgeStore) (operationId : Uuid) (expectedRevision : Nat)
    (state : KnowledgeOperationState) (providerOperationId : Option String := none)
    (resultReferences : List String := []) :
    Except Raised (KnowledgeOperation × KnowledgeStore) := do
  let current ← s.operation operationId
  refuseIf (current.revision ≠ expectedRevision) <|
    fault .revisionMismatch "knowledge operation revision differs"
      [("expected", .int expectedRevision), ("current", .int current.revision)]
  refuseIf (state ∉ transitions current.state) <|
    fault .revisionMismatch "knowledge operation transition is not permitted"
      [("from", .str current.state.value), ("to", .str state.value)]
  refuseIf (∃ reference ∈ resultReferences, ¬ s.Available reference) <|
    fault .artifact "knowledge operation result artifact is unavailable"
  return (current.moved state providerOperationId resultReferences,
    s.moveOperation operationId state providerOperationId resultReferences)

/-! ## Corpora -/

def corpus (s : KnowledgeStore) (corpusId : Uuid) : Except Raised KnowledgeCorpus := do
  let row ← require (s.corpus? corpusId) <| fault .context "knowledge corpus does not exist"
  refuseIf (¬ row.Valid) (.valueError "knowledge corpus")
  return row

/-- Write a corpus over its row. -/
def writeCorpus (s : KnowledgeStore) (corpus : KnowledgeCorpus) : KnowledgeStore :=
  { s with
    corpora := s.corpora.update (·.corpusId = corpus.corpusId) corpus.over fun _ => rfl
    recorded := s.recorded ++ [corpus] }

def putCorpus (s : KnowledgeStore) (corpus : KnowledgeCorpus) (expectedRevision : Nat) :
    Except Raised (KnowledgeCorpus × KnowledgeStore) := do
  refuseIf (corpus.revision ≠ expectedRevision) <|
    fault .revisionMismatch "knowledge corpus candidate does not carry the expected revision"
  let row := s.corpora.find fun c =>
    c.projectId = corpus.projectId && c.sourceId = corpus.sourceId
  let current := (row.map (·.revision)).getD 0
  refuseIf (current ≠ expectedRevision) <|
    fault .revisionMismatch "knowledge corpus compare-and-swap revision differs"
      [("expected", .int expectedRevision), ("current", .int current)]
  refuseIf (∃ reference ∈ corpus.snapshotReference, ¬ s.Available reference) <|
    fault .artifact "knowledge corpus snapshot is unavailable"
  let durable := { corpus with revision := current + 1 }
  match row with
  | none =>
    let corpora ← require (s.corpora.insert durable) .integrityError
    return (durable, { s with corpora := corpora, recorded := s.recorded ++ [durable] })
  | some row =>
    refuseIf (row.corpusId ≠ corpus.corpusId) <|
      fault .duplicateResult "knowledge corpus source already has a different identity"
    return (durable, s.writeCorpus durable)

/-! ## What the transactions do -/

variable {s s' : KnowledgeStore}

variable {row : KnowledgeOperation}

variable {operationId : Uuid}

theorem operation?_eq_some :
    s.operation? operationId = some row ↔ row ∈ s.operations ∧ row.operationId = operationId := by
  rw [operation?, find_decide]
  simp +contextual [Keyed.clash, Keyed.key]

theorem corpus?_eq_some {corpusId : Uuid} {row : KnowledgeCorpus} :
    s.corpus? corpusId = some row ↔ row ∈ s.corpora ∧ row.corpusId = corpusId := by
  rw [corpus?, find_decide]
  simp +contextual [Keyed.clash, Keyed.key]

@[simp] theorem operation_eq_ok :
    s.operation operationId = .ok row ↔ s.operation? operationId = some row ∧ row.Valid := by
  simp only [operation, bind_eq_ok, require_eq_ok, refuseIf_eq_ok, pure_eq_ok, not_not]
  constructor
  · rintro ⟨_, hrow, _, hvalid, rfl⟩
    exact ⟨hrow, hvalid⟩
  · rintro ⟨hrow, hvalid⟩
    exact ⟨row, hrow, (), hvalid, rfl⟩

@[simp] theorem corpus_eq_ok {corpusId : Uuid} {row : KnowledgeCorpus} :
    s.corpus corpusId = .ok row ↔ s.corpus? corpusId = some row ∧ row.Valid := by
  simp only [corpus, bind_eq_ok, require_eq_ok, refuseIf_eq_ok, pure_eq_ok, not_not]
  constructor
  · rintro ⟨_, hrow, _, hvalid, rfl⟩
    exact ⟨hrow, hvalid⟩
  · rintro ⟨hrow, hvalid⟩
    exact ⟨row, hrow, (), hvalid, rfl⟩

/-- A transition rewrites the row of its operation. -/
theorem operation?_moveOperation {operationId id : Uuid} {state : KnowledgeOperationState}
    {providerOperationId : Option String} {resultReferences : List String} :
    (s.moveOperation operationId state providerOperationId resultReferences).operation? id =
      if id = operationId then
        (s.operation? id).map (·.moved state providerOperationId resultReferences)
      else s.operation? id := by
  let move := fun o : KnowledgeOperation => o.moved state providerOperationId resultReferences
  refine (@find_update _ _ s.operations _ move (fun _ => rfl) _ fun _ => rfl).trans ?_
  change (s.operation? id).map _ = _
  cases hrow : s.operation? id with
  | none => simp
  | some row =>
    obtain ⟨-, hid⟩ := operation?_eq_some.mp hrow
    by_cases h : id = operationId <;> simp [h, hid, move]

/-- **What a transition checks, and what it writes.** -/
theorem transitionOperation_eq_ok {expectedRevision : Nat}
    {state : KnowledgeOperationState} {providerOperationId : Option String}
    {resultReferences : List String} :
    s.transitionOperation operationId expectedRevision state providerOperationId resultReferences
        = .ok (row, s') ↔
      ∃ current, s.operation? operationId = some current ∧ current.Valid ∧
        current.revision = expectedRevision ∧ state ∈ transitions current.state ∧
        (∀ reference ∈ resultReferences, s.Available reference) ∧
        row = current.moved state providerOperationId resultReferences ∧
        s' = s.moveOperation operationId state providerOperationId resultReferences := by
  simp only [transitionOperation, bind_eq_ok, refuseIf_eq_ok, pure_eq_ok, operation_eq_ok,
    not_not, not_exists, not_and, Prod.mk.injEq]
  constructor
  · rintro ⟨current, ⟨hcurrent, hvalid⟩, _, hrevision, _, hstate, _, hrefs, rfl, rfl⟩
    exact ⟨current, hcurrent, hvalid, hrevision, hstate, hrefs, rfl, rfl⟩
  · rintro ⟨current, hcurrent, hvalid, hrevision, hstate, hrefs, rfl, rfl⟩
    exact ⟨current, ⟨hcurrent, hvalid⟩, (), hrevision, (), hstate, (), hrefs, rfl, rfl⟩

/-- **An operation is there already, with the same content, or it is new.** -/
theorem createOperation_cases {o row : KnowledgeOperation}
    (h : s.createOperation o = .ok (row, s')) :
    (s.operation? o.operationId = some row ∧ row.requestFingerprint = o.requestFingerprint ∧
      s' = s) ∨
    (s.operation? o.operationId = none ∧ s.Available o.requestReference ∧
      (∀ corpusId ∈ o.corpusId, s.corpus? corpusId ≠ none) ∧ o.state = .queued ∧
      row = { o with revision := 1 } ∧ ∃ operations,
        s.operations.insert row = some operations ∧ s' = { s with operations := operations }) := by
  simp only [createOperation, bind_eq_ok, refuseIf_eq_ok, not_or, not_not] at h
  obtain ⟨_, ⟨hqueued, -⟩, h⟩ := h
  cases hcurrent : s.operation? o.operationId with
  | some current =>
    simp only [hcurrent, bind_eq_ok, refuseIf_eq_ok, pure_eq_ok, not_not, Prod.mk.injEq] at h
    obtain ⟨_, -, _, hcontent, rfl, rfl⟩ := h
    exact .inl ⟨rfl, hcontent, rfl⟩
  | none =>
    simp only [hcurrent, bind_eq_ok, refuseIf_eq_ok, require_eq_ok, pure_eq_ok, not_not,
      not_exists, not_and, Prod.mk.injEq] at h
    obtain ⟨_, havailable, _, hcorpus, operations, hinsert, rfl, rfl⟩ := h
    exact .inr ⟨rfl, havailable, hcorpus, hqueued, rfl, operations, hinsert, rfl⟩

/-- A new operation is the row of its identity. -/
theorem operation?_insert {operations : Table KnowledgeOperation}
    (h : s.operations.insert row = some operations) (id : Uuid) :
    ({ s with operations := operations } : KnowledgeStore).operation? id =
      if id = row.operationId then some row else s.operation? id := by
  refine (find_insert h _).trans ?_
  change (s.operation? id).or _ = _
  by_cases hid : id = row.operationId
  · subst hid
    have hnone : s.operation? row.operationId = none := by
      rw [operation?, find_eq_none]
      intro other hother hid
      exact not_clash_of_insert h hother hid
    simp [hnone]
  · simp [hid, Ne.symm hid]

/-- **A compare-and-swap on a corpus**: what it checks, and what it writes. -/
theorem putCorpus_eq_ok {c durable : KnowledgeCorpus} {expectedRevision : Nat}
    (h : s.putCorpus c expectedRevision = .ok (durable, s')) :
    c.revision = expectedRevision ∧ (∀ row ∈ s.corpus? c.corpusId, row.revision = c.revision) ∧
      (∀ reference ∈ c.snapshotReference, s.Available reference) ∧
      durable = { c with revision := c.revision + 1 } ∧
      (∀ id, s'.corpus? id = if id = c.corpusId then some durable else s.corpus? id) ∧
      ∃ corpora, s' = { s with corpora := corpora, recorded := s.recorded ++ [durable] } := by
  simp only [putCorpus, bind_eq_ok, refuseIf_eq_ok, not_not, not_exists, not_and] at h
  obtain ⟨_, rfl, _, hcurrent, _, havailable, h⟩ := h
  cases hrow : s.corpora.find fun r => r.projectId = c.projectId && r.sourceId = c.sourceId with
  | none =>
    simp only [hrow, bind_eq_ok, require_eq_ok, pure_eq_ok, Prod.mk.injEq, Option.map_none,
      Option.getD_none] at h hcurrent
    obtain ⟨corpora, hinsert, rfl, rfl⟩ := h
    have hnone : s.corpus? c.corpusId = none := by
      rw [corpus?, find_eq_none]
      intro other hother hid
      refine not_clash_of_insert hinsert hother ?_
      simpa [Keyed.clash, Keyed.key] using .inl (of_decide_eq_true hid)
    refine ⟨rfl, by simp [hnone], havailable, by simp [← hcurrent], fun id => ?_, corpora, rfl⟩
    refine (find_insert hinsert _).trans ?_
    change (s.corpus? id).or _ = _
    by_cases hid : id = c.corpusId
    · subst hid
      simp [hnone]
    · simp [hid, Ne.symm hid]
  | some row =>
    simp only [hrow, bind_eq_ok, refuseIf_eq_ok, pure_eq_ok, Prod.mk.injEq, not_not,
      Option.map_some, Option.getD_some] at h hcurrent
    obtain ⟨_, hid, rfl, rfl⟩ := h
    have hmem := mem_of_find hrow
    have hscope := of_find hrow
    simp only [Bool.and_eq_true, decide_eq_true_eq] at hscope
    have hcorpus : s.corpus? c.corpusId = some row := corpus?_eq_some.mpr ⟨hmem, hid⟩
    refine ⟨rfl, ?_, havailable, by simp [hcurrent], fun id => ?_, _, rfl⟩
    · rintro _ hrow'
      obtain rfl := Option.some.inj (hcorpus.symm.trans hrow')
      exact hcurrent
    · refine (@find_update _ _ s.corpora _ (KnowledgeCorpus.over _) (fun _ => rfl) _
        fun _ => rfl).trans ?_
      change (s.corpus? id).map _ = _
      by_cases hne : id = c.corpusId
      · subst hne
        simp [hcorpus, hid, KnowledgeCorpus.over, hscope]
      · cases hother : s.corpus? id with
        | none => simp [hne]
        | some other =>
          obtain ⟨-, hotherid⟩ := corpus?_eq_some.mp hother
          simp [hne, hotherid]

/-- An artifact that is stored is new. -/
@[simp] theorem putBytes_eq_ok {artifact stored : StoredArtifact} :
    s.putBytes artifact = .ok (stored, s') ↔ ¬ s.Available artifact.reference ∧
      artifact = stored ∧ { s with artifacts := s.artifacts ++ [artifact] } = s' := by
  simp only [putBytes, bind_eq_ok, refuseIf_eq_ok, return_eq_ok, exists_const]

end KnowledgeStore

end Mishkan.Knowledge

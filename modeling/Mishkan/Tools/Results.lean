import Mishkan.Tools.Dispatch
import Mishkan.Tools.Inspection

/-!
# Tools/Results — what the gateway makes of an adapter's result

The part of `CapabilityGateway.invoke` between the return of the adapter and the envelope of the
call: the result is completed with evidence and artifact references, written as one text, inspected
for the resolved credentials, and read back from the inspected text.
-/

namespace Mishkan

open Refusal List Json

/-! ## Results of adapters -/

structure ResolvedPath where
  requested : String
  lexicalRelative : String := ""
  relative : String
  absolute : String
  linkChain : List String := []
deriving DecidableEq

structure ResolvedTargets where
  paths : List ResolvedPath := []
  executables : List String := []
  networkDestinations : List String := []
  repositories : List String := []
  remotes : List String := []
  branches : List String := []
  environments : List String := []
  externalResources : List String := []
deriving DecidableEq

/-- The output channel of an artifact. -/
inductive Channel where
  | stdout | stderr
deriving DecidableEq

def Channel.value : Channel → String
  | .stdout => "stdout"
  | .stderr => "stderr"

/-- The output member that names the artifact of a channel. -/
def Channel.referenceName (channel : Channel) : String := channel.value ++ "_artifact_ref"

/-- Content an adapter hands over as an artifact, with its text as it decodes. -/
structure ArtifactCandidate where
  channel : Channel
  mediaType : String
  content : List Char
  complete : Bool

structure AdapterResult where
  output : JsonObject
  actualTargets : ResolvedTargets
  externalReferences : List String := []
  evidence : JsonObject := []
  inspectionContent : List (List Char) := []
  artifactCandidates : List ArtifactCandidate := []
  callStatus : CallStatus := .completed
  retryable : Bool := false
  errorCode : Option ErrorCode := none
  reason : Option String := none

/-- The envelope of a call with all it carries of the adapter's result. -/
structure InspectedEnvelope extends ToolResultEnvelope where
  actualTargets : ResolvedTargets
  externalReferences : List String
  adapterEvidence : JsonObject

/-- What the gateway has at hand when the adapter returns. -/
structure DispatchedCall where
  contract : ToolContract
  resultId : Uuid
  callId : Uuid
  runId : Uuid
  taskAttemptId : String
  resolved : ResolvedTargets
  /-- The resolved paths are still the ones that were authorized. -/
  pathsKept : Bool := true
  /-- The resolved credential values, by reference. -/
  credentials : List (String × String)
  inspector : Inspection.ContentInspector
  /-- The evidence of the operation as observed before it, and what it is completed to. -/
  operationEvidence : Option (JsonObject → Except Raised JsonObject) := none
  /-- The artifact store: the reference of stored content. -/
  artifactStore : Option (ArtifactCandidate → Except Raised String) := none
  /-- Validation of an output against a schema. -/
  validates : Json → JsonObject → Bool

namespace DispatchedCall

/-- `tuple(credentials.values())`. -/
def secretValues (call : DispatchedCall) : List String := call.credentials.map Prod.snd

/-! ## The result block -/

/-- Set a member of an object: in its place, or behind the others. -/
def assign (members : JsonObject) (name : String) (x : Json) : JsonObject :=
  if members.any (·.1 = name) then members.map fun m => if m.1 = name then (name, x) else m
  else members ++ [(name, x)]

/-- The output with the evidence of the operation. -/
def withOperationEvidence (call : DispatchedCall) (output : JsonObject) :
    Except Raised JsonObject :=
  match call.operationEvidence with
  | none => .ok output
  | some complete => do
    refuseIf (output.any (·.1 = "operation_evidence"))
      (fault .toolSchema "adapter attempted to replace Gateway operation evidence")
    let evidence ← complete output
    .ok (assign output "operation_evidence" (.obj evidence))

/-- What the artifact loop carries: the channels seen, the output and the references. -/
abbrev Collected := List Channel × JsonObject × List String

/-- Inspect and store one artifact candidate. -/
def storeCandidate (call : DispatchedCall) (collected : Collected)
    (candidate : ArtifactCandidate) : Except Raised Collected := do
  let (channels, output, references) := collected
  refuseIf (candidate.channel ∈ channels)
    (fault .toolSchema "adapter returned duplicate artifact output channels")
  let _ ← call.inspector.inspect candidate.content call.secretValues
  let put ← require call.artifactStore
    (fault .artifact "adapter returned artifact content without a configured store")
  let reference ← put candidate
  .ok (candidate.channel :: channels, assign output candidate.channel.referenceName
    (.str reference),
    references ++ [reference])

/-- `json.dumps(…, sort_keys=True)`. -/
def wireStyle : JsonStyle where
  ascii := true
  padding := [' ']
  sortKeys := true

/-- The text of a result that is inspected. -/
def resultText (output : JsonObject) (references : List String) (evidence : JsonObject) :
    List Char :=
  (obj [("output", .obj output), ("external_references", .strings references),
    ("evidence", .obj evidence)]).dumps wireStyle

/-- The output, references and evidence an inspected text holds. -/
def readResult (inspected : List Char) :
    Except Raised (JsonObject × List String × JsonObject) := do
  let document ← require (loads inspected) (.valueError "invalid JSON")
  match document with
  | .obj members =>
    match lookup members "output" with
    | some (.obj output) =>
      match lookup members "external_references" with
      | some (.arr items) =>
        match items.mapM asStr? with
        | some references =>
          match lookup members "evidence" with
          | some (.obj evidence) => .ok (output, references, evidence)
          | _ => .error (fault .toolSchema "inspected adapter evidence is invalid")
        | none => .error (fault .toolSchema "inspected external references are not a string list")
      | _ => .error (fault .toolSchema "inspected external references are not a string list")
    | _ => .error (fault .toolSchema "inspected tool output is not an object")
  | _ => .error (fault .toolSchema "inspected tool result is not an object")

/-- The result block of `invoke`: the envelope of a call whose adapter has returned. -/
def completeResult (call : DispatchedCall) (result : AdapterResult) :
    Except Raised InspectedEnvelope := do
  refuseIf (result.actualTargets ≠ call.resolved) (fault .toolEffect
    "adapter-reported actual targets differ from the authorized targets")
  refuseIf (call.pathsKept = false) (fault .file "filesystem target changed after authorization")
  let _ ← result.inspectionContent.mapM (call.inspector.inspect · call.secretValues)
  let output ← call.withOperationEvidence result.output
  let (_, output, references) ← result.artifactCandidates.foldlM call.storeCandidate
    ([], output, result.externalReferences)
  let inspected ← call.inspector.inspect (resultText output references result.evidence)
    call.secretValues
  let (output, references, evidence) ← readResult inspected
  refuseIf (¬ call.validates call.contract.resultSchema output)
    (fault .toolSchema "tool result failed its bound JSON Schema")
  .ok
    { id := call.resultId
      callId := call.callId
      runId := call.runId
      taskAttemptId := call.taskAttemptId
      toolId := call.contract.toolId
      toolVersion := call.contract.version
      status := result.callStatus
      output := some output
      retryable := result.retryable
      errorCode := result.errorCode
      reason := result.reason.getD "validated authorized tool result"
      actualTargets := result.actualTargets
      externalReferences := references
      adapterEvidence := evidence }

/-! ## What the inspected text shows -/

section Inspected

variable {call : DispatchedCall} {output output' : JsonObject} {references references' :
  List String}

theorem mem_assign (name : String) (x : Json) {m : String × Json} (h : m ∈ output) :
    (∃ y, (m.1, y) ∈ assign output name x) ∧ (m.1 ≠ name → m ∈ assign output name x) := by
  unfold assign
  split
  · refine ⟨?_, fun hne => mem_map.mpr ⟨m, h, if_neg hne⟩⟩
    by_cases hname : m.1 = name
    · exact ⟨x, mem_map.mpr ⟨m, h, by rw [if_pos hname, hname]⟩⟩
    · exact ⟨m.2, mem_map.mpr ⟨m, h, if_neg hname⟩⟩
  · exact ⟨⟨m.2, mem_append_left _ h⟩, fun _ => mem_append_left _ h⟩

theorem mem_withOperationEvidence (h : call.withOperationEvidence output = .ok output')
    {m : String × Json} (hm : m ∈ output) : m ∈ output' := by
  unfold withOperationEvidence at h
  split at h
  · cases h
    exact hm
  · obtain ⟨_, hfree, h⟩ := bind_eq_ok.mp h
    obtain ⟨evidence, -, h⟩ := bind_eq_ok.mp h
    cases h
    rw [refuseIf_eq_ok] at hfree
    refine (mem_assign _ _ hm).2 fun hname => hfree ?_
    exact any_eq_true.mpr ⟨m, hm, decide_eq_true hname⟩

/-- Storing artifacts keeps the references, the names of the members, and every member that no
artifact reference takes the place of. -/
theorem storeCandidates_keeps {candidates : List ArtifactCandidate}
    {channels channels' : List Channel}
    (h : candidates.foldlM call.storeCandidate (channels, output, references) =
      .ok (channels', output', references')) :
    references ⊆ references' ∧ ∀ m ∈ output, (∃ y, (m.1, y) ∈ output') ∧
      (m.1 ∉ candidates.map (·.channel.referenceName) → m ∈ output') := by
  induction candidates generalizing channels output references with
  | nil =>
    cases h
    exact ⟨List.Subset.refl _, fun m hm => ⟨⟨m.2, hm⟩, fun _ => hm⟩⟩
  | cons candidate candidates ih =>
    rw [foldlM_cons] at h
    obtain ⟨⟨_, output₁, references₁⟩, hstep, h⟩ := bind_eq_ok.mp h
    obtain ⟨hreferences, hmembers⟩ := ih h
    simp only [storeCandidate, bind_eq_ok, refuseIf_eq_ok, require_eq_ok, Except.ok.injEq,
      Prod.mk.injEq] at hstep
    obtain ⟨-, -, -, -, -, -, reference, -, -, rfl, rfl⟩ := hstep
    refine ⟨fun r hr => hreferences (mem_append_left _ hr), fun m hm => ?_⟩
    obtain ⟨⟨y, hy⟩, hkept⟩ := mem_assign candidate.channel.referenceName (.str reference) hm
    refine ⟨(hmembers _ hy).1, fun hfree => ?_⟩
    rw [map_cons, mem_cons, not_or] at hfree
    exact (hmembers m (hkept hfree.1)).2 hfree.2

theorem mem_resultTexts {s : String} {evidence : JsonObject}
    (h : s ∈ references ∨ s ∈ (obj evidence).texts ∨ s ∈ (obj output).texts) :
    s ∈ (obj [("output", .obj output), ("external_references", .strings references),
      ("evidence", .obj evidence)]).texts := by
  have hstrings : s ∈ (strings references).texts ↔ s ∈ references := by
    simp [strings, texts, mem_itemTexts]
  simp only [texts, memberTexts, cons_append, append_nil, mem_cons,
    mem_append] at hstrings h ⊢
  tauto

end Inspected

end DispatchedCall

/-- A string of the result contains the word: a reference, a string of the evidence, or one of the
output.  What stands in an output member that an artifact reference takes the place of is not part
of the result: nothing is made of it. -/
def AdapterResult.Holds (result : AdapterResult) (word : String) : Prop :=
  ∃ s : String, word.toList <:+: s.toList ∧ (s ∈ result.externalReferences ∨
    s ∈ (obj result.evidence).texts ∨ ∃ m ∈ result.output, s = m.1 ∨
      m.1 ∉ result.artifactCandidates.map (·.channel.referenceName) ∧ s ∈ m.2.texts)

namespace DispatchedCall

/-- What the text of every result has between its three parts. -/
def punctuation : List (List Char) :=
  ["\x7b\"evidence\": \x7b".toList, "\x7d, \"external_references\": [".toList,
    "], \"output\": \x7b".toList]

/-- The word stands in the text of every result that holds it. -/
def Shows (word : String) : Prop :=
  word.toList <:+: escape true word.toList ∨ ∃ p ∈ punctuation, word.toList <:+: p

instance (word : String) : Decidable (Shows word) :=
  inferInstanceAs (Decidable (_ ∨ ∃ p ∈ punctuation, _))

theorem canonical_result (output references evidence : Json) :
    (obj [("output", output), ("external_references", references),
      ("evidence", evidence)]).canonical =
      .obj [("evidence", evidence.canonical), ("external_references", references.canonical),
        ("output", output.canonical)] := by
  have h₁ : ¬ ("output" : String) ≤ "external_references" := by decide
  have h₂ : ¬ ("external_references" : String) ≤ "evidence" := by decide
  have h₃ : ¬ ("output" : String) ≤ "evidence" := by decide
  simp [canonical, canonicalMembers, List.orderedInsert, h₁, h₂, h₃]

/-- The text of a result, part by part. -/
theorem resultText_eq (output : JsonObject) (references : List String) (evidence : JsonObject) :
    resultText output references evidence = "\x7b\"evidence\": ".toList ++
      ((obj evidence).canonical.render wireStyle ++ (", \"external_references\": ".toList ++
        ((strings references).canonical.render wireStyle ++ (", \"output\": ".toList ++
          ((obj output).canonical.render wireStyle ++ ['}']))))) := by
  rw [resultText, dumps, if_pos (show wireStyle.sortKeys = true from rfl), canonical_result,
    render, renderMembers, renderMembers, renderMembers]
  rfl

theorem punctuation_shown {p : List Char} (hp : p ∈ punctuation) (output : JsonObject)
    (references : List String) (evidence : JsonObject) :
    p <:+: resultText output references evidence := by
  rw [resultText_eq, canonical, strings, canonical, canonical]
  obtain ⟨inner₁, h₁⟩ := render_obj wireStyle
    ((canonicalMembers evidence).insertionSort (·.1 ≤ ·.1))
  obtain ⟨inner₂, h₂⟩ := render_arr wireStyle (canonicalItems (references.map .str))
  obtain ⟨inner₃, h₃⟩ := render_obj wireStyle
    ((canonicalMembers output).insertionSort (·.1 ≤ ·.1))
  rw [h₁, h₂, h₃]
  simp only [punctuation, mem_cons, not_mem_nil, or_false] at hp
  rcases hp with rfl | rfl | rfl
  · exact ⟨[], _, by simp; rfl⟩
  · refine ⟨"\x7b\"evidence\": ".toList ++ '{' :: inner₁, inner₂ ++ ([']'] ++
      (", \"output\": ".toList ++ ('{' :: (inner₃ ++ ['}']) ++ ['}']))), ?_⟩
    simp
  · refine ⟨"\x7b\"evidence\": ".toList ++ ('{' :: (inner₁ ++ ['}']) ++
      (", \"external_references\": ".toList ++ '[' :: inner₂)), inner₃ ++ ['}', '}'], ?_⟩
    simp

/-- **The text of a completed result shows no secret.** -/
theorem hides_of_completeResult {call : DispatchedCall} {result : AdapterResult}
    {envelope : InspectedEnvelope} (h : call.completeResult result = .ok envelope) {secret : String}
    (hsecret : secret ∈ call.secretValues) (hne : secret ≠ "") (hholds : result.Holds secret) :
    ¬ Shows secret := by
  iterate 3 replace h := of_bind h
  obtain ⟨output₁, hevidence, h⟩ := bind_eq_ok.mp h
  obtain ⟨⟨_, output, references⟩, hstore, h⟩ := bind_eq_ok.mp h
  obtain ⟨inspected, hinspect, -⟩ := bind_eq_ok.mp h
  obtain ⟨hreferences, hmembers⟩ := storeCandidates_keeps hstore
  intro hshows
  refine Inspection.ContentInspector.not_exposes_of_inspect hinspect ⟨secret, hsecret, hne, ?_⟩
  rcases hshows with hshows | ⟨p, hp, hshows⟩
  · obtain ⟨s, hs, hplace⟩ := hholds
    refine hshows.trans ((escape_infix_escape hs).trans ?_)
    refine escape_infix_dumps wireStyle (mem_resultTexts ?_)
    rcases hplace with hplace | hplace | ⟨m, hm, hplace⟩
    · exact .inl (hreferences hplace)
    · exact .inr (.inl hplace)
    · have hm := mem_withOperationEvidence hevidence hm
      obtain ⟨⟨y, hy⟩, hkept⟩ := hmembers m hm
      refine .inr (.inr (mem_memberTexts.mpr ?_))
      rcases hplace with rfl | ⟨hfree, hs⟩
      · exact ⟨_, hy, .inl rfl⟩
      · exact ⟨m, hkept hfree, .inr hs⟩
  · exact hshows.trans (punctuation_shown hp _ _ _)

/-! ## Results that show nothing -/

section Hidden

variable {secret : String} {output evidence : JsonObject} {references : List String}

/-- A contract that accepts every output. -/
def openContract : ToolContract where
  toolId := "repository.read"
  version := "1.0"
  effectClass := .read
  adapter := "files"
  inputSchema := .obj []
  resultSchema := .obj []
  targetScopes := []
  targetArguments := []
  resources := { timeoutSeconds := 30 }
  scopesDeclared := ToolContract.noScopes

/-- A call with one credential, whose inspector has no rules of its own. -/
def openCall (secret : String) : DispatchedCall where
  contract := openContract
  resultId := 1
  callId := 2
  runId := 3
  taskAttemptId := "task:1"
  resolved := {}
  credentials := [("token", secret)]
  inspector := ⟨"open", []⟩
  validates := fun _ _ => true

theorem canonicalItems_map_str (references : List String) :
    canonicalItems (references.map .str) = references.map .str := by
  induction references with
  | nil => rfl
  | cons s references ih => simp [canonicalItems, canonical, ih]

theorem readableItems_map_str (references : List String) :
    readableItems (references.map .str) = true := by
  induction references with
  | nil => rfl
  | cons s references ih => simp [readableItems, readable, ih]

theorem mapM_asStr (references : List String) :
    references.mapM (asStr? ∘ str) = some references := by
  induction references with
  | nil => rfl
  | cons s references ih => simp [asStr?, ih]

/-- **A result whose text shows no secret is completed** as it is. -/
theorem completeResult_of_hidden (hcanonical : (Json.obj output).canonical = .obj output ∧
      (Json.obj evidence).canonical = .obj evidence)
    (hreadable : (Json.obj output).readable = true ∧ (Json.obj evidence).readable = true)
    (hhidden : ¬ secret.toList <:+: resultText output references evidence) :
    ∃ envelope, (openCall secret).completeResult
        { output := output, actualTargets := {}, externalReferences := references,
          evidence := evidence } = .ok envelope ∧
      envelope.output = some output ∧ envelope.externalReferences = references ∧
      envelope.adapterEvidence = evidence := by
  have htext : resultText output references evidence = Json.render wireStyle
      (.obj [("evidence", .obj evidence), ("external_references", .strings references),
        ("output", .obj output)]) := by
    rw [resultText, Json.dumps, wireStyle, if_pos rfl, canonical_result, hcanonical.1, hcanonical.2,
      Json.strings, Json.canonical, canonicalItems_map_str]
  have hloads : Json.loads (resultText output references evidence) =
      some (.obj [("evidence", .obj evidence), ("external_references", .strings references),
        ("output", .obj output)]) := by
    rw [htext]
    refine Json.loads_render (by simp [wireStyle]) ?_
    have hstrings : (Json.strings references).readable = true := by
      rw [Json.strings, Json.readable, readableItems_map_str]
    simp [Json.readable, Json.readableMembers] at hreadable hstrings ⊢
    exact ⟨hreadable.2, hstrings, hreadable.1⟩
  have hread : readResult (resultText output references evidence) =
      .ok (output, references, evidence) := by
    simp [readResult, hloads, require, Json.lookup, Json.strings, mapM_asStr]
  have hinspect : (openCall secret).inspector.inspect (resultText output references evidence)
      (openCall secret).secretValues = .ok (resultText output references evidence) := by
    refine Inspection.ContentInspector.inspect_of_not_exposes rfl ?_
    rintro ⟨s, hs, -, hshown⟩
    obtain rfl : s = secret := mem_singleton.mp hs
    exact hhidden hshown
  rw [completeResult, refuseIf_of_not (by simp [openCall]), ok_bind,
    refuseIf_of_not (by simp [openCall]), ok_bind]
  simp only [mapM_nil, foldlM_nil, pure, Except.pure, ok_bind, withOperationEvidence,
    show (openCall secret).operationEvidence = none from rfl, hinspect, hread]
  rw [refuseIf_of_not (by simp [openCall]), ok_bind]
  exact ⟨_, rfl, rfl, rfl, rfl⟩

/-! ### Three results around one string

The string is a reference, a string of the evidence, and a string of the output.  What stands around
it in the text is fixed, and differs. -/

/-- A result with the string in one of its three parts. -/
inductive Part where
  | reference | evidence | output
deriving DecidableEq

def Part.holder (part : Part) (s : String) : AdapterResult where
  output := if part = .output then [("", .str s)] else []
  actualTargets := {}
  externalReferences := if part = .reference then [s] else []
  evidence := if part = .evidence then [("", .str s)] else []

/-- What stands before the string. -/
def Part.before : Part → List Char
  | .reference => "\x7b\"evidence\": \x7b\x7d, \"external_references\": [\"".toList
  | .evidence => "\x7b\"evidence\": \x7b\"\": \"".toList
  | .output =>
    "\x7b\"evidence\": \x7b\x7d, \"external_references\": [], \"output\": \x7b\"\": \"".toList

/-- What stands behind it. -/
def Part.after : Part → List Char
  | .reference => "\"], \"output\": \x7b\x7d\x7d".toList
  | .evidence => "\"\x7d, \"external_references\": [], \"output\": \x7b\x7d\x7d".toList
  | .output => "\"\x7d\x7d".toList

theorem render_none : (obj []).canonical.render wireStyle = ['{', '}'] ∧
    (strings []).canonical.render wireStyle = ['[', ']'] := by
  simp [canonical, canonicalMembers, strings, canonicalItems, render]

theorem render_reference (s : String) : (strings [s]).canonical.render wireStyle =
    ['[', '"'] ++ (escape true s.toList ++ ['"', ']']) := by
  simp [canonical, strings, canonicalItems, render, renderItems,
    quote, wireStyle]

theorem render_member (s : String) : (obj [("", .str s)]).canonical.render wireStyle =
    ['{', '"', '"', ':', ' ', '"'] ++ (escape true s.toList ++ ['"', '}']) := by
  simp [canonical, canonicalMembers, render, renderMembers, quote,
    wireStyle, escape]

theorem Part.text (part : Part) (s : String) :
    resultText (part.holder s).output (part.holder s).externalReferences (part.holder s).evidence =
      part.before ++ (escape true s.toList ++ part.after) := by
  refine (resultText_eq _ _ _).trans ?_
  cases part with
  | reference =>
    have hbefore : Part.before .reference = "\x7b\"evidence\": ".toList ++ (['{', '}'] ++
      (", \"external_references\": ".toList ++ ['[', '"'])) := by decide +kernel
    have hafter : Part.after .reference = ['"', ']'] ++ (", \"output\": ".toList ++
      (['{', '}'] ++ ['}'])) := by decide +kernel
    rw [hbefore, hafter]
    simp only [Part.holder, reduceCtorEq, ↓reduceIte, render_none.1, render_reference,
      append_assoc]
  | evidence =>
    have hbefore : Part.before .evidence =
      "\x7b\"evidence\": ".toList ++ ['{', '"', '"', ':', ' ', '"'] := by decide +kernel
    have hafter : Part.after .evidence = ['"', '}'] ++ (", \"external_references\": ".toList ++
      (['[', ']'] ++ (", \"output\": ".toList ++ (['{', '}'] ++ ['}'])))) := by decide +kernel
    rw [hbefore, hafter]
    simp only [Part.holder, reduceCtorEq, ↓reduceIte, render_none.1, render_none.2, render_member,
      append_assoc]
  | output =>
    have hbefore : Part.before .output = "\x7b\"evidence\": ".toList ++ (['{', '}'] ++
      (", \"external_references\": ".toList ++ (['[', ']'] ++ (", \"output\": ".toList ++
        ['{', '"', '"', ':', ' ', '"'])))) := by decide +kernel
    have hafter : Part.after .output = ['"', '}'] ++ ['}'] := by decide +kernel
    rw [hbefore, hafter]
    simp only [Part.holder, reduceCtorEq, ↓reduceIte, render_none.1, render_none.2, render_member,
      append_assoc]

theorem Part.holds (part : Part) {word s : String} (h : word.toList <:+: s.toList) :
    (part.holder s).Holds word := by
  refine ⟨s, h, ?_⟩
  cases part with
  | reference => exact .inl (by simp [Part.holder])
  | evidence => exact .inr (.inl (by simp [Part.holder, texts, memberTexts]))
  | output => exact .inr (.inr ⟨("", .str s), by simp [Part.holder, texts]⟩)

/-- Words that stand around the string in all three texts besides the punctuation. -/
def fillers : List (List Char) := ["\": \x7b\x7d".toList, "\x7d\x7d".toList]

theorem fillers_shown :
    ∀ p ∈ fillers, ∀ u ∈ p.tails.flatMap List.inits, u <:+: escape true u := by
  decide +kernel

/-- What stands around the string in all three texts begins in the same way. -/
theorem common_around : ∀ t ∈ (Part.before .reference).tails ++ (Part.after .reference).tails,
    ∀ a ∈ [Part.before .evidence, Part.after .evidence],
    ∀ b ∈ [Part.before .output, Part.after .output], ∃ p ∈ punctuation ++ fillers,
      commonPrefix (longestShown t a) (longestShown t b) <:+: p := by
  decide +kernel

theorem shows_of_around {word : String} (h : ∀ part : Part,
    word.toList <:+: part.before ∨ word.toList <:+: part.after) : Shows word := by
  obtain ⟨t, ht, hword⟩ : ∃ t ∈ (Part.before .reference).tails ++ (Part.after .reference).tails,
      word.toList <+: t := by
    rcases h .reference with h | h <;>
      obtain ⟨t, hprefix, hsuffix⟩ := infix_iff_prefix_suffix.mp h
    · exact ⟨t, mem_append_left _ ((mem_tails _ _).mpr hsuffix), hprefix⟩
    · exact ⟨t, mem_append_right _ ((mem_tails _ _).mpr hsuffix), hprefix⟩
  obtain ⟨a, ha, hworda⟩ : ∃ a ∈ [Part.before .evidence, Part.after .evidence],
      word.toList <:+: a := by simpa using h .evidence
  obtain ⟨b, hb, hwordb⟩ : ∃ b ∈ [Part.before .output, Part.after .output],
      word.toList <:+: b := by simpa using h .output
  obtain ⟨p, hp, hcommon⟩ := common_around t ht a ha b hb
  have hwordp : word.toList <:+: p := by
    have hcommonPrefix := prefix_commonPrefix (prefix_longestShown hword hworda)
      (prefix_longestShown hword hwordb)
    exact hcommonPrefix.isInfix.trans hcommon
  rcases mem_append.mp hp with hp | hp
  · exact .inr ⟨p, hp, hwordp⟩
  · obtain ⟨tail, hprefix, hsuffix⟩ := infix_iff_prefix_suffix.mp hwordp
    exact .inl (fillers_shown p hp _ (mem_flatMap.mpr
      ⟨tail, (mem_tails _ _).mpr hsuffix, (mem_inits _ _).mpr hprefix⟩))

/-- **A secret that is not shown** is in a result that is completed with it. -/
theorem exists_completed (hne : secret ≠ "") (hhidden : ¬ Shows secret) :
    ∃ part : Part, ∃ s : String, secret.toList <:+: s.toList ∧ ∃ envelope,
      (openCall secret).completeResult (part.holder s) = .ok envelope ∧
      envelope.output = some (part.holder s).output ∧
      envelope.externalReferences = (part.holder s).externalReferences ∧
      envelope.adapterEvidence = (part.holder s).evidence := by
  obtain ⟨z, hz, hhead, hlast⟩ := exists_padding secret.toList
  have hpart : ∃ part : Part, ¬ secret.toList <:+:
      part.before ++ (escape true (padded z secret).toList ++ part.after) := by
    by_contra hall
    push Not at hall
    have haround : ∀ part : Part,
        secret.toList <:+: part.before ∨ secret.toList <:+: part.after := by
      intro part
      rcases infix_around_padded (escapeChar_padding hz) hhead hlast hne (hall part)
        with h | h | h
      · exact .inl h
      · exact .inr h
      · exact absurd (.inl h) hhidden
    exact hhidden (shows_of_around haround)
  obtain ⟨part, hpart⟩ := hpart
  refine ⟨part, padded z secret, infix_padded, ?_⟩
  rw [← part.text] at hpart
  refine completeResult_of_hidden ?_ ?_ hpart
  · cases part <;> simp [canonical, canonicalMembers]
  · cases part <;> simp [readable, readableMembers]

end Hidden

/-- **Every result that holds the secret is refused exactly when its text shows it.** -/
theorem refused_iff_shows {secret : String} (hne : secret ≠ "") :
    (∀ (call : DispatchedCall) (result : AdapterResult), secret ∈ call.secretValues →
      result.Holds secret → ∃ raised, call.completeResult result = .error raised) ↔
      Shows secret := by
  constructor
  · intro hrefused
    by_contra hhidden
    obtain ⟨part, s, hs, envelope, hcomplete, -⟩ := exists_completed hne hhidden
    obtain ⟨raised, hraised⟩ := hrefused (openCall secret) (part.holder s)
      (mem_singleton.mpr rfl) (part.holds hs)
    rw [hraised] at hcomplete
    cases hcomplete
  · intro hshows call result hsecret hholds
    cases hcomplete : call.completeResult result with
    | error raised => exact ⟨raised, rfl⟩
    | ok envelope => exact absurd hshows (hides_of_completeResult hcomplete hsecret hne hholds)

end DispatchedCall

end Mishkan

import Mishkan.Artifacts.Models
import Mishkan.Foundations.Refusal

/-!
# Artifacts/Bodies — the content-addressed store of bodies

A body is published through a temporary file that is linked to its name; a name that is taken stays,
and must have the expected body.  `hexdigest` is the text of the SHA-256 of a content.
-/

namespace Mishkan.Artifacts

open Refusal Table Keyed

/-- The files below the root of the bodies. -/
abbrev BodyStore := Table (StoredFile StorageRef)

/-- What is observed of a stored body. -/
structure BodyObservation where
  digest : Digest Bytes
  sizeBytes : Nat
deriving DecidableEq

/-- The facts of a content. -/
def BodyObservation.of (content : Bytes) : BodyObservation := ⟨⟨content⟩, content.length⟩

variable (hexdigest : Bytes → String)

/-- The text of a digest. -/
def digestText (digest : Digest Bytes) : String := "sha256:" ++ hexdigest digest.of

def DigestText.text : DigestText → String
  | .canonical digest => digestText hexdigest digest
  | .irregular text => text
  | .malformed text => text

/-- The digest of a name that `_validate_storage_ref` accepts. -/
def StorageRef.digest : StorageRef → Except Raised (Digest Bytes)
  | .body digest => .ok digest
  | _ => .error <| fault .artifact "artifact storage reference is invalid"

/-- The content has the expected digest and size. -/
def requireExpected (observed : BodyObservation) (expected : DigestText) (size : Nat)
    (collision : Bool) : Except Raised Unit :=
  refuseIf (¬ (.canonical observed.digest = expected ∧ observed.sizeBytes = size)) <|
    fault .artifact
      (if collision then "artifact CAS collision was detected"
        else "artifact upload failed size or digest verification")
      [("expected_digest", .str (expected.text hexdigest)),
        ("observed_digest", .str (digestText hexdigest observed.digest)),
        ("expected_size", .int size), ("observed_size", .int observed.sizeBytes)]

namespace BodyStore

def content? (bodies : BodyStore) (ref : StorageRef) : Option Bytes :=
  (bodies.find (·.name = ref)).map (·.content)

def observe (bodies : BodyStore) (ref : StorageRef) : Except Raised (Option BodyObservation) := do
  let digest ← ref.digest
  return (bodies.content? (.body digest)).map BodyObservation.of

def delete (bodies : BodyStore) (ref : StorageRef) : Except Raised BodyStore := do
  let digest ← ref.digest
  return bodies.keep (·.name ≠ .body digest)

/-! ## Publication, step by step -/

/-- Verify the source, and copy it to a temporary file. -/
def stageBody (bodies : BodyStore) (source : Bytes) (expected : DigestText) (size : Nat)
    (nonce : Uuid) : Except Raised BodyStore := do
  let digest ← expected.storageRef.digest
  requireExpected hexdigest (.of source) expected size false
  require (bodies.insert ⟨.temporary digest nonce, source⟩) .osError

/-- What a copy that is cut short leaves. -/
def copyPart (bodies : BodyStore) (source : Bytes) (written : Nat) (expected : DigestText)
    (nonce : Uuid) : BodyStore :=
  match expected.storageRef.digest with
  | .ok digest => (bodies.insert ⟨.temporary digest nonce, source.take written⟩).getD bodies
  | .error _ => bodies

/-- Link the temporary file to the name of the body; a name that is taken must have it. -/
def linkBody (bodies : BodyStore) (source : Bytes) (expected : DigestText) (size : Nat) :
    Except Raised BodyStore := do
  let digest ← expected.storageRef.digest
  match bodies.insert ⟨.body digest, source⟩ with
  | some bodies => return bodies
  | none =>
    let existing ← require (← bodies.observe (.body digest)) <|
      fault .artifact "artifact CAS destination disappeared during publication"
    requireExpected hexdigest existing expected size true
    return bodies

/-- Remove the temporary file. -/
def unlinkTemporary (bodies : BodyStore) (expected : DigestText) (nonce : Uuid) : BodyStore :=
  match expected.storageRef.digest with
  | .ok digest => bodies.keep (·.name ≠ .temporary digest nonce)
  | .error _ => bodies

end BodyStore

/-! ## What the bodies keep -/

section

variable {bodies bodies' : BodyStore} {ref : StorageRef} {content source : Bytes}
  {expected : DigestText} {size : Nat} {nonce : Uuid} {digest : Digest Bytes}

theorem mem_iff_content : (⟨ref, content⟩ : StoredFile StorageRef) ∈ bodies ↔
    bodies.content? ref = some content := by
  have hfind : ∀ file, bodies.find (·.name = ref) = some file ↔
      file ∈ bodies ∧ file.name = ref := fun file => by
    rw [find_decide]
    simp +contextual [clash, key]
  rw [BodyStore.content?, Option.map_eq_some_iff]
  constructor
  · exact fun h => ⟨_, (hfind _).mpr ⟨h, rfl⟩, rfl⟩
  · rintro ⟨file, hfile, rfl⟩
    obtain ⟨hmem, rfl⟩ := (hfind file).mp hfile
    exact hmem

/-- Every body has the content its name says. -/
def BodiesHonest (bodies : BodyStore) : Prop :=
  ∀ digest content, bodies.content? (.body digest) = some content → content = digest.of

@[simp] theorem requireExpected_eq_ok {observed : BodyObservation} {collision : Bool} {u : Unit} :
    requireExpected hexdigest observed expected size collision = .ok u ↔
      .canonical observed.digest = expected ∧ observed.sizeBytes = size := by
  rw [requireExpected, refuseIf_eq_ok, not_not]

/-- What is expected of a source that is verified. -/
theorem stageBody_expected
    (h : bodies.stageBody hexdigest source expected size nonce = .ok bodies') :
    expected = .canonical ⟨source⟩ ∧ size = source.length := by
  simp only [BodyStore.stageBody, bind_eq_ok, requireExpected_eq_ok, BodyObservation.of] at h
  obtain ⟨-, -, _, ⟨hdigest, hsize⟩, -⟩ := h
  exact ⟨hdigest.symm, hsize.symm⟩

theorem content_insert {file : StoredFile StorageRef} (h : bodies.insert file = some bodies') :
    bodies'.content? ref = (bodies.content? ref).or
      (if file.name = ref then some file.content else none) := by
  rw [BodyStore.content?, find_insert h, BodyStore.content?]
  cases bodies.find (·.name = ref) with
  | none => by_cases hname : file.name = ref <;> simp [hname]
  | some found => simp

theorem content_keep {name : StorageRef} : (BodyStore.content? (bodies.keep (·.name ≠ name)) ref) =
    if ref = name then none else bodies.content? ref := by
  cases h : BodyStore.content? (bodies.keep (·.name ≠ name)) ref with
  | none =>
    by_cases hname : ref = name
    · rw [if_pos hname]
    · rw [if_neg hname]
      cases hold : bodies.content? ref with
      | none => rfl
      | some content =>
        have hmem : (⟨ref, content⟩ : StoredFile StorageRef) ∈ bodies.keep (·.name ≠ name) :=
          mem_keep.mpr ⟨mem_iff_content.mpr hold, by simpa using hname⟩
        rw [mem_iff_content.mp hmem] at h
        cases h
  | some content =>
    obtain ⟨hmem, hname⟩ := mem_keep.mp (mem_iff_content.mpr h)
    rw [if_neg (by simpa using hname), mem_iff_content.mp hmem]

/-- A temporary file is no body. -/
theorem stageBody_content
    (h : bodies.stageBody hexdigest source expected size nonce = .ok bodies') :
    bodies'.content? (.body digest) = bodies.content? (.body digest) := by
  simp only [BodyStore.stageBody, bind_eq_ok, require_eq_ok] at h
  obtain ⟨_, -, -, -, hinsert⟩ := h
  rw [content_insert hinsert, if_neg (by simp), Option.or_none]

theorem copyPart_content {written : Nat} :
    (bodies.copyPart source written expected nonce).content? (.body digest) =
      bodies.content? (.body digest) := by
  unfold BodyStore.copyPart
  split
  · rename_i named _
    cases hinsert : bodies.insert ⟨.temporary named nonce, source.take written⟩ with
    | none => rfl
    | some copied => rw [Option.getD_some, content_insert hinsert, if_neg (by simp), Option.or_none]
  · rfl

theorem unlinkTemporary_content : (bodies.unlinkTemporary expected nonce).content? (.body digest) =
      bodies.content? (.body digest) := by
  unfold BodyStore.unlinkTemporary
  split
  · rw [content_keep, if_neg (by simp)]
  · rfl

/-- No body is lost in a link. -/
theorem linkBody_keeps {content : Bytes}
    (h : bodies.linkBody hexdigest source expected size = .ok bodies')
    (hcontent : bodies.content? (.body digest) = some content) :
    bodies'.content? (.body digest) = some content := by
  simp only [BodyStore.linkBody, bind_eq_ok] at h
  obtain ⟨named, -, h⟩ := h
  cases hinsert : bodies.insert ⟨.body named, source⟩ with
  | some linked =>
    rw [hinsert] at h
    obtain rfl := pure_eq_ok.mp h
    rw [content_insert hinsert, hcontent, Option.some_or]
  | none =>
    rw [hinsert] at h
    simp only [bind_eq_ok, pure_eq_ok] at h
    obtain ⟨_, -, _, -, _, -, rfl⟩ := h
    exact hcontent

/-- **What is linked is there, and no other body changes.** -/
theorem linkBody_content
    (h : bodies.linkBody hexdigest source (.canonical ⟨source⟩) size = .ok bodies') :
    bodies'.content? (.body ⟨source⟩) = some source ∧ ∀ digest, digest ≠ ⟨source⟩ →
        bodies'.content? (.body digest) = bodies.content? (.body digest) := by
  simp only [BodyStore.linkBody, DigestText.storageRef, StorageRef.digest, ok_bind] at h
  cases hinsert : bodies.insert ⟨.body ⟨source⟩, source⟩ with
  | some linked =>
    rw [hinsert] at h
    obtain rfl := pure_eq_ok.mp h
    refine ⟨mem_iff_content.mp ((mem_of_insert hinsert).mpr (.inr rfl)), fun digest hne => ?_⟩
    rw [content_insert hinsert, if_neg (by simpa using hne.symm), Option.or_none]
  | none =>
    rw [hinsert] at h
    simp only [BodyStore.observe, StorageRef.digest, ok_bind, bind_eq_ok, require_eq_ok, pure_eq_ok,
      requireExpected_eq_ok] at h
    obtain ⟨_, rfl, existing, hexisting, _, ⟨hdigest, -⟩, rfl⟩ := h
    obtain ⟨content, hcontent, rfl⟩ := Option.map_eq_some_iff.mp hexisting
    simp only [BodyObservation.of, DigestText.canonical.injEq, Digest.mk.injEq] at hdigest
    exact ⟨hdigest ▸ hcontent, fun _ _ => rfl⟩

/-- Where no body changes, every body has the content its name says. -/
theorem BodiesHonest.of_content (hhonest : BodiesHonest bodies)
    (h : ∀ digest, bodies'.content? (.body digest) = bodies.content? (.body digest)) :
    BodiesHonest bodies' := fun digest content hcontent =>
  hhonest digest content ((h digest).symm.trans hcontent)

/-- A body is linked under its own name. -/
theorem BodiesHonest.linkBody (hhonest : BodiesHonest bodies)
    (h : bodies.linkBody hexdigest source (.canonical ⟨source⟩) size = .ok bodies') :
    BodiesHonest bodies' := by
  obtain ⟨hlinked, hothers⟩ := linkBody_content _ h
  intro digest content hcontent
  by_cases hdigest : digest = ⟨source⟩
  · rw [hdigest, hlinked] at hcontent
    rw [hdigest, ← Option.some.inj hcontent]
  · exact hhonest digest content ((hothers digest hdigest).symm.trans hcontent)

theorem delete_content (h : bodies.delete ref = .ok bodies') : ∃ digest, ref = .body digest ∧
    ∀ ref', bodies'.content? ref' = if ref' = .body digest then none else bodies.content? ref' := by
  simp only [BodyStore.delete, bind_eq_ok, pure_eq_ok] at h
  obtain ⟨digest, hdigest, rfl⟩ := h
  cases ref with
  | body d =>
    obtain rfl := Except.ok.inj hdigest
    exact ⟨d, rfl, fun ref' => content_keep⟩
  | temporary => cases hdigest
  | irregular => cases hdigest

/-! A source that is what is expected of it can be published, where bodies are honest. -/

theorem stageBody_ok (hfresh : bodies.content? (.temporary ⟨source⟩ nonce) = none) :
    ∃ bodies', bodies.stageBody hexdigest source (.canonical ⟨source⟩) source.length nonce =
      .ok bodies' := by
  have hfree : ∀ file ∈ bodies, ¬ clash (key file)
      (key (⟨.temporary ⟨source⟩ nonce, source⟩ : StoredFile StorageRef)) := by
    intro file hfile hclash
    have hname : file.name = .temporary ⟨source⟩ nonce := by
      simpa [clash, key] using hclash
    have hmem : (⟨.temporary ⟨source⟩ nonce, file.content⟩ : StoredFile StorageRef) ∈ bodies :=
      hname ▸ hfile
    rw [mem_iff_content.mp hmem] at hfresh
    cases hfresh
  obtain ⟨copied, hcopied⟩ := exists_insert hfree
  refine ⟨copied, ?_⟩
  simp only [BodyStore.stageBody, DigestText.storageRef, StorageRef.digest, ok_bind, bind_eq_ok,
    requireExpected_eq_ok, require_eq_ok]
  exact ⟨(), ⟨rfl, rfl⟩, hcopied⟩

theorem linkBody_ok (hhonest : BodiesHonest bodies) : ∃ bodies',
    bodies.linkBody hexdigest source (.canonical ⟨source⟩) source.length = .ok bodies' := by
  simp only [BodyStore.linkBody, DigestText.storageRef, StorageRef.digest, ok_bind]
  cases hinsert : bodies.insert ⟨.body ⟨source⟩, source⟩ with
  | some linked => exact ⟨linked, rfl⟩
  | none =>
    have hsome : bodies.content? (.body ⟨source⟩) = some source := by
      cases hcontent : bodies.content? (.body ⟨source⟩) with
      | some content => rw [hhonest _ _ hcontent]
      | none =>
        have hfree : ∀ file ∈ bodies, ¬ clash (key file)
            (key (⟨.body ⟨source⟩, source⟩ : StoredFile StorageRef)) := by
          intro file hfile hclash
          have hname : file.name = .body ⟨source⟩ := by simpa [clash, key] using hclash
          have hmem : (⟨.body ⟨source⟩, file.content⟩ : StoredFile StorageRef) ∈ bodies :=
            hname ▸ hfile
          rw [mem_iff_content.mp hmem] at hcontent
          cases hcontent
        obtain ⟨linked, hlinked⟩ := exists_insert hfree
        rw [hlinked] at hinsert
        cases hinsert
    refine ⟨bodies, ?_⟩
    simp only [BodyStore.observe, StorageRef.digest, ok_bind, hsome, bind_eq_ok, require_eq_ok,
      pure_eq_ok, requireExpected_eq_ok]
    exact ⟨_, rfl, _, rfl, (), ⟨rfl, rfl⟩, trivial⟩

end

end Mishkan.Artifacts

import Mishkan.Domain.Errors
import Mishkan.Foundations.Replace

/-!
# Execution/SecretFilter — the secrets of a session are taken out of its output

A reader thread feeds the chunks it reads to a filter and writes what the filter emits.  The filter
replaces the secrets one after another in what it holds back and the chunk, and holds back the
longest end of the result with which a secret could begin.

`Traced` follows which bytes of the output were inserted with a marker; it computes the same output
(`map_byte_tracedOutput`).  What is emitted and held back together never contains a secret of bytes
that were read, and whatever end of it a secret of such bytes could begin with is held back
(`Guarded`).
-/

namespace Mishkan.Execution

open List

/-- The bytes of a stream. -/
abbrev Bytes := List UInt8

/-- A text as it is written. -/
def encode (text : String) : Bytes := text.toUTF8.data.toList

/-- `b"[REDACTED]"` -/
def marker : Bytes := [91, 82, 69, 68, 65, 67, 84, 69, 68, 93]

/-! ## The filter -/

structure SecretFilter where
  secrets : List Bytes
  tail : Bytes := []
deriving DecidableEq

def SecretFilter.new (secrets : List String) : SecretFilter where
  secrets := (secrets.filter (· ≠ "")).map encode

/-- Replace the secrets, one after another. -/
def redact (secrets : List Bytes) (combined : Bytes) : Bytes :=
  secrets.foldl (fun combined secret => Replace.replace id secret marker combined) combined

/-- How much of a text is held back. -/
def keep (secrets : List Bytes) (combined : Bytes) : ℕ :=
  (secrets.flatMap fun secret => (List.range' 1 (secret.length - 1)).filter fun length =>
    secret.take length <:+ combined).foldr max 0

def SecretFilter.feed (filter : SecretFilter) (chunk : Bytes) (final : Bool := false) :
    Bytes × SecretFilter :=
  let combined := redact filter.secrets (filter.tail ++ chunk)
  if final then (combined, { filter with tail := [] })
  else
    let emitted := combined.length - keep filter.secrets combined
    (combined.take emitted, { filter with tail := combined.drop emitted })

/-- What the filter emits for the chunks of a stream and the final flush. -/
def SecretFilter.drain (filter : SecretFilter) : List Bytes → Bytes
  | [] => (filter.feed [] true).1
  | chunk :: chunks => (filter.feed chunk).1 ++ (filter.feed chunk).2.drain chunks

def output (secrets : List String) (chunks : List Bytes) : Bytes :=
  (SecretFilter.new secrets).drain chunks

example : output ["CANARY"] [encode "CAN", encode "ARY READY"] = encode "[REDACTED] READY" := by
  decide

/-! ## How much is held back -/

theorem le_foldr_max {l : List ℕ} {n : ℕ} (h : n ∈ l) : n ≤ l.foldr max 0 := by
  induction l with
  | nil => cases h
  | cons m l ih =>
    rw [foldr_cons]
    rcases mem_cons.mp h with rfl | h
    · exact Nat.le_max_left _ _
    · exact Nat.le_trans (ih h) (Nat.le_max_right _ _)

/-- An end of the text with which a secret could begin is held back. -/
theorem length_le_keep {secrets : List Bytes} {secret p combined : Bytes}
    (hsecret : secret ∈ secrets) (hp : p ≠ []) (hpre : p <+: secret) (hproper : p ≠ secret)
    (hsuffix : p <:+ combined) : p.length ≤ keep secrets combined := by
  refine le_foldr_max (mem_flatMap.mpr ⟨secret, hsecret, mem_filter.mpr ⟨?_, ?_⟩⟩)
  · have hpos := length_pos_iff.mpr hp
    have hlt : p.length < secret.length := Nat.lt_of_le_of_ne hpre.length_le fun h =>
      hproper (hpre.eq_of_length h)
    rw [mem_range'_1]
    omega
  · rw [decide_eq_true_eq, ← prefix_iff_eq_take.mp hpre]
    exact hsuffix

/-! ## Where the bytes come from -/

/-- A byte, and whether it was inserted with a marker. -/
structure Traced where
  byte : UInt8
  inserted : Bool
deriving DecidableEq

/-- Bytes that were read. -/
def ofStream (chunk : Bytes) : List Traced := chunk.map (⟨·, false⟩)

/-- The marker, inserted. -/
def insertedMarker : List Traced := marker.map (⟨·, true⟩)

def redactTraced (secrets : List Bytes) (combined : List Traced) : List Traced :=
  secrets.foldl (fun combined secret => Replace.replace Traced.byte secret insertedMarker combined)
    combined

/-- The filter, with the origin of the bytes it holds back. -/
def drainTraced (secrets : List Bytes) (tail : List Traced) : List Bytes → List Traced
  | [] => redactTraced secrets tail
  | chunk :: chunks =>
    let combined := redactTraced secrets (tail ++ ofStream chunk)
    let emitted := combined.length - keep secrets (combined.map Traced.byte)
    combined.take emitted ++ drainTraced secrets (combined.drop emitted) chunks

def tracedOutput (secrets : List String) (chunks : List Bytes) : List Traced :=
  drainTraced (SecretFilter.new secrets).secrets [] chunks

section Secrets

variable {secrets : List Bytes}

theorem map_byte_redactTraced (hne : ∀ s ∈ secrets, s ≠ []) (combined : List Traced) :
    (redactTraced secrets combined).map Traced.byte =
      redact secrets (combined.map Traced.byte) := by
  induction secrets generalizing combined with
  | nil => rfl
  | cons s secrets ih =>
    have hstep : (Replace.replace Traced.byte s insertedMarker combined).map Traced.byte =
        Replace.replace id s (insertedMarker.map Traced.byte) (combined.map Traced.byte) :=
      Replace.map_replace (hne s mem_cons_self) id Traced.byte (fun _ => rfl) combined
    refine (ih (fun t ht => hne t (mem_cons_of_mem s ht)) _).trans ?_
    rw [hstep]
    rfl

theorem map_byte_drainTraced (hne : ∀ s ∈ secrets, s ≠ []) (tail : List Traced)
    (chunks : List Bytes) : (drainTraced secrets tail chunks).map Traced.byte =
      SecretFilter.drain ⟨secrets, tail.map Traced.byte⟩ chunks := by
  induction chunks generalizing tail with
  | nil => simp [drainTraced, SecretFilter.drain, SecretFilter.feed, map_byte_redactTraced hne]
  | cons chunk chunks ih =>
    have hcombined : (redactTraced secrets (tail ++ ofStream chunk)).map Traced.byte =
        redact secrets (tail.map Traced.byte ++ chunk) := by
      rw [map_byte_redactTraced hne, map_append, ofStream, map_map]
      simp [Function.comp_def]
    have hlength := congrArg List.length hcombined
    rw [length_map] at hlength
    simp only [drainTraced, SecretFilter.drain, SecretFilter.feed, Bool.false_eq_true, if_false,
      map_append, ih, map_take, map_drop, hcombined, hlength]

end Secrets

/-! ## No secret passes -/

/-- A byte that was read. -/
def Traced.Read (t : Traced) : Prop := t.inserted = false

theorem not_read_of_insertedMarker : ∀ t ∈ insertedMarker, ¬ t.Read := by
  simp [insertedMarker, Traced.Read]

theorem insertedMarker_ne_nil : insertedMarker ≠ [] := by simp [insertedMarker, marker]

section Guard

variable {secrets : List Bytes} {m combined : List Traced}

/-- What is left of the text begins it. -/
theorem prefix_of_prefix_redactTraced (hne : ∀ s ∈ secrets, s ≠ []) (hm : ∀ t ∈ m, t.Read)
    (h : m <+: redactTraced secrets combined) : m <+: combined := by
  induction secrets generalizing combined with
  | nil => exact h
  | cons s secrets ih =>
    have hstep : m <+: Replace.replace Traced.byte s insertedMarker combined :=
      ih (fun t ht => hne t (mem_cons_of_mem s ht)) h
    exact Replace.prefix_of_prefix_replace (hne s mem_cons_self) insertedMarker_ne_nil
      not_read_of_insertedMarker hm hstep

/-- What is left of the text has no secret. -/
theorem infix_of_infix_redactTraced (hne : ∀ s ∈ secrets, s ≠ []) (hm : ∀ t ∈ m, t.Read)
    (h : m <:+: redactTraced secrets combined) :
    m <:+: combined ∧ ∀ s ∈ secrets, m.map Traced.byte ≠ s := by
  induction secrets generalizing combined with
  | nil => exact ⟨h, fun _ hs => nomatch hs⟩
  | cons s secrets ih =>
    obtain ⟨hsub, hothers⟩ := ih (fun t ht => hne t (mem_cons_of_mem s ht)) h
    obtain ⟨hin, hself⟩ := Replace.infix_of_infix_replace (hne s mem_cons_self)
      insertedMarker_ne_nil not_read_of_insertedMarker hm hsub
    exact ⟨hin, forall_mem_cons.mpr ⟨hself, hothers⟩⟩

theorem redactTraced_eq_self (hne : ∀ s ∈ secrets, s ≠ [])
    (hall : ∀ t ∈ redactTraced secrets combined, t.Read) :
    redactTraced secrets combined = combined := by
  induction secrets generalizing combined with
  | nil => rfl
  | cons s secrets ih =>
    have hrest := ih (fun t ht => hne t (mem_cons_of_mem s ht)) hall
    have hreplace : redactTraced (s :: secrets) combined =
        Replace.replace Traced.byte s insertedMarker combined := hrest
    rw [hreplace] at hall ⊢
    exact Replace.replace_eq_self (hne s mem_cons_self) insertedMarker_ne_nil
      not_read_of_insertedMarker hall

/-- What was emitted, and what is held back: no secret of bytes that were read is in them, and no
more than what is held back of their end could begin one. -/
structure Guarded (secrets : List Bytes) (emitted tail : List Traced) : Prop where
  clean : ∀ m, m <:+: emitted ++ tail → (∀ t ∈ m, t.Read) → ∀ s ∈ secrets, m.map Traced.byte ≠ s
  held : ∀ m, m <:+ emitted ++ tail → (∀ t ∈ m, t.Read) → ∀ s ∈ secrets,
    m.map Traced.byte <+: s → m.map Traced.byte ≠ s → m.length ≤ tail.length

theorem Guarded.nil (hne : ∀ s ∈ secrets, s ≠ []) : Guarded secrets [] [] where
  clean m hm _ s hs := by
    obtain rfl := infix_nil.mp hm
    exact (hne s hs).symm
  held m hm _ _ _ _ _ := by
    obtain rfl := suffix_nil.mp hm
    exact le_rfl

variable {emitted tail : List Traced}

/-- No beginning of a secret reaches from what was emitted to the end of what is held back. -/
theorem Guarded.seam (h : Guarded secrets emitted tail)
    {left : List Traced} (hsuffix : left <:+ emitted) (hread : ∀ t ∈ left ++ tail, t.Read)
    {s : Bytes} (hs : s ∈ secrets) (hbegins : (left ++ tail).map Traced.byte <+: s) :
    left = [] := by
  have hend : left ++ tail <:+ emitted ++ tail := by
    obtain ⟨front, rfl⟩ := hsuffix
    exact ⟨front, (append_assoc front left tail).symm⟩
  have hlength := h.held _ hend hread s hs hbegins (h.clean _ hend.isInfix hread s hs)
  rw [length_append] at hlength
  exact length_eq_zero_iff.mp (by omega)

/-- The next chunk brings no secret into what was emitted and what is redacted. -/
theorem Guarded.clean_next (hne : ∀ s ∈ secrets, s ≠ [])
    (h : Guarded secrets emitted tail) (chunk : Bytes) {m : List Traced}
    (hm : m <:+: emitted ++ redactTraced secrets (tail ++ ofStream chunk))
    (hread : ∀ t ∈ m, t.Read) {s : Bytes} (hs : s ∈ secrets) : m.map Traced.byte ≠ s := by
  rcases infix_append_iff.mp hm with hm | hm | ⟨left, right, rfl, hleft, hright⟩
  · exact h.clean m (hm.trans (prefix_append _ _).isInfix) hread s hs
  · exact (infix_of_infix_redactTraced hne hread hm).2 s hs
  · intro hsecret
    have hraw : right <+: tail ++ ofStream chunk :=
      prefix_of_prefix_redactTraced hne (fun t ht => hread t (mem_append_right _ ht)) hright
    rcases prefix_or_prefix_of_prefix hraw (prefix_append tail _) with hin | hout
    · -- the secret would have been in what was emitted and held back
      refine h.clean (left ++ right) ?_ hread s hs hsecret
      obtain ⟨front, rfl⟩ := hleft
      obtain ⟨rest, rfl⟩ := hin
      exact ⟨front, rest, by simp only [append_assoc]⟩
    · -- the secret would have begun in what was held back
      have hbegin : left ++ tail <+: left ++ right := (prefix_append_right_inj left).mpr hout
      obtain rfl := h.seam hleft (fun t ht => hread t (hbegin.subset ht)) hs
        (hsecret ▸ hbegin.map Traced.byte)
      exact (infix_of_infix_redactTraced hne hread hright.isInfix).2 s hs hsecret

/-- **A feed keeps the guard.** -/
theorem Guarded.feed (hne : ∀ s ∈ secrets, s ≠ []) {emitted tail combined : List Traced}
    (h : Guarded secrets emitted tail) (chunk : Bytes)
    (hcombined : redactTraced secrets (tail ++ ofStream chunk) = combined) : Guarded secrets
      (emitted ++ combined.take (combined.length - keep secrets (combined.map Traced.byte)))
      (combined.drop (combined.length - keep secrets (combined.map Traced.byte))) where
  clean m hm hread s hs := by
    rw [append_assoc, take_append_drop, ← hcombined] at hm
    exact h.clean_next hne chunk hm hread hs
  held m hm hread s hs hbegins hproper := by
    rw [append_assoc, take_append_drop] at hm
    have hheld : ∀ m : List Traced, m <:+ combined → m.map Traced.byte <+: s →
        m.map Traced.byte ≠ s → m.length ≤ (combined.drop
          (combined.length - keep secrets (combined.map Traced.byte))).length := by
      intro m hm hbegins hproper
      rw [length_drop]
      have hle := hm.length_le
      by_cases hnil : m = []
      · simp [hnil]
      · have hkeep := length_le_keep hs (by simpa using hnil) hbegins hproper
          (hm.map Traced.byte)
        rw [length_map] at hkeep
        omega
    obtain ⟨front, hfront⟩ := hm
    rcases append_eq_append_iff.mp hfront with ⟨left, hleft, rfl⟩ | ⟨rest, -, hm⟩
    · -- everything that is redacted was read, so nothing was replaced
      have hall : ∀ t ∈ combined, t.Read := fun t ht => hread t (mem_append_right _ ht)
      have hraw : combined = tail ++ ofStream chunk := by
        rw [← hcombined] at hall ⊢
        exact redactTraced_eq_self hne hall
      have hbegin : left ++ tail <+: left ++ combined := by
        rw [hraw]
        exact (prefix_append_right_inj left).mpr (prefix_append tail _)
      obtain rfl := h.seam ⟨front, hleft.symm⟩ (fun t ht => hread t (hbegin.subset ht)) hs
        ((hbegin.map Traced.byte).trans hbegins)
      exact hheld combined suffix_rfl hbegins hproper
    · exact hheld m ⟨rest, hm.symm⟩ hbegins hproper

/-- A guarded filter lets no secret of the rest of the stream pass. -/
theorem Guarded.drain (hne : ∀ s ∈ secrets, s ≠ [])
    (h : Guarded secrets emitted tail) (chunks : List Bytes) {m : List Traced}
    (hm : m <:+: emitted ++ drainTraced secrets tail chunks) (hread : ∀ t ∈ m, t.Read)
    {s : Bytes} (hs : s ∈ secrets) : m.map Traced.byte ≠ s := by
  induction chunks generalizing emitted tail with
  | nil =>
    refine h.clean_next hne [] ?_ hread hs
    rwa [ofStream, map_nil, append_nil]
  | cons chunk chunks ih =>
    refine ih (h.feed hne chunk rfl) ?_
    rwa [append_assoc]

end Guard

theorem encode_ne_nil {text : String} (h : text ≠ "") : encode text ≠ [] := by
  intro hnil
  have hdata : text.toByteArray.data = "".toByteArray.data :=
    Array.toList_inj.mp (hnil.trans (by decide))
  exact h (String.toByteArray_inj.mp (ByteArray.ext hdata))

theorem SecretFilter.mem_new {secrets : List String} {s : Bytes} :
    s ∈ (SecretFilter.new secrets).secrets ↔ ∃ text ∈ secrets, text ≠ "" ∧ encode text = s := by
  simp [SecretFilter.new, and_assoc]

theorem SecretFilter.new_ne_nil (secrets : List String) :
    ∀ s ∈ (SecretFilter.new secrets).secrets, s ≠ [] := by
  intro s hs
  obtain ⟨text, -, hne, rfl⟩ := mem_new.mp hs
  exact encode_ne_nil hne

/-- **No secret passes**: however the stream is divided into chunks, wherever the output has a
secret that is not empty, one of the bytes there was inserted with a marker. -/
theorem no_secret_passes (secrets : List String) (chunks : List Bytes) :
    (tracedOutput secrets chunks).map Traced.byte = output secrets chunks ∧
      ∀ piece, piece <:+: tracedOutput secrets chunks → ∀ secret ∈ secrets, secret ≠ "" →
        piece.map Traced.byte = encode secret → ∃ t ∈ piece, t.inserted = true := by
  have hne := SecretFilter.new_ne_nil secrets
  refine ⟨map_byte_drainTraced hne [] chunks, fun piece hpiece secret hsecret hnonempty heq => ?_⟩
  by_contra hnone
  have hread : ∀ t ∈ piece, t.Read := fun t ht => by
    simpa [Traced.Read] using fun h : t.inserted = true => hnone ⟨t, ht, h⟩
  rw [tracedOutput, ← nil_append (drainTraced _ _ _)] at hpiece
  exact (Guarded.nil hne).drain hne chunks hpiece hread
    (SecretFilter.mem_new.mpr ⟨secret, hsecret, hnonempty, rfl⟩) heq

end Mishkan.Execution

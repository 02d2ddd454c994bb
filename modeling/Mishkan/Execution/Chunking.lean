import Mishkan.Execution.SecretFilter

/-!
# Execution/Chunking — where the division of a stream shows in the filtered output

A cut between two reads is harmless when no secret lies across what is emitted and what is held back
(`Severable`), looked for in its turn in the text the secrets before it leave.  A stream all of
whose cuts are harmless is filtered as if it had been read at once (`output_eq_whole`).

The filter replaces eagerly: of `"abc"` and `"ab"`, read as `"ab"` and `"c"`, the shorter secret is
gone before the longer one is complete, and its remainder is emitted (`chunking_shows`).
-/

namespace Mishkan.Execution

open List

/-- What the filter emits for a stream it is fed at once. -/
def whole (secrets : List String) (stream : Bytes) : Bytes :=
  ((SecretFilter.new secrets).feed stream true).1

/-! ## Cuts -/

/-- Each secret, in its turn, is found on one side of the cut or the other. -/
def uncut : List Bytes → Bytes → Bytes → Bool
  | [], _, _ => true
  | s :: secrets, before, after =>
    Replace.clear id s after before ∧
      uncut secrets (Replace.replace id s marker before) (Replace.replace id s marker after)

/-- **A text whose cut goes through no secret is redacted in its two parts.** -/
theorem redact_append {secrets : List Bytes} (hne : ∀ s ∈ secrets, s ≠ []) {before after : Bytes}
    (h : uncut secrets before after = true) :
    redact secrets (before ++ after) = redact secrets before ++ redact secrets after := by
  induction secrets generalizing before after with
  | nil => rfl
  | cons s secrets ih =>
    obtain ⟨hclear, hrest⟩ := of_decide_eq_true h
    have hstep : redact (s :: secrets) (before ++ after) =
        redact secrets (Replace.replace id s marker (before ++ after)) := rfl
    rw [hstep, Replace.replace_append (hne s mem_cons_self) hclear,
      ih (fun t ht => hne t (mem_cons_of_mem s ht)) hrest]
    rfl

/-- The feed of a chunk may end where it does: what it holds back is the end of the text as it was
read, in which there is no secret, and no secret lies across the cut before it, neither in the text
so far nor in the text with the rest of the stream. -/
structure Severable (secrets : List Bytes) (text rest : Bytes) : Prop where
  raw : keep secrets (redact secrets text) ≤ text.length
  free : redact secrets (text.drop (text.length - keep secrets (redact secrets text))) =
    text.drop (text.length - keep secrets (redact secrets text))
  apart : uncut secrets (text.take (text.length - keep secrets (redact secrets text)))
    (text.drop (text.length - keep secrets (redact secrets text))) = true
  ahead : uncut secrets (text.take (text.length - keep secrets (redact secrets text)))
    (text.drop (text.length - keep secrets (redact secrets text)) ++ rest) = true

instance (secrets : List Bytes) (text rest : Bytes) : Decidable (Severable secrets text rest) :=
  decidable_of_iff (_ ∧ _ ∧ _ ∧ _)
    ⟨fun h => ⟨h.1, h.2.1, h.2.2.1, h.2.2.2⟩, fun h => ⟨h.raw, h.free, h.apart, h.ahead⟩⟩

/-- Every feed of a stream may end where it does. -/
def Severed (filter : SecretFilter) : List Bytes → Prop
  | [] => True
  | chunk :: chunks =>
    Severable filter.secrets (filter.tail ++ chunk) chunks.flatten ∧
      Severed (filter.feed chunk).2 chunks

instance decidableSevered : (filter : SecretFilter) → (chunks : List Bytes) →
    Decidable (Severed filter chunks)
  | _, [] => isTrue trivial
  | filter, chunk :: chunks =>
    have := decidableSevered (filter.feed chunk).2 chunks
    inferInstanceAs (Decidable (_ ∧ _))

/-- What a feed that may end where it does emits and holds back. -/
theorem feed_of_severable {filter : SecretFilter} (hne : ∀ s ∈ filter.secrets, s ≠ [])
    {chunk rest : Bytes} (h : Severable filter.secrets (filter.tail ++ chunk) rest) :
    ∃ before after, filter.tail ++ chunk = before ++ after ∧
      filter.feed chunk = (redact filter.secrets before, { filter with tail := after }) ∧
      uncut filter.secrets before (after ++ rest) = true := by
  obtain ⟨hraw, hfree, hapart, hahead⟩ := h
  generalize htext : filter.tail ++ chunk = text at hraw hfree hapart hahead
  generalize hkeep : keep filter.secrets (redact filter.secrets text) = n
    at hraw hfree hapart hahead
  refine ⟨text.take (text.length - n), text.drop (text.length - n),
    (take_append_drop _ _).symm, ?_, hahead⟩
  have hredact : redact filter.secrets text =
      redact filter.secrets (text.take (text.length - n)) ++ text.drop (text.length - n) := by
    have happend := redact_append hne hapart
    rwa [take_append_drop, hfree] at happend
  have hlength : (text.drop (text.length - n)).length = n := by
    rw [length_drop]
    omega
  simp only [SecretFilter.feed, htext, Bool.false_eq_true, if_false, hkeep]
  rw [hredact, length_append, hlength, Nat.add_sub_cancel, take_left, drop_left]

/-- A stream all of whose feeds may end where they do is filtered as a whole. -/
theorem drain_eq_redact {filter : SecretFilter} (hne : ∀ s ∈ filter.secrets, s ≠ [])
    {chunks : List Bytes} (h : Severed filter chunks) :
    filter.drain chunks = redact filter.secrets (filter.tail ++ chunks.flatten) := by
  induction chunks generalizing filter with
  | nil => rfl
  | cons chunk chunks ih =>
    obtain ⟨hcut, hrest⟩ := h
    obtain ⟨before, after, htext, hfeed, hahead⟩ := feed_of_severable hne hcut
    rw [SecretFilter.drain, flatten_cons, ← append_assoc, htext, append_assoc,
      redact_append hne hahead]
    rw [hfeed] at hrest ⊢
    rw [@ih { filter with tail := after } hne hrest]

/-- **The division of a stream does not show**, as long as no feed cuts through a secret: the output
is that of the stream fed at once. -/
theorem output_eq_whole (secrets : List String) (chunks : List Bytes)
    (h : Severed (SecretFilter.new secrets) chunks) :
    output secrets chunks = whole secrets chunks.flatten :=
  drain_eq_redact (SecretFilter.new_ne_nil secrets) h

/-- A secret that is read in two parts. -/
theorem output_eq_whole_of_straddle :
    output ["CANARY", "READY"] [encode "CAN", encode "ARY REA", encode "DER"] =
      whole ["CANARY", "READY"] (encode "CANARY READER") :=
  (output_eq_whole ["CANARY", "READY"] [encode "CAN", encode "ARY REA", encode "DER"]
    (by decide)).trans (congrArg _ (by decide))

/-- **The division of a stream can show**: the remainder of the longer secret is emitted. -/
theorem chunking_shows :
    output ["abc", "ab"] [encode "ab", encode "c"] = encode "[REDACTED]c" ∧
      output ["abc", "ab"] [encode "abc"] = encode "[REDACTED]" ∧
      whole ["abc", "ab"] (encode "abc") = encode "[REDACTED]" ∧
      ¬ ∀ (secrets : List String) (stream : Bytes) (chunks : List Bytes),
        chunks.flatten = stream → output secrets chunks = whole secrets stream := by
  refine ⟨by decide, by decide, by decide, fun h => ?_⟩
  exact absurd (h ["abc", "ab"] (encode "abc") [encode "ab", encode "c"] (by decide)) (by decide)

end Mishkan.Execution

import Mishkan.Execution.SecretFilter
import Mishkan.Execution.Sessions
import Mishkan.Foundations.Base64
import Mishkan.Foundations.Refusal
import Mishkan.Foundations.Utf8
import Mathlib.Data.List.Infix

/-!
# Execution/Cursor — reading the output of a session page by page

A read looks three times: at the state of the session, at the size of the spool, and at the bytes
it returns.  Between two looks the reader threads write on, and the state changes; no settlement
stops a reader thread that outlives it.

A client follows `nextOffset` to the end (`Paged`).  Its pages compose when nothing is written
after the session has ended, and, as text, when no page ends inside a character
(`text_eq_iff`).
-/

namespace Mishkan.Execution

open Refusal List

/-! ## Spools -/

inductive Channel where
  | stdout | stderr
deriving DecidableEq

/-- What a read of a session looks at. -/
structure Spools where
  state : SessionState := .starting
  stdout : Bytes := []
  stderr : Bytes := []
deriving DecidableEq

def Spools.content (s : Spools) : Channel → Bytes
  | .stdout => s.stdout
  | .stderr => s.stderr

inductive Change where
  /-- A reader thread appends to its spool. -/
  | write (channel : Channel) (chunk : Bytes)
  | update (state : SessionState)
deriving DecidableEq

def Spools.apply (s : Spools) : Change → Spools
  | .write .stdout chunk => { s with stdout := s.stdout ++ chunk }
  | .write .stderr chunk => { s with stderr := s.stderr ++ chunk }
  | .update state => { s with state := state }

abbrev History := List Change

/-- The spools after so many changes. -/
def History.at (history : History) (time : ℕ) : Spools :=
  (history.take time).foldl Spools.apply { }

/-- The content of a channel after so many changes. -/
def History.content (history : History) (channel : Channel) (time : ℕ) : Bytes :=
  (history.at time).content channel

/-- The content of a channel in the end. -/
def History.final (history : History) (channel : Channel) : Bytes :=
  history.content channel history.length

/-! ## Reads -/

/-- The states in which a read may report the end. -/
def SessionState.ends : SessionState → Bool
  | .settled | .failed | .lost | .uncertain => true
  | _ => false

/-- How much a read asks for, and after how many changes it looks at the state, at the size and at
the bytes. -/
structure Reading where
  limit : ℕ
  row : ℕ
  size : ℕ
  range : ℕ
  row_le_size : row ≤ size
  size_le_range : size ≤ range

inductive Encoding where
  | utf8 | base64
deriving DecidableEq

structure CursorRead where
  channel : Channel
  offset : ℕ
  nextOffset : ℕ
  encoding : Encoding
  data : String
  eof : Bool
deriving DecidableEq

/-- The data of a page; each page is decoded by itself. -/
def pageData (binary : Bool) (content : Bytes) : String :=
  String.ofList (if binary then Base64.encode content else Utf8.decode content)

/-- `SessionSupervisor.read`; an offset below zero, which is refused, is no `ℕ`. -/
def read (history : History) (channel : Channel) (binary : Bool) (offset : ℕ) (reading : Reading) :
    Except Raised CursorRead := do
  refuseIf (reading.limit < 1 ∨ 16777216 < reading.limit)
    (fault .outputContract "session cursor request is invalid")
  let state := (history.at reading.row).state
  let size := (history.content channel reading.size).length
  refuseIf (size < offset) (fault .revisionMismatch "session cursor is beyond the durable spool"
    [("cursor", .int offset), ("size", .int size)])
  let content := ((history.content channel reading.range).drop offset).take reading.limit
  return {
    channel, offset
    nextOffset := offset + content.length
    encoding := if binary then .base64 else .utf8
    data := pageData binary content
    eof := size ≤ offset + content.length ∧ state.ends = true }

/-- The pages a client gets that follows `nextOffset` from an offset until the end is reported. -/
inductive Paged (history : History) (channel : Channel) (binary : Bool) :
    ℕ → ℕ → List CursorRead → Prop where
  | eof {offset since : ℕ} {reading : Reading} {page : CursorRead} :
    since ≤ reading.row → read history channel binary offset reading = .ok page →
      page.eof = true → Paged history channel binary offset since [page]
  | more {offset since : ℕ} {reading : Reading} {page : CursorRead} {pages : List CursorRead} :
    since ≤ reading.row → read history channel binary offset reading = .ok page →
      page.eof = false →
        Paged history channel binary page.nextOffset reading.range pages →
          Paged history channel binary offset since (page :: pages)

/-- The data of pages is a content: its bytes, or its text. -/
def Yields (binary : Bool) (data : List String) (content : Bytes) : Prop :=
  if binary then
    (data.mapM fun text => Base64.decode text.toList).map List.flatten = some content
  else (data.map String.toList).flatten = Utf8.decode content

/-- After the end was reported, reads at the cursor return nothing. -/
def Ends (history : History) (channel : Channel) (binary : Bool) : Prop :=
  ∀ offset reading page, read history channel binary offset reading = .ok page →
    page.eof = true → ∀ later page', reading.range ≤ later.row →
      read history channel binary page.nextOffset later = .ok page' → page'.data = ""

/-- Reads compose, whatever the limits and whenever they look. -/
def Composes (history : History) (channel : Channel) (binary : Bool) : Prop :=
  (∀ pages, Paged history channel binary 0 0 pages →
    Yields binary (pages.map (·.data)) (history.final channel)) ∧ Ends history channel binary

/-- Nothing is written to the channel once the state of the session has ended. -/
def Quiet (history : History) (channel : Channel) : Prop :=
  ∀ time, (history.at time).state.ends = true →
    history.content channel time = history.final channel

/-- No two bytes belong to one character. -/
def Bytewise (content : Bytes) : Prop :=
  ∀ n, ¬ Utf8.Cut (content.take n) (content.drop n)

/-! ## Growth -/

variable {history : History} {channel : Channel} {binary : Bool}

theorem content_apply (s : Spools) (change : Change) :
    s.content channel <+: (s.apply change).content channel := by
  match change, channel with
  | .write .stdout chunk, .stdout | .write .stderr chunk, .stderr => exact prefix_append _ _
  | .write .stdout _, .stderr | .write .stderr _, .stdout | .update _, _ => exact prefix_rfl

theorem content_foldl (s : Spools) (changes : List Change) :
    s.content channel <+: (changes.foldl Spools.apply s).content channel := by
  induction changes generalizing s with
  | nil => exact prefix_rfl
  | cons change changes ih => exact (content_apply s change).trans (ih _)

/-- A spool only grows. -/
theorem content_mono {k l : ℕ} (h : k ≤ l) :
    history.content channel k <+: history.content channel l := by
  have htake : history.take k <+: history.take l := take_prefix_take_left h
  obtain ⟨rest, hrest⟩ := htake
  rw [History.content, History.content, History.at, History.at, ← hrest, foldl_append]
  exact content_foldl _ rest

theorem content_prefix_final (k : ℕ) :
    history.content channel k <+: history.final channel := by
  by_cases h : k ≤ history.length
  · exact content_mono h
  · have htake : history.take k = history.take history.length := by
      rw [take_length, take_of_length_le (Nat.le_of_not_ge h)]
    rw [History.final, History.content, History.content, History.at, History.at, htake]

/-- From when the session has ended, a quiet spool is complete. -/
theorem Quiet.content_eq (hquiet : Quiet history channel) {k l : ℕ} (h : k ≤ l)
    (hends : (history.at k).state.ends = true) :
    history.content channel l = history.final channel := by
  have hgrows : history.content channel k <+: history.content channel l := content_mono h
  have hle := hgrows.length_le
  rw [hquiet k hends] at hle
  exact (content_prefix_final l).eq_of_length_le hle

/-! ## Pages -/

/-- The bytes of a page. -/
def part (history : History) (channel : Channel) (offset : ℕ) (reading : Reading) : Bytes :=
  ((history.content channel reading.range).drop offset).take reading.limit

variable {offset since : ℕ} {reading : Reading} {page : CursorRead} {pages : List CursorRead}

/-- What is known of a page. -/
structure IsPage (history : History) (channel : Channel) (binary : Bool) (offset : ℕ)
    (reading : Reading) (page : CursorRead) : Prop where
  limit_pos : 0 < reading.limit
  offset_le : offset ≤ (history.content channel reading.size).length
  nextOffset : page.nextOffset = offset + (part history channel offset reading).length
  data : page.data = pageData binary (part history channel offset reading)
  eof : page.eof = true ↔ (history.content channel reading.size).length ≤ page.nextOffset ∧
    (history.at reading.row).state.ends = true

theorem isPage_of_read (h : read history channel binary offset reading = .ok page) :
    IsPage history channel binary offset reading page := by
  obtain ⟨_, hlimit, h⟩ := bind_eq_ok.mp h
  obtain ⟨_, hsize, h⟩ := bind_eq_ok.mp h
  obtain rfl := pure_eq_ok.mp h
  rw [refuseIf_eq_ok] at hlimit hsize
  exact ⟨by omega, Nat.le_of_not_gt hsize, rfl, rfl, by simp⟩

/-- The bytes of a page are those of the content from its offset. -/
theorem part_isPrefix :
    part history channel offset reading <+: (history.final channel).drop offset :=
  (List.take_prefix _ _).trans (List.IsPrefix.drop (content_prefix_final reading.range) offset)

theorem final_drop_eq :
    (history.final channel).drop offset = part history channel offset reading ++
      (history.final channel).drop (offset + (part history channel offset reading).length) := by
  have hprefix : part history channel offset reading <+: (history.final channel).drop offset :=
    part_isPrefix
  obtain ⟨rest, hrest⟩ := hprefix
  rw [← drop_drop, ← hrest, drop_left]

/-- The page that reports the end of a quiet spool has the rest of it. -/
theorem IsPage.part_of_eof (hpage : IsPage history channel binary offset reading page)
    (hquiet : Quiet history channel) (heof : page.eof = true) :
    part history channel offset reading = (history.final channel).drop offset ∧
      (history.final channel).length ≤ page.nextOffset := by
  obtain ⟨hsize, hends⟩ := hpage.eof.mp heof
  rw [hquiet.content_eq reading.row_le_size hends] at hsize
  refine ⟨part_isPrefix.eq_of_length_le ?_, hsize⟩
  rw [hpage.nextOffset] at hsize
  rw [length_drop]
  omega

/-- **Following the cursor of a quiet spool**: the pages have the parts of its content. -/
theorem Paged.parts (h : Paged history channel binary offset since pages)
    (hquiet : Quiet history channel) :
    ∃ parts : List Bytes, pages.map (·.data) = parts.map (pageData binary) ∧
      pages.map (·.nextOffset) = Utf8.ends offset parts ∧
      parts.flatten = (history.final channel).drop offset := by
  induction h with
  | @eof offset since reading page _ hread heof =>
    have hpage := isPage_of_read hread
    refine ⟨[part history channel offset reading], congrArg ([·]) hpage.data,
      congrArg ([·]) hpage.nextOffset, ?_⟩
    rw [flatten_singleton, (hpage.part_of_eof hquiet heof).1]
  | @more offset since reading page pages _ hread _ _ ih =>
    have hpage := isPage_of_read hread
    obtain ⟨parts, hdata, hends, hflatten⟩ := ih
    refine ⟨part history channel offset reading :: parts, ?_, ?_, ?_⟩
    · rw [map_cons, map_cons, hdata, hpage.data]
    · rw [map_cons, Utf8.ends, hends, hpage.nextOffset]
    · rw [flatten_cons, hflatten, hpage.nextOffset, ← final_drop_eq]

/-- The bytes of a quiet spool compose. -/
theorem Paged.yields_bytes (h : Paged history channel true 0 since pages)
    (hquiet : Quiet history channel) :
    Yields true (pages.map (·.data)) (history.final channel) := by
  obtain ⟨parts, hdata, -, hflatten⟩ := h.parts hquiet
  rw [drop_zero] at hflatten
  have hdecode : (parts.map (pageData true)).mapM (fun text => Base64.decode text.toList) =
      some parts := by
    rw [← Base64.mapM_decode_encode, mapM_map, mapM_map]
    simp [Function.comp_def, pageData]
  rw [Yields, if_pos rfl, hdata, hdecode, Option.map_some, hflatten]

/-- **Text composes exactly when no page ends inside a character.** -/
theorem Paged.text_eq_iff (h : Paged history channel false 0 since pages)
    (hquiet : Quiet history channel) :
    Yields false (pages.map (·.data)) (history.final channel) ↔ ∀ page ∈ pages, ¬ Utf8.Cut
      ((history.final channel).take page.nextOffset)
      ((history.final channel).drop page.nextOffset) := by
  obtain ⟨parts, hdata, hends, hflatten⟩ := h.parts hquiet
  rw [drop_zero] at hflatten
  have htext : ((parts.map (pageData false)).map String.toList).flatten =
      Utf8.decodeParts parts := by
    simp [Utf8.decodeParts, Function.comp_def, pageData]
  rw [Yields, if_neg Bool.false_ne_true, hdata, htext, ← hflatten, Utf8.decode_parts_iff,
    Utf8.seamless_iff, ← hends]
  exact forall_mem_map

/-! ## One byte at a time -/

/-- A read of one byte whose looks see the same spools. -/
def Reading.byte (time : ℕ) : Reading := ⟨1, time, time, time, le_rfl, le_rfl⟩

variable {time : ℕ}

theorem read_byte (h : offset ≤ (history.content channel time).length) :
    read history channel binary offset (.byte time) = .ok {
      channel, offset
      nextOffset := offset + (part history channel offset (.byte time)).length
      encoding := if binary then .base64 else .utf8
      data := pageData binary (part history channel offset (.byte time))
      eof := (history.content channel time).length ≤
        offset + (part history channel offset (.byte time)).length ∧
          (history.at time).state.ends = true } := by
  have hsize : ¬ (history.content channel (Reading.byte time).size).length < offset :=
    Nat.not_lt.mpr h
  rw [read, refuseIf_of_not (by simp [Reading.byte]), ok_bind]
  dsimp only
  rw [refuseIf_of_not hsize]
  rfl

theorem length_part_byte :
    (part history channel offset (.byte time)).length =
      min 1 ((history.content channel time).length - offset) := by
  rw [part, length_take, length_drop]
  rfl

/-- Once a session has ended, its spool can be read byte by byte. -/
theorem exists_paged (hends : (history.at time).state.ends = true)
    (hoffset : offset ≤ (history.content channel time).length) :
    ∃ pages, Paged history channel binary offset time pages ∧
      ∀ n, offset < n → n ≤ (history.content channel time).length →
        ∃ page ∈ pages, page.nextOffset = n := by
  obtain ⟨rest, hrest⟩ := Nat.exists_eq_add_of_le hoffset
  induction rest generalizing offset with
  | zero =>
    have hpart : (part history channel offset (.byte time)).length = 0 := by
      rw [length_part_byte]
      omega
    refine ⟨[_], .eof le_rfl (read_byte hoffset) ?_, fun n hn hle => by omega⟩
    simp [hends, hpart, hrest]
  | succ rest ih =>
    have hpart : (part history channel offset (.byte time)).length = 1 := by
      rw [length_part_byte]
      omega
    by_cases hlast : rest = 0
    · refine ⟨[_], .eof le_rfl (read_byte hoffset) ?_, fun n hn hle => ?_⟩
      · simp [hends, hpart, hrest, hlast]
      · refine ⟨_, mem_singleton_self _, ?_⟩
        dsimp only
        omega
    · obtain ⟨pages, hfollows, hpages⟩ := @ih (offset + 1) (by omega) (by omega)
      refine ⟨_ :: pages, .more le_rfl (read_byte hoffset) ?_ ?_, fun n hn hle => ?_⟩
      · simp [hpart]
        omega
      · dsimp only
        rw [hpart]
        exact hfollows
      · rcases Nat.lt_or_eq_of_le (Nat.succ_le_of_lt hn) with hlt | rfl
        · obtain ⟨page, hmem, hnext⟩ := hpages n hlt hle
          exact ⟨page, mem_cons_of_mem _ hmem, hnext⟩
        · refine ⟨_, mem_cons_self, ?_⟩
          dsimp only
          rw [hpart]

/-! ## Composition -/

theorem pageData_ne_empty {content : Bytes} (h : content ≠ []) : pageData binary content ≠ "" := by
  intro hempty
  have hlist : (pageData binary content).toList = [] := by rw [hempty]; rfl
  rw [pageData, String.toList_ofList] at hlist
  cases binary with
  | true => exact Base64.encode_ne_nil h hlist
  | false => exact Utf8.decode_ne_nil h hlist

/-- A quiet spool has nothing after its end. -/
theorem Quiet.ends (hquiet : Quiet history channel) : Ends history channel binary := by
  intro offset reading page hread heof later page' hlater hread'
  have hpage' := isPage_of_read hread'
  have hlength := ((isPage_of_read hread).part_of_eof hquiet heof).2
  have hpart : part history channel page.nextOffset later = [] := by
    have hprefix : part history channel page.nextOffset later <+:
        (history.final channel).drop page.nextOffset := part_isPrefix
    rw [drop_eq_nil_of_le hlength] at hprefix
    exact prefix_nil.mp hprefix
  rw [hpage'.data, hpart]
  cases binary <;> rfl

theorem content_of_length_le (h : history.length ≤ time) :
    history.content channel time = history.final channel :=
  (content_prefix_final time).eq_of_length_le (content_mono h).length_le

/-- A channel that is written to after the end goes on after the end. -/
theorem Ends.quiet (h : Ends history channel binary) : Quiet history channel := by
  intro time hends
  by_contra hne
  have hlt : (history.content channel time).length < (history.final channel).length := by
    by_contra hle
    exact hne ((content_prefix_final time).eq_of_length_le (Nat.le_of_not_lt hle))
  have hpart : (part history channel (history.content channel time).length
      (.byte time)).length = 0 := by
    rw [length_part_byte]
    omega
  have hfinal : history.content channel (max time history.length) = history.final channel :=
    content_of_length_le (Nat.le_max_right _ _)
  -- the end is reported at the size of then; the next byte is read in the end
  have hempty := h _ (.byte time) _ (read_byte le_rfl) (by simp [hpart, hends])
    (.byte (max time history.length)) _ (Nat.le_max_left _ _)
    (read_byte (by dsimp only; rw [hfinal, hpart]; omega))
  refine pageData_ne_empty (fun hnil => ?_) hempty
  have hlater := congrArg List.length hnil
  rw [length_part_byte, hfinal, length_nil] at hlater
  dsimp only at hlater
  omega

theorem Paged.exists_ends (h : Paged history channel binary offset since pages) :
    ∃ time, (history.at time).state.ends = true := by
  induction h with
  | eof _ hread heof => exact ⟨_, ((isPage_of_read hread).eof.mp heof).2⟩
  | more _ _ _ _ ih => exact ih

theorem Paged.since_le {since' : ℕ} (hle : since' ≤ since)
    (h : Paged history channel binary offset since pages) :
    Paged history channel binary offset since' pages := by
  cases h with
  | eof hsince hread heof => exact .eof (hle.trans hsince) hread heof
  | more hsince hread heof hrest => exact .more (hle.trans hsince) hread heof hrest

/-- Text that composes however it is read has no character of two bytes. -/
theorem Composes.bytewise (h : Composes history channel false)
    (hends : ∃ time, (history.at time).state.ends = true) : Bytewise (history.final channel) := by
  obtain ⟨hyields, hafter⟩ := h
  have hquiet := hafter.quiet
  obtain ⟨time, htime⟩ := hends
  obtain ⟨pages, hfollows, hpages⟩ :=
    @exists_paged history channel false 0 time htime (Nat.zero_le _)
  have hfollows := hfollows.since_le (Nat.zero_le _)
  rw [hquiet time htime] at hpages
  intro n hcut
  rcases Nat.eq_zero_or_pos n with rfl | hpos
  · exact hcut
  by_cases hle : n ≤ (history.final channel).length
  · obtain ⟨page, hmem, rfl⟩ := hpages n hpos hle
    exact (hfollows.text_eq_iff hquiet).mp (hyields pages hfollows) page hmem hcut
  · rw [drop_eq_nil_of_le (Nat.le_of_not_le hle)] at hcut
    exact Utf8.not_continues_nil hcut

/-- **Reads compose exactly when** nothing is written once the session has ended and, as text, no
character of a session that ends has two bytes. -/
theorem composes_iff (history : History) (channel : Channel) (binary : Bool) :
    Composes history channel binary ↔
      Quiet history channel ∧ (binary = false → (∃ time, (history.at time).state.ends = true) →
        Bytewise (history.final channel)) := by
  constructor
  · intro h
    refine ⟨h.2.quiet, ?_⟩
    rintro rfl
    exact h.bytewise
  · rintro ⟨hquiet, hbytewise⟩
    refine ⟨fun pages hfollows => ?_, hquiet.ends⟩
    cases binary with
    | true => exact hfollows.yields_bytes hquiet
    | false =>
      rw [hfollows.text_eq_iff hquiet]
      exact fun page _ => hbytewise rfl hfollows.exists_ends page.nextOffset

/-- A reader thread that outlives the settlement, and a character of two bytes. -/
theorem not_composes :
    ¬ Composes [.write .stdout [97], .update .settled, .write .stdout [98]] .stdout true ∧
      ¬ Composes [.write .stdout (encode "é"), .update .settled] .stdout false := by
  constructor
  · intro h
    exact absurd (h.2.quiet 2 rfl) (by decide)
  · intro h
    exact h.bytewise ⟨2, rfl⟩ 1 (by decide)

end Mishkan.Execution

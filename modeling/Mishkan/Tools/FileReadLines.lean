import Mishkan.Tools.FileReadPages

/-!
# Tools/FileReadLines — lines of a file, and the bytes they are said to be

Lines are written to bytes again before they are measured.  With a codec that has no mark these are
the bytes of the file; with marks each piece has one of its own, so that what is reported is two
bytes too long (`Setting.linesExact_iff`).
-/

namespace Mishkan.FileRead

open Refusal Utf16 Pages List

namespace Setting

variable {host : ByteOrder} (s : Setting host)

/-! ## What is asked and what is answered -/

/-- A call for lines of the file. -/
structure IsLineCall (arguments : ReadArguments) : Prop where
  mode : arguments.mode ∈ lineModes
  encoding : arguments.encoding = s.encoding
  binaryPolicy : arguments.binaryPolicy = s.binaryPolicy
  maxBytes : arguments.maxBytes = some (s.limit : ℤ)

def lines : List Text := Lines.splitLines s.text

/-- The lines a call asks for are there. -/
structure IsRequest (arguments : ReadArguments) (start stop : ℤ) : Prop where
  requested : requestedLines arguments s.lines.length = .ok (start, stop)
  positive : 1 ≤ start
  ordered : start ≤ stop
  inside : start ≤ s.lines.length

/-- The file is small enough to be scanned, and empty or has the lines. -/
def Answers (arguments : ReadArguments) : Prop :=
  s.bytes.length ≤ s.adapter.maxScanBytes ∧
    (s.lines = [] ∨ ∃ start stop, s.IsRequest arguments start stop)

/-- Where a line begins in the file, counted from none. -/
def lineOffset (n : ℕ) : ℕ :=
  (lead s.order s.encoding ++
    (s.lines.take n).flatten.flatMap (write s.order s.encoding)).length

/-- The content is what the bytes of the range are of. -/
structure IsContentOf (content : Text) (range : ℕ × ℕ) : Prop where
  ordered : range.1 ≤ range.2
  inside : range.2 ≤ s.bytes.length
  slice : (s.bytes.drop range.1).take (range.2 - range.1) =
      content.flatMap (write s.order s.encoding) ∨
    range.1 = 0 ∧ (s.bytes.drop range.1).take (range.2 - range.1) =
      lead s.order s.encoding ++ content.flatMap (write s.order s.encoding)

/-- The range goes from the first line that is asked for to the last there is of them, and where
the bound cuts it, to some place before its end. -/
structure IsRangeOf (arguments : ReadArguments) (output : ReadOutput) (start stop : ℤ) : Prop where
  request : s.IsRequest arguments start stop
  lineRange : output.lineRange = some (start.toNat, min stop.toNat s.lines.length)
  begins : output.byteRange.1 = s.lineOffset (start.toNat - 1)
  ends : output.byteRange.2 ≤ s.lineOffset stop.toNat
  whole : output.truncated = false → output.byteRange.2 = s.lineOffset stop.toNat

/-- What is answered is right. -/
structure Exact (arguments : ReadArguments) (output : ReadOutput) : Prop where
  content : s.IsContentOf output.content output.byteRange
  lines : s.lines = [] ∧ output.lineRange = none ∧ output.byteRange = (0, 0) ∨
    ∃ start stop, s.IsRangeOf arguments output start stop

/-- Calls for lines are answered when the lines are there, and every answer is right. -/
def LinesExact : Prop := ∀ arguments, s.IsLineCall arguments →
  (s.Answers arguments →
    ∃ output, invoke s.adapter host s.relative (.regular s.bytes) arguments = .ok output) ∧
  ∀ output, invoke s.adapter host s.relative (.regular s.bytes) arguments = .ok output →
    s.Exact arguments output

/-! ## What is read -/

variable {s} {arguments : ReadArguments} {start stop : ℤ} {part : Part} {output : ReadOutput}

/-- A part of the text is written behind a mark of its own. -/
theorem encode_of_subset {text : Text} (htext : ∀ c ∈ text, c ∈ s.text) :
    encode host s.encoding text =
      .ok (lead host s.encoding ++ text.flatMap (write host s.encoding)) := by
  cases hencoding : s.encoding with
  | utf8 => rw [encode, lead, nil_append, flatMap_write_utf8]
            exact fun h => Encoding.noConfusion h
  | latin1 =>
    have hall : (text.all fun c => c.toNat < 256) = true :=
      all_eq_true.mpr fun c hc => decide_eq_true (lt_of_latin1 hencoding c (htext c hc))
    rw [encode, if_pos hall]
    exact congrArg Except.ok (map_eq_flatMap ..)
  | utf16 => rfl
  | unknown name => exact absurd hencoding (encoding_known name)

variable {page : Text}

theorem reads_of_subset {next : Option Char} (hpage : ∀ c ∈ page, c ∈ s.text) :
    Reads host s.encoding (write host s.encoding) (lead host s.encoding) page next := by
  cases hencoding : s.encoding with
  | utf8 => exact reads_utf8
  | latin1 => exact reads_latin1 fun c hc => lt_of_latin1 hencoding c (hpage c hc)
  | utf16 => exact reads_utf16_marked
  | unknown name => exact absurd hencoding (encoding_known name)

variable (s) in
/-- The characters of the lines that are asked for. -/
def segment (start stop : ℤ) : Text :=
  ((s.lines.take stop.toNat).drop (start.toNat - 1)).flatten

variable (s) in
/-- How long the lines in front are, when they are written to bytes again. -/
def measured (start : ℤ) : ℕ :=
  (lead host s.encoding ++
    (s.lines.take (start.toNat - 1)).flatten.flatMap (write host s.encoding)).length

variable (s) in
/-- A page of the lines, written to bytes again. -/
def rewritten (page : Text) : List UInt8 :=
  lead host s.encoding ++ page.flatMap (write host s.encoding)

variable (s) in
/-- What is read of the lines that are asked for. -/
def partAt (start stop : ℤ) (page : Text) : Part where
  raw := s.rewritten page
  byteRange := (s.measured start, s.measured start + (s.rewritten page).length)
  lineRange := some (start.toNat, min stop.toNat s.lines.length)
  truncated := s.limit < (s.rewritten (s.segment start stop)).length

variable (s) in
/-- The bound cuts the lines that are asked for behind a page. -/
def CutAt (start stop : ℤ) (page : Text) : Prop := ∃ rest cut,
  IsCut (write host s.encoding) s.limit (s.limit - (lead host s.encoding).length)
    (s.segment start stop) page rest cut

theorem flatten_lines : s.lines.flatten = s.text := Lines.flatten_splitLines s.text

theorem mem_of_mem_segment {c : Char} (h : c ∈ s.segment start stop) : c ∈ s.text := by
  obtain ⟨line, hline, hc⟩ := mem_flatten.mp h
  rw [← flatten_lines]
  exact mem_flatten_of_mem (mem_of_mem_take (mem_of_mem_drop hline)) hc

theorem length_lead (order order' : ByteOrder) (encoding : Encoding) :
    (lead order encoding).length = (lead order' encoding).length := by
  cases encoding with
  | utf16 => exact length_unitBytes.trans length_unitBytes.symm
  | _ => rfl

theorem length_write (order order' : ByteOrder) (encoding : Encoding) (c : Char) :
    (write order encoding c).length = (write order' encoding c).length := by
  cases encoding with
  | utf16 => exact write_units_congr order order' c
  | _ => rfl

theorem exists_cutAt (start stop : ℤ) : ∃ page, s.CutAt start stop page := by
  obtain ⟨page, rest, cut, hcut⟩ := @exists_cut _ (write host s.encoding) s.limit
    (s.limit - (lead host s.encoding).length) (s.segment start stop) fun c hc =>
      (length_write host s.order s.encoding c).trans_le (s.limit_char c (mem_of_mem_segment hc))
  exact ⟨page, rest, cut, hcut⟩

theorem CutAt.exists_rest (h : s.CutAt start stop page) :
    ∃ rest, s.segment start stop = page ++ rest := by
  obtain ⟨rest, cut, hcut⟩ := h
  exact ⟨rest, hcut.eq⟩

theorem CutAt.subset (h : s.CutAt start stop page) : ∀ c ∈ page, c ∈ s.text := by
  obtain ⟨rest, hrest⟩ := h.exists_rest
  intro c hc
  have hsegment : c ∈ s.segment start stop := by
    rw [hrest]
    exact mem_append_left _ hc
  exact mem_of_mem_segment hsegment

variable {encoding : Encoding}

theorem lead_eq_nil (order : ByteOrder) (h : encoding ≠ .utf16) : lead order encoding = [] := by
  cases encoding with
  | utf16 => exact absurd rfl h
  | _ => rfl

/-- What the bound leaves begins with a mark, or with a character. -/
theorem rewritten_ne_nil {page rest : Text} {cut : List UInt8}
    (hcut : IsCut (write host s.encoding) s.limit (s.limit - (lead host s.encoding).length)
      (s.segment start stop) page rest cut) (hrest : rest ≠ []) : s.rewritten page ≠ [] := by
  by_cases h : s.encoding = .utf16
  · rw [rewritten, h]
    exact append_ne_nil_of_left_ne_nil (by cases host <;> exact cons_ne_nil _ _) _
  · have hsegment : s.segment start stop ≠ [] := by
      rw [hcut.eq]
      exact append_ne_nil_of_right_ne_nil _ hrest
    have hpage : page ≠ [] := hcut.page_ne_nil hsegment fun c hc => by
      rw [lead_eq_nil host h, length_nil, Nat.sub_zero]
      exact (length_write host s.order s.encoding c).trans_le
        (s.limit_char c (mem_of_mem_segment (mem_of_mem_head? hc)))
    obtain ⟨c, page, rfl⟩ := exists_cons_of_ne_nil hpage
    intro hnil
    rw [rewritten, flatMap_cons, append_eq_nil_iff, append_eq_nil_iff] at hnil
    exact write_ne_nil encoding_known c hnil.2.1

/-- **The bytes the bound leaves of the lines, trimmed, are a page of them.** -/
theorem trim_lines (h : s.CutAt start stop page) :
    trimIncompleteCharacter host ((s.rewritten (s.segment start stop)).take s.limit) s.encoding =
      s.rewritten page := by
  have hpage := h.subset
  obtain ⟨rest, cut, hcut⟩ := h
  have hlead : (lead host s.encoding).length ≤ s.limit :=
    (length_lead host s.order s.encoding).trans_le s.limit_mark
  rw [rewritten, take_append, take_of_length_le hlead, hcut.bytes, ← append_assoc]
  exact trim_of_reads (reads_of_subset hpage) hcut (rewritten_ne_nil hcut)

/-- **What is read of lines.** -/
theorem readLines_eq_ok_iff (hcall : s.IsLineCall arguments) :
    readLines s.adapter host s.bytes arguments s.limit = .ok part ↔
      s.bytes.length ≤ s.adapter.maxScanBytes ∧
        (s.lines = [] ∧ part = { raw := [], byteRange := (0, 0), truncated := false } ∨
          s.lines ≠ [] ∧ ∃ start stop, s.IsRequest arguments start stop ∧
            ∃ page, s.CutAt start stop page ∧ part = s.partAt start stop page) := by
  have hencode : ∀ {text : Text}, (∀ c ∈ text, c ∈ s.text) →
      encode host s.encoding text = .ok (s.rewritten text) := fun h => encode_of_subset h
  have hfront : ∀ {n : ℕ}, ∀ c ∈ (s.lines.take n).flatten, c ∈ s.text := by
    intro n c hc
    obtain ⟨line, hline, hc⟩ := mem_flatten.mp hc
    rw [← flatten_lines]
    exact mem_flatten_of_mem (mem_of_mem_take hline) hc
  rw [readLines, hcall.encoding, s.decodes]
  simp only [bind_eq_ok, refuseIf_eq_ok, mapError_eq_ok, Except.ok.injEq, exists_and_left,
    exists_eq_left', not_lt, exists_const]
  refine and_congr_right fun _ => ?_
  by_cases hlines : Lines.splitLines s.text = []
  · have hnone : s.lines = [] := hlines
    rw [if_pos hlines, pure_eq_ok]
    constructor
    · exact fun h => .inl ⟨hnone, h.symm⟩
    · rintro (⟨-, h⟩ | ⟨h, -⟩)
      · exact h.symm
      · exact absurd hnone h
  · have hsome : s.lines ≠ [] := hlines
    rw [if_neg hlines]
    simp only [bind_eq_ok, refuseIf_eq_ok, pure_eq_ok, Prod.exists, not_or, not_lt,
      exists_and_left, exists_const]
    constructor
    · rintro ⟨start, stop, hrequested, ⟨hpositive, hordered⟩, hinside, selected, hselected,
        before, hbefore, rfl⟩
      have hrequest : s.IsRequest arguments start stop :=
        ⟨hrequested, hpositive, hordered, hinside⟩
      obtain ⟨page, hcut⟩ := @exists_cutAt host s start stop
      refine .inr ⟨hsome, start, stop, hrequest, page, hcut, ?_⟩
      obtain rfl := Except.ok.inj ((hencode fun c hc => mem_of_mem_segment hc).symm.trans hselected)
      obtain rfl := Except.ok.inj ((hencode hfront).symm.trans hbefore)
      rw [trim_lines hcut]
      rfl
    · rintro (⟨h, -⟩ | ⟨-, start, stop, hrequest, page, hcut, rfl⟩)
      · exact absurd h hsome
      · have hselected : encode host s.encoding (s.segment start stop) =
            .ok (s.rewritten (s.segment start stop)) := hencode fun c hc => mem_of_mem_segment hc
        refine ⟨start, stop, hrequest.requested, ⟨hrequest.positive, hrequest.ordered⟩,
          hrequest.inside, _, hselected, _, hencode hfront, ?_⟩
        rw [trim_lines hcut]
        rfl

/-- The orders differ in no byte. -/
theorem mem_unitBytes (order order' : ByteOrder) {b : UInt8} {n : ℕ} :
    b ∈ unitBytes order n → b ∈ unitBytes order' n := by
  cases order <;> cases order' <;> simp only [unitBytes, mem_pair] <;> tauto

theorem mem_write (order order' : ByteOrder) {b : UInt8} {c : Char}
    (h : b ∈ write order encoding c) : b ∈ write order' encoding c := by
  cases encoding with
  | utf16 =>
    rw [write, encodeChar] at h ⊢
    split_ifs at h ⊢ with hsmall
    · exact mem_unitBytes order order' h
    · rw [mem_append] at h ⊢
      exact h.imp (mem_unitBytes order order') (mem_unitBytes order order')
  | _ => exact h

/-- Lines of a text without NUL bytes have none either. -/
theorem zero_not_mem_rewritten (hpage : ∀ c ∈ page, c ∈ s.text) :
    (0 : UInt8) ∉ s.rewritten page := by
  intro hzero
  rcases mem_append.mp hzero with hlead | hpageBytes
  · cases hencoding : s.encoding with
    | utf16 =>
      rw [hencoding] at hlead
      cases host <;> exact absurd hlead (by decide)
    | _ =>
      rw [lead_eq_nil host (by rw [hencoding]; exact fun h => Encoding.noConfusion h)] at hlead
      exact absurd hlead not_mem_nil
  · obtain ⟨c, hc, hbyte⟩ := mem_flatMap.mp hpageBytes
    refine s.noNul ?_
    rw [s.bytes_eq]
    exact mem_append_right _
      (mem_flatMap.mpr ⟨c, hpage c hc, mem_write host s.order hbyte⟩)

theorem decode_rewritten (hpage : ∀ c ∈ page, c ∈ s.text) :
    decode host s.encoding (s.rewritten page) = .ok page :=
  (@reads_of_subset host s page none hpage).whole

variable (s) in
/-- What is said of a page of the lines that are asked for. -/
def linesOutput (arguments : ReadArguments) (start stop : ℤ) (page : Text) : ReadOutput where
  mode := arguments.mode
  content := page
  contentFormat := "text"
  encoding := some s.encoding
  byteRange := (s.measured start, s.measured start + (s.rewritten page).length)
  lineRange := some (start.toNat, min stop.toNat s.lines.length)
  totalBytes := s.bytes.length
  truncated := s.limit < (s.rewritten (s.segment start stop)).length
  continuationOffset := none

variable (s) in
/-- What is said of a file without lines. -/
def emptyOutput (arguments : ReadArguments) : ReadOutput where
  mode := arguments.mode
  content := []
  contentFormat := "text"
  encoding := some s.encoding
  byteRange := (0, 0)
  lineRange := none
  totalBytes := s.bytes.length
  truncated := false
  continuationOffset := none

theorem decode_nil : decode host s.encoding [] = .ok [] := by
  cases hencoding : s.encoding with
  | utf8 => rfl
  | latin1 => rfl
  | utf16 => cases host <;> rfl
  | unknown name => exact absurd hencoding (encoding_known name)

/-- **What is answered to a call for lines.** -/
theorem invoke_eq_ok_iff (hcall : s.IsLineCall arguments) :
    invoke s.adapter host s.relative (.regular s.bytes) arguments = .ok output ↔
      s.bytes.length ≤ s.adapter.maxScanBytes ∧
        (s.lines = [] ∧ output = s.emptyOutput arguments ∨
          s.lines ≠ [] ∧ ∃ start stop, s.IsRequest arguments start stop ∧
            ∃ page, s.CutAt start stop page ∧
              output = s.linesOutput arguments start stop page) := by
  have hmode := hcall.mode
  have hnotBytes : arguments.mode ≠ "bytes" := by
    intro h
    rw [h] at hmode
    exact absurd hmode (by decide)
  have hrequested : arguments.maxBytes.getD s.adapter.maxBytes = (s.limit : ℤ) := by
    rw [hcall.maxBytes, Option.getD_some]
  have hbound : ∀ e : Raised, refuseIf ((s.limit : ℤ) < 1 ∨ (s.adapter.maxBytes : ℤ) < s.limit) e =
      .ok () := fun e => refuseIf_eq_ok.mpr (by
    have := s.limit_pos
    have := s.limit_le
    omega)
  rw [invoke, hrequested]
  simp only [hbound, ok_bind, Int.toNat_natCast]
  rw [if_pos hmode]
  simp only [bind_eq_ok, pure_eq_ok, readLines_eq_ok_iff hcall, Prod.exists, hcall.encoding]
  have hlast : ∀ (truncated : Bool) (n : ℕ),
      (if truncated = true ∧ arguments.mode ∉ lineModes then some n else none) = none :=
    fun truncated n => if_neg fun h => h.2 hmode
  have hcontent : ∀ {page : Text}, (∀ c ∈ page, c ∈ s.text) →
      encodeContent host (s.rewritten page) arguments.mode s.encoding arguments.binaryPolicy =
        .ok (page, "text", some s.encoding) := fun hpage =>
    (encodeContent_eq_ok_iff (zero_not_mem_rewritten hpage) hnotBytes).mpr
      ⟨_, decode_rewritten hpage, rfl⟩
  have hempty : encodeContent host [] arguments.mode s.encoding arguments.binaryPolicy =
      .ok ([], "text", some s.encoding) :=
    (encodeContent_eq_ok_iff not_mem_nil hnotBytes).mpr ⟨_, decode_nil, rfl⟩
  constructor
  · rintro ⟨part, ⟨hscan, hread⟩, text, format, encoding, hfound, rfl⟩
    refine ⟨hscan, ?_⟩
    rcases hread with ⟨hnone, rfl⟩ | ⟨hsome, start, stop, hrequest, page, hcut, rfl⟩
    · cases Except.ok.inj (hempty.symm.trans hfound)
      refine .inl ⟨hnone, ?_⟩
      rw [hlast]
      rfl
    · cases Except.ok.inj ((hcontent hcut.subset).symm.trans hfound)
      refine .inr ⟨hsome, start, stop, hrequest, _, hcut, ?_⟩
      rw [hlast]
      rfl
  · rintro ⟨hscan, ⟨hnone, rfl⟩ | ⟨hsome, start, stop, hrequest, page, hcut, rfl⟩⟩
    · refine ⟨_, ⟨hscan, .inl ⟨hnone, rfl⟩⟩, _, _, _, hempty, ?_⟩
      rw [hlast]
      rfl
    · refine ⟨_, ⟨hscan, .inr ⟨hsome, start, stop, hrequest, page, hcut, rfl⟩⟩, _, _, _,
        hcontent hcut.subset, ?_⟩
      rw [hlast]
      rfl

/-! ## Codecs without marks -/

theorem write_eq (order order' : ByteOrder) (h : encoding ≠ .utf16) :
    write order encoding = write order' encoding := by
  cases encoding with
  | utf16 => exact absurd rfl h
  | _ => rfl

/-- Lines without a mark are written to the bytes they are read from. -/
theorem rewritten_eq (h : s.encoding ≠ .utf16) (page : Text) :
    s.rewritten page = page.flatMap (write s.order s.encoding) := by
  rw [rewritten, lead_eq_nil host h, nil_append, write_eq host s.order h]

theorem measured_eq (h : s.encoding ≠ .utf16) :
    s.measured start = s.lineOffset (start.toNat - 1) := by
  rw [measured, lineOffset, lead_eq_nil host h, lead_eq_nil s.order h, write_eq host s.order h]

/-- The lines up to the last are those in front of the first, and those that are asked for. -/
theorem flatten_take_stop (h : start ≤ stop) : (s.lines.take stop.toNat).flatten =
    (s.lines.take (start.toNat - 1)).flatten ++ s.segment start stop := by
  have hmin : min (start.toNat - 1) stop.toNat = start.toNat - 1 := by omega
  have hsplit := (take_append_drop (start.toNat - 1) (s.lines.take stop.toNat)).symm
  rw [take_take, hmin] at hsplit
  exact (congrArg List.flatten hsplit).trans flatten_append

/-- Where the lines that are asked for end. -/
theorem lineOffset_stop (h : s.encoding ≠ .utf16) (hordered : start ≤ stop) :
    s.lineOffset stop.toNat =
      s.measured start + ((s.segment start stop).flatMap (write s.order s.encoding)).length := by
  rw [measured_eq h, lineOffset, lineOffset, flatten_take_stop hordered, flatMap_append,
    ← append_assoc, length_append]

/-- A bound that is not reached leaves the lines whole. -/
theorem CutAt.eq_segment (hcut : s.CutAt start stop page)
    (hfits : (s.rewritten (s.segment start stop)).length ≤ s.limit) :
    page = s.segment start stop := by
  obtain ⟨rest, cut, hcut⟩ := hcut
  have hrest : rest = [] := hcut.rest_eq_nil (by
    rw [rewritten, length_append] at hfits
    omega)
  rw [hcut.eq, hrest, append_nil]

/-- **Without marks, the content is what the bytes of the range are of.** -/
theorem exact_linesOutput (h : s.encoding ≠ .utf16) (hrequest : s.IsRequest arguments start stop)
    (hcut : s.CutAt start stop page) :
    s.Exact arguments (s.linesOutput arguments start stop page) := by
  obtain ⟨rest, hrest⟩ := hcut.exists_rest
  have hmeasured : s.measured start = ((s.lines.take (start.toNat - 1)).flatten.flatMap
      (write s.order s.encoding)).length := by
    rw [measured_eq h, lineOffset, lead_eq_nil s.order h, nil_append]
  have hbytes : s.bytes =
      (s.lines.take (start.toNat - 1)).flatten.flatMap (write s.order s.encoding) ++
        (s.rewritten page ++ (rest ++ (s.lines.drop stop.toNat).flatten).flatMap
          (write s.order s.encoding)) := by
    rw [s.bytes_eq, lead_eq_nil s.order h, nil_append, rewritten_eq h, ← flatMap_append,
      ← flatMap_append, ← append_assoc page, ← hrest, ← append_assoc,
      ← flatten_take_stop hrequest.ordered, ← flatten_append, take_append_drop,
      flatten_lines]
  have hstop := @lineOffset_stop host s start stop h hrequest.ordered
  have hto : (s.linesOutput arguments start stop page).byteRange.2 =
    s.measured start + (s.rewritten page).length := rfl
  constructor
  · refine ⟨Nat.le_add_right _ _, ?_, .inl ?_⟩
    · rw [hto, hmeasured, hbytes, length_append, length_append]
      omega
    · rw [linesOutput, hmeasured, hbytes, drop_left, Nat.add_sub_cancel_left, take_left,
        rewritten_eq h]
  · refine .inr ⟨start, stop, hrequest, rfl, measured_eq h, ?_, fun hwhole => ?_⟩
    · rw [hto, hstop, hrest, flatMap_append, length_append, rewritten_eq h]
      omega
    · have hpage := hcut.eq_segment (Nat.not_lt.mp (of_decide_eq_false hwhole))
      rw [hto, hstop, rewritten_eq h, hpage]

theorem exact_emptyOutput (hnone : s.lines = []) : s.Exact arguments (s.emptyOutput arguments) where
  content := ⟨le_rfl, Nat.zero_le _, .inl rfl⟩
  lines := .inl ⟨hnone, rfl, rfl⟩

/-- A call is answered when its lines are there. -/
theorem answered (hcall : s.IsLineCall arguments) (hanswers : s.Answers arguments) :
    ∃ output, invoke s.adapter host s.relative (.regular s.bytes) arguments = .ok output := by
  obtain ⟨hscan, hlines⟩ := hanswers
  by_cases hnone : s.lines = []
  · exact ⟨_, (invoke_eq_ok_iff hcall).mpr ⟨hscan, .inl ⟨hnone, rfl⟩⟩⟩
  · obtain ⟨start, stop, hrequest⟩ := hlines.resolve_left hnone
    obtain ⟨page, hcut⟩ := @exists_cutAt host s start stop
    exact ⟨_, (invoke_eq_ok_iff hcall).mpr
      ⟨hscan, .inr ⟨hnone, start, stop, hrequest, page, hcut, rfl⟩⟩⟩

/-- **Without marks, every answer is right.** -/
theorem linesExact_of_ne_utf16 (h : s.encoding ≠ .utf16) : s.LinesExact := by
  intro arguments hcall
  refine ⟨answered hcall, fun output hok => ?_⟩
  obtain ⟨-, ⟨hnone, rfl⟩ | ⟨-, start, stop, hrequest, page, hcut, rfl⟩⟩ :=
    (invoke_eq_ok_iff hcall).mp hok
  · exact exact_emptyOutput hnone
  · exact exact_linesOutput h hrequest hcut

/-! ## Text in code units -/

/-- The call for the first line. -/
def firstLine (s : Setting host) : ReadArguments where
  mode := "head"
  encoding := s.encoding
  binaryPolicy := s.binaryPolicy
  maxBytes := some s.limit
  lineCount := 1

/-- Lines with a mark of their own are no bytes of the file. -/
theorem not_isContentOf (h : s.encoding = .utf16) (page : Text) :
    ¬ s.IsContentOf page (s.measured start, s.measured start + (s.rewritten page).length) := by
  intro hcontent
  have hinside := hcontent.inside
  have hlength : (s.rewritten page).length =
      2 + (page.flatMap (write s.order s.encoding)).length := by
    rw [rewritten, h, lead, length_append, mark, length_unitBytes]
    exact congrArg (2 + ·) (length_encode s.order)
  rcases hcontent.slice with hslice | ⟨hzero, -⟩
  · have hbytes := congrArg List.length hslice
    rw [length_take, length_drop, Nat.add_sub_cancel_left] at hbytes
    simp only at hinside hbytes
    omega
  · simp only at hzero
    rw [measured, h, lead, length_append, mark, length_unitBytes] at hzero
    omega

/-- **With marks, answers are right exactly when there is none, or no line.** -/
theorem linesExact_iff_of_utf16 (h : s.encoding = .utf16) :
    s.LinesExact ↔ s.text = [] ∨ s.adapter.maxScanBytes < s.bytes.length := by
  constructor
  · intro hexact
    by_contra hneither
    rw [not_or, not_lt] at hneither
    obtain ⟨htext, hscan⟩ := hneither
    have hlines : s.lines ≠ [] := Lines.splitLines_eq_nil.not.mpr htext
    have hcall : s.IsLineCall s.firstLine :=
      ⟨mem_cons_of_mem _ mem_cons_self, rfl, rfl, rfl⟩
    have hlength : 1 ≤ s.lines.length := length_pos_iff.mpr hlines
    have hrequested : requestedLines s.firstLine s.lines.length = .ok (1, 1) := by
      have hhead : requestedLines s.firstLine s.lines.length =
        .ok (1, min 1 (s.lines.length : ℤ)) := rfl
      rw [hhead, min_eq_left (by omega)]
    have hrequest : s.IsRequest s.firstLine 1 1 := ⟨hrequested, le_rfl, le_rfl, by omega⟩
    obtain ⟨page, hcut⟩ := @exists_cutAt host s 1 1
    have hok := (invoke_eq_ok_iff hcall).mpr
      ⟨hscan, .inr ⟨hlines, 1, 1, hrequest, page, hcut, rfl⟩⟩
    exact not_isContentOf h page ((hexact _ hcall).2 _ hok).content
  · intro hnone arguments hcall
    refine ⟨answered hcall, fun output hok => ?_⟩
    obtain ⟨hscan, ⟨hempty, rfl⟩ | ⟨hlines, -⟩⟩ := (invoke_eq_ok_iff hcall).mp hok
    · exact exact_emptyOutput hempty
    · have htext : s.text ≠ [] := Lines.splitLines_eq_nil.not.mp hlines
      exact absurd hscan (Nat.not_le.mpr (hnone.resolve_left htext))

theorem linesExact_iff : s.LinesExact ↔
    (s.encoding = .utf16 → s.text = [] ∨ s.adapter.maxScanBytes < s.bytes.length) := by
  by_cases h : s.encoding = .utf16
  · rw [linesExact_iff_of_utf16 h]
    exact ⟨fun hnone _ => hnone, fun hnone => hnone h⟩
  · exact iff_of_true (linesExact_of_ne_utf16 h) fun h' => absurd h' h

/-- A text of no character is one page. -/
theorem standAlone_of_text_eq_nil (h : s.text = []) : s.StandAlone := by
  have hnone : s.laterPages = [] := by
    rw [laterPages, h]
    rfl
  constructor
  · rw [hnone]
    rfl
  · intro later hlater
    rw [hnone] at hlater
    exact absurd hlater not_mem_nil

/-- **Pages compose and lines are exact for every file without marks; with a mark, when there is
no text, or when no line may be read and the later pages stand alone.** -/
theorem paged_reads_compose_iff : s.Composes ∧ s.LinesExact ↔
    (s.encoding = .utf16 → s.text = [] ∨
      s.adapter.maxScanBytes < s.bytes.length ∧ s.StandAlone) := by
  rw [pages_compose_iff, linesExact_iff]
  constructor
  · rintro ⟨halone, hlines⟩ h
    exact (hlines h).imp_right fun hscan => ⟨hscan, halone h⟩
  · intro hall
    constructor
    · intro h
      rcases hall h with htext | ⟨-, halone⟩
      · exact standAlone_of_text_eq_nil htext
      · exact halone
    · exact fun h => (hall h).imp_right And.left

/-- Two lines, written with a mark in the order that is not the machine's. -/
def bigEndianFile : Setting .little where
  adapter := ⟨4096, 4096⟩
  relative := "notes.txt"
  encoding := .utf16
  binaryPolicy := "reject"
  bytes := [0xFE, 0xFF, 0x4E, 0x01, 0x20, 0x28, 0x4E, 0x02]
  text := ['丁', '\u2028', '丂']
  order := .big
  limit := 4
  decodes := rfl
  marked := fun _ => ⟨[0x4E, 0x01, 0x20, 0x28, 0x4E, 0x02], rfl⟩
  noNul := by decide
  limit_pos := by decide
  limit_le := by decide
  limit_mark := by decide
  limit_char := forall_mem_cons.mpr ⟨by decide,
    forall_mem_cons.mpr ⟨by decide, forall_mem_singleton.mpr (by decide)⟩⟩

/-- Its second page is read as other characters, and its first line is said to be bytes of the
second. -/
theorem bigEndianFile_misread : ¬ bigEndianFile.Composes ∧ ¬ bigEndianFile.LinesExact := by
  constructor
  · rintro ⟨contents, hfollows, htext⟩
    have hfirst : bigEndianFile.page 0 = .ok (bigEndianFile.outputAt 0 ['丁']) := rfl
    have hsecond : bigEndianFile.page 4 = .ok (bigEndianFile.outputAt 4 ['⠠', 'Ɏ']) := rfl
    cases hfollows with
    | last hpage hend =>
      obtain rfl := Except.ok.inj (hpage.symm.trans hfirst)
      exact absurd hend (by decide)
    | next hpage hnext hrest =>
      obtain rfl := Except.ok.inj (hpage.symm.trans hfirst)
      have hfour : (bigEndianFile.outputAt 0 ['丁']).continuationOffset = some 4 := rfl
      obtain rfl := Option.some.inj (hnext.symm.trans hfour)
      cases hrest with
      | last hpage hend =>
        obtain rfl := Except.ok.inj (hpage.symm.trans hsecond)
        exact absurd htext (by decide)
      | next hpage hnext hrest =>
        obtain rfl := Except.ok.inj (hpage.symm.trans hsecond)
        have hnone : (bigEndianFile.outputAt 4 ['⠠', 'Ɏ']).continuationOffset = none := rfl
        cases hnone.symm.trans hnext
  · intro hexact
    have hok : invoke bigEndianFile.adapter .little bigEndianFile.relative
        (.regular bigEndianFile.bytes) bigEndianFile.firstLine = .ok {
          mode := "head", content := ['丁'], contentFormat := "text", encoding := some .utf16,
          byteRange := (2, 6), lineRange := some (1, 1), totalBytes := 8, truncated := true,
          continuationOffset := none } := rfl
    have hcontent := ((hexact _ ⟨mem_cons_of_mem _ mem_cons_self, rfl, rfl, rfl⟩).2 _
      hok).content
    rcases hcontent.slice with hslice | ⟨hzero, -⟩
    · exact absurd hslice (by decide)
    · exact absurd hzero (by decide)

end Setting

end Mishkan.FileRead

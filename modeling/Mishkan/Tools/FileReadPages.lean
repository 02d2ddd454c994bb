import Mishkan.Foundations.Pages
import Mishkan.Tools.FileRead

/-!
# Tools/FileReadPages — a text file read page after page

Each page is decoded on its own.  UTF-8 and Latin-1 keep nothing from one page to the next, so the
pages are the text.  Text in code units has its mark on the first page only: the pages are the text
exactly when the others read the same in the order of the machine and none of them begins with what
would be taken for a mark (`Setting.pages_compose_iff`).
-/

namespace Mishkan.FileRead

open Refusal Utf16 Pages List FileRead

/-! ## Pieces of text in a codec -/

/-- The bytes of a character, code units in an order. -/
def write (order : ByteOrder) : Encoding → Char → List UInt8
  | .utf8, c => String.utf8EncodeChar c
  | .latin1, c => [UInt8.ofNat c.toNat]
  | .utf16, c => encodeChar order c
  | .unknown _, _ => []

/-- What stands in front of a text. -/
def lead (order : ByteOrder) : Encoding → List UInt8
  | .utf16 => mark order
  | _ => []

/-- A piece of text is decoded, and where it ends inside the character `next`, only that character
is at fault. -/
structure Reads (host : ByteOrder) (encoding : Encoding) (write : Char → List UInt8)
    (front : List UInt8) (page : Text) (next : Option Char) : Prop where
  whole : decode host encoding (front ++ page.flatMap write) = .ok page
  cut : ∀ c ∈ next, ∀ part, part <+: write c → part ≠ [] → part ≠ write c →
    decode host encoding (front ++ page.flatMap write ++ part) =
      .error (.unicode (front ++ page.flatMap write).length
        (front ++ page.flatMap write ++ part).length)

section Codecs

variable {host order : ByteOrder} {page : Text} {next : Option Char}

theorem flatMap_write_utf8 (text : Text) :
    text.flatMap (write order .utf8) = Lines.encode text := by
  induction text with
  | nil => rfl
  | cons c text ih =>
    rw [flatMap_cons, ih, write, ← Lines.encode_singleton, ← Lines.encode_append,
      singleton_append]

theorem reads_utf8 : Reads host .utf8 (write order .utf8) [] page next where
  whole := by
    rw [nil_append, flatMap_write_utf8, decode, Utf8.decodeStrict_eq_ok_iff.mpr rfl]
    rfl
  cut c _ part hpart hne hcut := by
    rw [nil_append, flatMap_write_utf8, decode,
      Utf8.decodeStrict_truncated hpart hne hcut]
    rfl

theorem reads_latin1 (h : ∀ c ∈ page, c.toNat < 256) :
    Reads host .latin1 (write order .latin1) [] page next where
  whole := by
    rw [nil_append, decode]
    refine congrArg Except.ok ?_
    induction page with
    | nil => rfl
    | cons c page ih =>
      rw [flatMap_cons, write, singleton_append, map_cons,
        ih fun d hd => h d (mem_cons_of_mem _ hd), Utf8.toNat_ofNat (h c mem_cons_self),
        Char.ofNat_toNat]
  cut c _ part hpart hne hcut := by
    cases part with
    | nil => exact absurd rfl hne
    | cons b part =>
      obtain ⟨rfl, htail⟩ := cons_prefix_cons.mp hpart
      exact absurd (congrArg (_ :: ·) (prefix_nil.mp htail)) hcut

/-- Behind its mark, text in code units is read in their order. -/
theorem reads_utf16_marked : Reads host .utf16 (write order .utf16) (mark order) page next where
  whole := by
    rw [decode, decode_mark]
    exact congrArg (Except.mapError _) (decodeFrom_encode 2)
  cut c _ part hpart hne hcut := by
    have hfault := @decodeFrom_encode_append order page part 2
    rw [decodeFrom_truncated _ hpart hne hcut] at hfault
    rw [decode, append_assoc, decode_mark]
    refine (congrArg (Except.mapError _) hfault).trans ?_
    have hfront : (mark order ++ page.flatMap (write order .utf16)).length =
        2 + (Utf16.encode order page).length := by
      rw [length_append, mark, length_unitBytes]
      rfl
    have htotal : (mark order ++ page.flatMap (write order .utf16) ++ part).length =
        2 + (Utf16.encode order page).length + part.length := by
      rw [length_append, hfront]
    rw [← append_assoc, htotal, hfront]
    rfl

/-- What would be taken for a mark. -/
def looksMarked (c : Char) : Bool := c = '\uFEFF' ∨ c = '\uFFFE'

theorem looksMarked_iff {c : Char} {rest : List UInt8} :
    looksMarked c = true ↔ ∃ order, mark order <+: encodeChar host c ++ rest := by
  constructor
  · intro h
    rcases of_decide_eq_true h with rfl | rfl
    · exact ⟨host, prefix_append _ _⟩
    · cases host
      · exact ⟨.big, prefix_append _ _⟩
      · exact ⟨.little, prefix_append _ _⟩
  · rintro ⟨order, hmark⟩
    obtain ⟨n, tail, hbytes, hn, hchar⟩ : ∃ n tail, encodeChar host c = unitBytes host n ++ tail ∧
        n < 65536 ∧ (n = 65279 ∨ n = 65534 → n = c.toNat) := by
      have hc := char_cases c
      rw [encodeChar]
      split_ifs with hsmall
      · exact ⟨_, [], (append_nil _).symm, hsmall, fun _ => rfl⟩
      · exact ⟨_, _, rfl, by omega, by omega⟩
    obtain ⟨a, b, hunit, hvalue⟩ : ∃ a b, unitBytes host n = [a, b] ∧ unitOf host a b = n :=
      exists_unitBytes hn
    rw [hbytes, hunit] at hmark
    have hn : n = 65279 ∨ n = 65534 := by
      rw [← hvalue]
      cases order
      · obtain ⟨rfl, htail⟩ := cons_prefix_cons.mp hmark
        obtain ⟨rfl, -⟩ := cons_prefix_cons.mp htail
        cases host <;> decide
      · obtain ⟨rfl, htail⟩ := cons_prefix_cons.mp hmark
        obtain ⟨rfl, -⟩ := cons_prefix_cons.mp htail
        cases host <;> decide
    have hc : c = Char.ofNat n := by rw [hchar hn, Char.ofNat_toNat]
    rcases hn with rfl | rfl
    · rw [hc]
      decide
    · rw [hc]
      decide

/-- Without a mark, text in code units is read in the order of the machine. -/
theorem reads_utf16_unmarked (hpage : page = [] → next = none)
    (h : ∀ c ∈ page.head?, looksMarked c = false) :
    Reads host .utf16 (write host .utf16) [] page next := by
  have hunmarked : ∀ part : List UInt8, (page = [] → part = []) →
      ∀ order, ¬ mark order <+: page.flatMap (write host .utf16) ++ part := by
    intro part hpart order hmark
    cases page with
    | nil =>
      rw [hpart rfl] at hmark
      exact absurd (prefix_nil.mp hmark) (by cases order <;> exact cons_ne_nil _ _)
    | cons c page =>
      rw [flatMap_cons, append_assoc] at hmark
      exact absurd (looksMarked_iff.mpr ⟨order, hmark⟩) (by rw [h c rfl]; decide)
  constructor
  · have hnone := hunmarked [] fun _ => rfl
    rw [append_nil] at hnone
    rw [nil_append, decode, decode_unmarked hnone]
    exact congrArg (Except.mapError _) (decodeFrom_encode 0)
  · intro c hc part hpart hne hcut
    have hnone := hunmarked part fun hnil => by
      rw [hpage hnil] at hc
      cases hc
    have hfault := @decodeFrom_encode_append host page part 0
    rw [decodeFrom_truncated _ hpart hne hcut] at hfault
    rw [nil_append, decode, decode_unmarked hnone]
    refine (congrArg (Except.mapError _) hfault).trans ?_
    rw [Except.map, Except.mapError, length_append, Nat.zero_add]
    rfl

end Codecs

/-! ## One page -/

section Page

variable {host : ByteOrder} {encoding : Encoding} {write : Char → List UInt8}
  {front part : List UInt8} {page rest text : Text} {limit room : ℕ}

/-- **The trimmed page is its whole characters.** -/
theorem trim_of_reads (hreads : Reads host encoding write front page rest.head?)
    (hcut : IsCut write limit room text page rest part)
    (hne : rest ≠ [] → front ++ page.flatMap write ≠ []) :
    trimIncompleteCharacter host (front ++ page.flatMap write ++ part) encoding =
      front ++ page.flatMap write := by
  rw [trimIncompleteCharacter]
  by_cases hpart : part = []
  · rw [hpart, append_nil, hreads.whole]
  · cases hrest : rest with
    | nil => exact absurd (hcut.whole hrest) hpart
    | cons c tail =>
      obtain ⟨hleads, hproper⟩ := hcut.cut c tail hrest
      rw [hreads.cut c (by rw [hrest]; rfl) part hleads hpart hproper]
      simp only
      rw [if_pos ⟨trivial, length_pos_iff.mpr (hne (by simp [hrest]))⟩, take_left]

end Page

/-- What is said of text without NUL bytes. -/
theorem encodeContent_eq_ok_iff {host : ByteOrder} {raw : List UInt8} {mode policy : String}
    {encoding : Encoding} {found : Text × String × Option Encoding} (hnul : (0 : UInt8) ∉ raw)
    (hmode : mode ≠ "bytes") : encodeContent host raw mode encoding policy = .ok found ↔
      ∃ text, decode host encoding raw = .ok text ∧ found = (text, "text", some encoding) := by
  rw [encodeContent, if_neg (not_or.mpr ⟨hmode, fun h => hnul h.1⟩), if_neg hnul]
  cases decode host encoding raw with
  | ok text => simp [eq_comm]
  | error => simp

/-! ## A file and a bound -/

/-- A text file, and how it is to be read: the bound is what the adapter allows, and holds each
character, the mark included. -/
structure Setting (host : ByteOrder) where
  adapter : FileReadAdapter
  relative : String
  encoding : Encoding
  binaryPolicy : String
  bytes : List UInt8
  text : Text
  order : ByteOrder
  limit : ℕ
  decodes : decode host encoding bytes = .ok text
  marked : encoding = .utf16 → mark order <+: bytes
  noNul : (0 : UInt8) ∉ bytes
  limit_pos : 1 ≤ limit
  limit_le : limit ≤ adapter.maxBytes
  limit_mark : (lead order encoding).length ≤ limit
  limit_char : ∀ c ∈ text, (write order encoding c).length ≤ limit

namespace Setting

variable {host : ByteOrder} (s : Setting host)

/-- **A text file is the bytes of its characters**, behind a mark or none. -/
theorem bytes_eq :
    s.bytes = lead s.order s.encoding ++ s.text.flatMap (write s.order s.encoding) := by
  have hdecodes := s.decodes
  cases hencoding : s.encoding with
  | utf8 =>
    rw [hencoding, decode, mapError_eq_ok, Utf8.decodeStrict_eq_ok_iff] at hdecodes
    rw [flatMap_write_utf8, lead, nil_append, hdecodes]
    exact fun h => Encoding.noConfusion h
  | latin1 =>
    rw [hencoding, decode] at hdecodes
    rw [lead, nil_append, ← Except.ok.inj hdecodes]
    · induction s.bytes with
      | nil => rfl
      | cons b bytes ih =>
        have hb : (Char.ofNat b.toNat).toNat = b.toNat :=
          toNat_ofNat (.inl (b.toNat_lt.trans (by decide)))
        rw [map_cons, flatMap_cons, ← ih, write, singleton_append, hb,
          UInt8.ofNat_toNat]
    · exact fun h => Encoding.noConfusion h
  | utf16 =>
    rw [hencoding, decode, mapError_eq_ok] at hdecodes
    obtain ⟨bytes, hbytes⟩ := s.marked hencoding
    rw [← hbytes, decode_mark, decodeFrom_eq_ok_iff] at hdecodes
    rw [← hbytes, hdecodes]
    rfl
  | unknown name =>
    rw [hencoding, decode] at hdecodes
    cases hdecodes

/-- The call for the page at an offset. -/
def pageArguments (offset : ℕ) : ReadArguments where
  mode := "text"
  encoding := s.encoding
  binaryPolicy := s.binaryPolicy
  maxBytes := some s.limit
  offset := offset

def page (offset : ℕ) : Except Raised ReadOutput :=
  invoke s.adapter host s.relative (.regular s.bytes) (s.pageArguments offset)

/-- The contents that are read from an offset on, up to a page that names no other. -/
inductive Follows : ℕ → List Text → Prop
  | last {offset : ℕ} {output : ReadOutput} (h : s.page offset = .ok output)
    (hend : output.continuationOffset = none) : Follows offset [output.content]
  | next {offset k : ℕ} {output : ReadOutput} {contents : List Text}
    (h : s.page offset = .ok output) (hnext : output.continuationOffset = some k)
    (hrest : Follows k contents) : Follows offset (output.content :: contents)

/-- The bytes of a page, before they are decoded. -/
def rawAt (offset : ℕ) : List UInt8 :=
  trimIncompleteCharacter host ((s.bytes.drop offset).take s.limit) s.encoding

/-- What is said of a page with that content. -/
def outputAt (offset : ℕ) (content : Text) : ReadOutput where
  mode := "text"
  content := content
  contentFormat := "text"
  encoding := some s.encoding
  byteRange := (offset, offset + (s.rawAt offset).length)
  lineRange := none
  totalBytes := s.bytes.length
  truncated := offset + (s.rawAt offset).length < s.bytes.length
  continuationOffset := if offset + (s.rawAt offset).length < s.bytes.length then
    some (offset + (s.rawAt offset).length) else none

variable {s} {code : Char → List UInt8} {offset : ℕ} {output : ReadOutput}
  {front part : List UInt8} {text page rest : Text}

theorem trim_leads (raw : List UInt8) (encoding : Encoding) :
    trimIncompleteCharacter host raw encoding <+: raw := by
  rw [trimIncompleteCharacter]
  split
  · split_ifs
    · exact take_prefix _ _
    · exact prefix_rfl
  · exact prefix_rfl

theorem rawAt_leads : s.rawAt offset <+: s.bytes.drop offset :=
  (trim_leads _ _).trans (List.take_prefix _ _)

theorem zero_not_mem_rawAt : (0 : UInt8) ∉ s.rawAt offset := fun h =>
  s.noNul (mem_of_mem_drop (rawAt_leads.subset h))

theorem bind_pure_eq_map {α : Type} (x : Except Raised Unit) (a : α) :
    (x >>= fun _ => pure a) = x.map fun _ => a := by
  cases x <;> rfl

/-- **What a page is**, whenever it is read. -/
theorem page_eq_ok_iff (hoffset : offset ≤ s.bytes.length) : s.page offset = .ok output ↔
    ((s.bytes.drop offset).take s.limit ≠ [] → s.rawAt offset ≠ []) ∧
      decode host s.encoding (s.rawAt offset) = .ok output.content ∧
      output = s.outputAt offset output.content := by
  have hlimit : ¬ ((s.limit : ℤ) < 1 ∨ (s.adapter.maxBytes : ℤ) < s.limit) := by
    have := s.limit_pos
    have := s.limit_le
    omega
  have hread : readBytes host s.bytes (s.pageArguments offset) s.limit =
      (refuseIf ((s.bytes.drop offset).take s.limit ≠ [] ∧ s.rawAt offset = []) (fault .file
        "read bound is too small for one encoded character"
        [("category", .str "size_limit"), ("limit", .int s.limit)])).map fun _ =>
          { raw := s.rawAt offset, byteRange := (offset, offset + (s.rawAt offset).length),
            truncated := offset + (s.rawAt offset).length < s.bytes.length } := by
    have hmode : (s.pageArguments offset).mode = "text" := rfl
    have hstart : (s.pageArguments offset).offset = offset := rfl
    have hlength : ((s.pageArguments offset).length.map (min (s.limit : ℤ))).getD s.limit =
        s.limit := rfl
    have hencoding : (s.pageArguments offset).encoding = s.encoding := rfl
    have hknown : ∀ e : Raised, refuseIf ("text" ∉ ["bytes", "text", "range"]) e = .ok () :=
      fun e => refuseIf_eq_ok.mpr (by decide)
    have hnatural : ∀ e : Raised, refuseIf ((offset : ℤ) < 0) e = .ok () :=
      fun e => refuseIf_eq_ok.mpr (by omega)
    have hinside : ∀ e : Raised, refuseIf (s.bytes.length < offset) e = .ok () :=
      fun e => refuseIf_eq_ok.mpr (Nat.not_lt.mpr hoffset)
    have hsome : ∀ e : Raised, refuseIf ((s.limit : ℤ) < 1) e = .ok () :=
      fun e => refuseIf_eq_ok.mpr (by have := s.limit_pos; omega)
    rw [readBytes, hmode, hstart, hlength, hencoding]
    simp only [Int.toNat_natCast, hknown, hnatural, hinside, hsome, ok_bind]
    rw [if_pos (by decide)]
    exact bind_pure_eq_map _ _
  have hbound : ∀ e : Raised, refuseIf ((s.limit : ℤ) < 1 ∨ (s.adapter.maxBytes : ℤ) < s.limit) e =
      .ok () := fun e => refuseIf_eq_ok.mpr hlimit
  have hrequested : (s.pageArguments offset).maxBytes.getD s.adapter.maxBytes = (s.limit : ℤ) := rfl
  have hmode : (s.pageArguments offset).mode = "text" := rfl
  have hencoding : (s.pageArguments offset).encoding = s.encoding := rfl
  have hpolicy : (s.pageArguments offset).binaryPolicy = s.binaryPolicy := rfl
  rw [page, invoke, hrequested, hmode, hencoding, hpolicy]
  simp only [hbound, ok_bind, Int.toNat_natCast, hread]
  rw [if_neg (by decide)]
  simp only [bind_eq_ok, map_eq_ok, refuseIf_eq_ok, pure_eq_ok]
  have hnext : ∀ n, (if decide (n < s.bytes.length) = true ∧ "text" ∉ lineModes then some n
      else none) = if n < s.bytes.length then some n else none := by
    intro n
    have htext : "text" ∉ lineModes := by decide
    simp [htext]
  constructor
  · rintro ⟨part, ⟨_, hsmall, rfl⟩, found, hfound, rfl⟩
    obtain ⟨text, hdecode, rfl⟩ :=
      (encodeContent_eq_ok_iff zero_not_mem_rawAt (by decide)).mp hfound
    exact ⟨fun hne hraw => hsmall ⟨hne, hraw⟩, hdecode, by rw [hnext, outputAt]⟩
  · rintro ⟨hsmall, hdecode, houtput⟩
    refine ⟨_, ⟨(), fun h => hsmall h.1 h.2, rfl⟩, _,
      (encodeContent_eq_ok_iff zero_not_mem_rawAt (by decide)).mpr ⟨_, hdecode, rfl⟩, ?_⟩
    rw [houtput, hnext]
    rfl

/-- **A page that reads is a page of the text**, and the next one is where it ends. -/
theorem page_of_reads (hoffset : offset ≤ s.bytes.length)
    (hdrop : s.bytes.drop offset = front ++ text.flatMap code) (hfront : front.length ≤ s.limit)
    (hcut : IsCut code s.limit (s.limit - front.length) text page rest part)
    (hreads : Reads host s.encoding code front page rest.head?)
    (hne : rest ≠ [] → front ++ page.flatMap code ≠ []) :
    s.rawAt offset = front ++ page.flatMap code ∧
      s.page offset = .ok (s.outputAt offset page) := by
  have hbounded : (s.bytes.drop offset).take s.limit = front ++ page.flatMap code ++ part := by
    rw [hdrop, take_append, take_of_length_le hfront, hcut.bytes, append_assoc]
  have hraw : s.rawAt offset = front ++ page.flatMap code := by
    rw [rawAt, hbounded, trim_of_reads hreads hcut hne]
  refine ⟨hraw, (page_eq_ok_iff hoffset).mpr ⟨fun hsome hnone => hsome ?_, ?_, rfl⟩⟩
  · rw [hraw] at hnone
    have hrest : rest = [] := by
      by_contra hrest
      exact hne hrest hnone
    rw [hbounded, hnone, hcut.whole hrest]
    rfl
  · rw [hraw, hreads.whole]
    rfl

theorem drop_next (hdrop : s.bytes.drop offset = front ++ text.flatMap code)
    (hcut : text = page ++ rest) (hraw : s.rawAt offset = front ++ page.flatMap code) :
    s.bytes.drop (offset + (s.rawAt offset).length) = rest.flatMap code := by
  rw [← drop_drop, hdrop, hraw, hcut, flatMap_append, ← append_assoc,
    drop_left]

theorem next_le : offset ≤ s.bytes.length →
    offset + (s.rawAt offset).length ≤ s.bytes.length := by
  intro hoffset
  have hlength := (@rawAt_leads host s offset).length_le
  rw [length_drop] at hlength
  omega

/-- **The pages that follow are those of the text**, when each reads on its own. -/
theorem follows_pages (hfits : ∀ c ∈ text, (code c).length ≤ s.limit)
    (hpos : ∀ c ∈ text, code c ≠ []) (hoffset : offset ≤ s.bytes.length)
    (hdrop : s.bytes.drop offset = text.flatMap code)
    (hreads : ∀ page ∈ pagesFrom code s.limit s.limit text, ∀ next,
      (page = [] → next = none) → Reads host s.encoding code [] page next) :
    s.Follows offset (pagesFrom code s.limit s.limit text) := by
  induction h : s.bytes.length - offset using Nat.strong_induction_on generalizing offset text with
  | h n ih =>
    subst h
    obtain ⟨page, rest, part, hcut⟩ := @exists_cut _ code s.limit s.limit text hfits
    have hpage : rest ≠ [] → page ≠ [] := by
      intro hrest
      have htext : text ≠ [] := by
        rw [hcut.eq]
        exact append_ne_nil_of_right_ne_nil _ hrest
      exact hcut.page_ne_nil htext fun a ha => hfits a (mem_of_mem_head? ha)
    have hread : Reads host s.encoding code [] page rest.head? := by
      refine hreads page (by rw [hcut.pages]; exact mem_cons_self) _ fun hnil => ?_
      by_contra hhead
      exact hpage (fun hrest => hhead (by rw [hrest]; rfl)) hnil
    have hbytes : page ≠ [] → page.flatMap code ≠ [] := by
      intro hne hnil
      obtain ⟨c, page, rfl⟩ := exists_cons_of_ne_nil hne
      exact hpos c (by rw [hcut.eq]; simp) (append_eq_nil_iff.mp hnil).1
    have hdrop : s.bytes.drop offset = [] ++ text.flatMap code := hdrop
    obtain ⟨hraw, hok⟩ := page_of_reads hoffset hdrop (Nat.zero_le _) hcut hread
      fun hrest => hbytes (hpage hrest)
    have hnext := drop_next hdrop hcut.eq hraw
    rw [nil_append] at hraw
    rw [hcut.pages]
    cases hrest : rest with
    | nil =>
      have hend : ¬ offset + (s.rawAt offset).length < s.bytes.length := by
        rw [hrest, flatMap_nil, drop_eq_nil_iff] at hnext
        exact Nat.not_lt.mpr hnext
      rw [isEmpty_nil, if_pos rfl]
      exact .last hok (if_neg hend)
    | cons c tail =>
      have hmore : offset + (s.rawAt offset).length < s.bytes.length := by
        by_contra hend
        rw [drop_of_length_le (Nat.not_lt.mp hend), hrest] at hnext
        exact hpos c (by rw [hcut.eq, hrest]; simp) (append_eq_nil_iff.mp hnext.symm).1
      have hraw_pos : 0 < (s.rawAt offset).length := by
        rw [hraw]
        exact length_pos_iff.mpr (hbytes (hpage (by simp [hrest])))
      rw [isEmpty_cons, if_neg (by decide), ← hrest]
      refine .next hok (if_pos hmore) (ih _ (by omega) ?_ ?_ hmore.le hnext ?_ rfl)
      · exact fun d hd => hfits d (by rw [hcut.eq]; exact mem_append_right _ hd)
      · exact fun d hd => hpos d (by rw [hcut.eq]; exact mem_append_right _ hd)
      · refine fun later hlater => hreads later ?_
        rw [hcut.pages, hrest, isEmpty_cons, if_neg (by decide), ← hrest]
        exact mem_cons_of_mem _ hlater

/-! ## Text as a whole -/

variable (s) in
/-- Following the continuations from the start ends, and yields the text. -/
def Composes : Prop := ∃ contents, s.Follows 0 contents ∧ contents.flatten = s.text

variable (s) in
/-- The pages behind the first. -/
def laterPages : List Text :=
  (pagesFrom (write s.order s.encoding) s.limit
    (s.limit - (lead s.order s.encoding).length) s.text).tail

variable (s) in
/-- The pages behind the first read the same in the order of the machine, and none of them begins
with what would be taken for a mark. -/
structure StandAlone : Prop where
  order : Utf16.encode s.order s.laterPages.flatten = Utf16.encode host s.laterPages.flatten
  unmarked : ∀ page ∈ s.laterPages, ∀ c ∈ page.head?, looksMarked c = false

theorem write_ne_nil {order : ByteOrder} {encoding : Encoding}
    (h : ∀ name, encoding ≠ .unknown name) (c : Char) : write order encoding c ≠ [] := by
  cases encoding with
  | utf8 =>
    obtain ⟨b, tail, hbytes, -⟩ := Utf8.encodeChar_cases c
    rw [write, hbytes]
    exact cons_ne_nil _ _
  | latin1 => exact cons_ne_nil _ _
  | utf16 =>
    intro hnil
    have hlength := @length_encodeChar order c
    rw [show encodeChar order c = [] from hnil] at hlength
    exact absurd width_pos (by rw [← hlength]; decide)
  | unknown name => exact absurd rfl (h name)

theorem encoding_known (name : String) : s.encoding ≠ .unknown name := by
  intro h
  have hdecodes := s.decodes
  rw [h, decode] at hdecodes
  cases hdecodes

/-- The characters of the file are those its codec has. -/
theorem lt_of_latin1 (h : s.encoding = .latin1) : ∀ c ∈ s.text, c.toNat < 256 := by
  have hdecodes := s.decodes
  rw [h, decode] at hdecodes
  rw [← Except.ok.inj hdecodes]
  intro c hc
  obtain ⟨b, -, rfl⟩ := mem_map.mp hc
  rw [toNat_ofNat (.inl (b.toNat_lt.trans (by decide)))]
  exact b.toNat_lt

/-- **Codecs without marks compose.** -/
theorem composes_of_ne_utf16 (h : s.encoding ≠ .utf16) : s.Composes := by
  have hlead : lead s.order s.encoding = [] := by
    cases hencoding : s.encoding with
    | utf16 => exact absurd hencoding h
    | _ => rfl
  have hbytes := s.bytes_eq
  rw [hlead, nil_append] at hbytes
  have hfollows : s.Follows 0 (pagesFrom (write s.order s.encoding) s.limit s.limit
      s.text) := by
    refine follows_pages s.limit_char (fun c _ => write_ne_nil encoding_known c) (Nat.zero_le _)
      hbytes fun page hpage next _ => ?_
    cases hencoding : s.encoding with
    | utf8 => exact reads_utf8
    | latin1 =>
      refine reads_latin1 fun c hc => lt_of_latin1 hencoding c ?_
      rw [← @flatten_pagesFrom _ (write s.order s.encoding) s.limit s.limit s.text]
      exact mem_flatten_of_mem hpage hc
    | utf16 => exact absurd hencoding h
    | unknown name => exact absurd hencoding (encoding_known name)
  exact ⟨_, hfollows, flatten_pagesFrom⟩

/-! ## Text in code units -/

section Units

variable {contents : List Text}

theorem bytes_eq_units (h : s.encoding = .utf16) :
    s.bytes = mark s.order ++ Utf16.encode s.order s.text := by
  rw [s.bytes_eq, h]
  rfl

/-- What a page is that was decoded. -/
theorem raw_cases (h : s.encoding = .utf16) (hok : s.page offset = .ok output)
    (hoffset : offset ≤ s.bytes.length) :
    (∃ order, s.rawAt offset = mark order ++ Utf16.encode order output.content) ∨
      (∀ order, ¬ mark order <+: s.rawAt offset) ∧
        s.rawAt offset = Utf16.encode host output.content := by
  obtain ⟨-, hdecode, -⟩ := (page_eq_ok_iff hoffset).mp hok
  rw [h, decode, mapError_eq_ok] at hdecode
  exact decode_eq_ok_iff.mp hdecode

theorem length_raw_le (h : s.encoding = .utf16) (hok : s.page offset = .ok output)
    (hoffset : offset ≤ s.bytes.length) :
    (Utf16.encode host output.content).length ≤ (s.rawAt offset).length := by
  rcases raw_cases h hok hoffset with ⟨order, hraw⟩ | ⟨-, hraw⟩
  · rw [hraw, length_append, length_encode order]
    omega
  · rw [hraw]

/-- A page names no other when nothing is left. -/
theorem drop_of_last (hok : s.page offset = .ok output) (hoffset : offset ≤ s.bytes.length)
    (hend : output.continuationOffset = none) :
    s.bytes.drop (offset + (s.rawAt offset).length) = [] := by
  obtain ⟨-, -, houtput⟩ := (page_eq_ok_iff hoffset).mp hok
  rw [houtput, outputAt] at hend
  simp only [ite_eq_right_iff, reduceCtorEq, imp_false, not_lt] at hend
  exact drop_eq_nil_iff.mpr hend

/-- A page names the offset where it ends. -/
theorem eq_of_next {k : ℕ} (hok : s.page offset = .ok output) (hoffset : offset ≤ s.bytes.length)
    (hnext : output.continuationOffset = some k) :
    k = offset + (s.rawAt offset).length ∧ k < s.bytes.length := by
  obtain ⟨-, -, houtput⟩ := (page_eq_ok_iff hoffset).mp hok
  rw [houtput, outputAt] at hnext
  simp only [Option.ite_none_right_eq_some, Option.some.injEq] at hnext
  exact ⟨hnext.2.symm, hnext.2 ▸ hnext.1⟩

/-- What is left to read holds at least the units of what is read. -/
theorem length_follows_le (h : s.encoding = .utf16) (hfollows : s.Follows offset contents)
    (hoffset : offset ≤ s.bytes.length) :
    (Utf16.encode host contents.flatten).length ≤ s.bytes.length - offset := by
  induction hfollows with
  | last hok hend =>
    have hraw := length_raw_le h hok hoffset
    have hle := @next_le host s _ hoffset
    rw [flatten_cons, flatten_nil, append_nil]
    omega
  | next hok hnext hrest ih =>
    obtain ⟨rfl, hlt⟩ := eq_of_next hok hoffset hnext
    have hraw := length_raw_le h hok hoffset
    have ih := ih hlt.le
    rw [flatten_cons, encode_append, length_append]
    omega

/-- A page with no more bytes than its units take has no mark. -/
theorem raw_of_length (h : s.encoding = .utf16) (hok : s.page offset = .ok output)
    (hoffset : offset ≤ s.bytes.length)
    (hlength : (s.rawAt offset).length ≤ (Utf16.encode host output.content).length) :
    (∀ order, ¬ mark order <+: s.rawAt offset) ∧
      s.rawAt offset = Utf16.encode host output.content := by
  rcases raw_cases h hok hoffset with ⟨order, hraw⟩ | hraw
  · rw [hraw, length_append, length_encode host, mark, length_unitBytes] at hlength
    omega
  · exact hraw

theorem drop_eq_raw_append :
    s.bytes.drop offset = s.rawAt offset ++ s.bytes.drop (offset + (s.rawAt offset).length) := by
  obtain ⟨left, hleft⟩ := @rawAt_leads host s offset
  rw [← drop_drop, ← hleft, drop_left]

/-- **Where what is left to read is no longer than its units, it is those units** in the order of
the machine. -/
theorem drop_of_follows (h : s.encoding = .utf16) (hfollows : s.Follows offset contents)
    (hoffset : offset ≤ s.bytes.length)
    (hlength : s.bytes.length - offset = (Utf16.encode host contents.flatten).length) :
    s.bytes.drop offset = Utf16.encode host contents.flatten := by
  induction hfollows with
  | @last offset output hok hend =>
    rw [flatten_cons, flatten_nil, append_nil] at hlength ⊢
    have hend := drop_of_last hok hoffset hend
    have hle := @next_le host s _ hoffset
    obtain ⟨-, hraw⟩ := raw_of_length h hok hoffset (by omega)
    rw [drop_eq_raw_append, hend, append_nil, hraw]
  | @next offset k output contents hok hnext hrest ih =>
    obtain ⟨rfl, hlt⟩ := eq_of_next hok hoffset hnext
    have hle := length_follows_le h hrest hlt.le
    rw [flatten_cons, encode_append, length_append] at hlength
    obtain ⟨-, hraw⟩ := raw_of_length h hok hoffset (by omega)
    have hleft := ih hlt.le (by rw [hraw] at hlt ⊢; omega)
    rw [drop_eq_raw_append, flatten_cons, encode_append, hleft, hraw]

/-- A page that is no longer than its units is the first of what is left. -/
theorem exists_page (h : s.encoding = .utf16) (hok : s.page offset = .ok output)
    (hoffset : offset ≤ s.bytes.length) (hdrop : s.bytes.drop offset = Utf16.encode host text)
    (hleads : output.content <+: text)
    (hlength : (s.rawAt offset).length ≤ (Utf16.encode host output.content).length)
    (hfits : ∀ c ∈ text, (write host .utf16 c).length ≤ s.limit) :
    ∃ rest part, IsCut (write host .utf16) s.limit s.limit text output.content rest part ∧
      (∀ c ∈ output.content.head?, looksMarked c = false) ∧
      s.bytes.drop (offset + (s.rawAt offset).length) = Utf16.encode host rest := by
  obtain ⟨hunmarked, hraw⟩ := raw_of_length h hok hoffset hlength
  have hhead : ∀ c ∈ output.content.head?, looksMarked c = false := by
    intro c hc
    obtain ⟨tail, htail⟩ := List.head?_eq_some_iff.mp hc
    rw [hraw, htail, encode_cons] at hunmarked
    exact Bool.eq_false_of_not_eq_true fun hlooks =>
      absurd (looksMarked_iff.mp hlooks) (not_exists.mpr hunmarked)
  obtain ⟨page, rest, part, hcut⟩ := @exists_cut _ (write host .utf16) s.limit s.limit text
    hfits
  have hpage : text ≠ [] → page ≠ [] := fun hne =>
    hcut.page_ne_nil hne fun a ha => hfits a (mem_of_mem_head? ha)
  have hcontent : text ≠ [] → output.content ≠ [] := by
    intro hne hnil
    obtain ⟨hsmall, -⟩ := (page_eq_ok_iff hoffset).mp hok
    rw [hraw, hnil, hdrop] at hsmall
    refine hsmall (fun htake => ?_) rfl
    rcases take_eq_nil_iff.mp htake with hlimit | hbytes
    · exact absurd s.limit_pos (by omega)
    · exact hne (encode_injective hbytes)
  have hheads : ∀ c ∈ page.head?, looksMarked c = false := by
    intro c hc
    obtain ⟨tail, rfl⟩ := List.head?_eq_some_iff.mp hc
    refine hhead c ?_
    obtain ⟨left, hleft⟩ := hleads
    obtain ⟨d, content, hd⟩ := exists_cons_of_ne_nil
      (hcontent (by rw [hcut.eq]; exact cons_ne_nil _ _))
    rw [hcut.eq, hd] at hleft
    rw [hd, (List.cons.inj hleft).1]
    rfl
  have hreads : Reads host s.encoding (write host .utf16) [] page rest.head? := by
    rw [h]
    refine reads_utf16_unmarked (fun hnil => ?_) hheads
    by_contra hrest
    refine hpage (fun htext => hrest ?_) hnil
    rw [htext] at hcut
    rw [(append_eq_nil_iff.mp hcut.eq.symm).2]
    rfl
  have hdrop : s.bytes.drop offset = [] ++ text.flatMap (write host .utf16) := hdrop
  obtain ⟨hraw', hok'⟩ := page_of_reads hoffset hdrop (Nat.zero_le _) hcut hreads (by
    intro hrest hbytes
    rw [nil_append] at hbytes
    refine hpage (fun htext => hrest ?_) (encode_injective hbytes)
    rw [htext] at hcut
    exact (append_eq_nil_iff.mp hcut.eq.symm).2)
  have heq : output = s.outputAt offset page := Except.ok.inj (hok.symm.trans hok')
  have hpageEq : output.content = page := by rw [heq, outputAt]
  refine ⟨rest, part, hpageEq ▸ hcut, hhead, drop_next hdrop hcut.eq hraw'⟩

/-- **Pages without marks are those of the text.** -/
theorem pages_of_follows (h : s.encoding = .utf16) (hfollows : s.Follows offset contents)
    (hoffset : offset ≤ s.bytes.length) (hdrop : s.bytes.drop offset = Utf16.encode host text)
    (htext : contents.flatten = text)
    (hfits : ∀ c ∈ text, (write host .utf16 c).length ≤ s.limit) :
    contents = pagesFrom (write host .utf16) s.limit s.limit text ∧
      ∀ page ∈ contents, ∀ c ∈ page.head?, looksMarked c = false := by
  have hlength : s.bytes.length - offset = (Utf16.encode host text).length := by
    rw [← hdrop, length_drop]
  induction hfollows generalizing text with
  | @last offset output hok hend =>
    rw [flatten_cons, flatten_nil, append_nil] at htext
    subst htext
    have hle := @next_le host s _ hoffset
    obtain ⟨rest, part, hcut, hhead, -⟩ := exists_page h hok hoffset hdrop prefix_rfl
      (by omega) hfits
    have hrest : rest = [] := append_right_eq_self.mp hcut.eq.symm
    rw [hcut.pages, hrest]
    exact ⟨rfl, fun page hpage => mem_singleton.mp hpage ▸ hhead⟩
  | @next offset k output contents hok hnext hrest ih =>
    obtain ⟨rfl, hlt⟩ := eq_of_next hok hoffset hnext
    rw [flatten_cons] at htext
    subst htext
    have hle := length_follows_le h hrest hlt.le
    rw [encode_append, length_append] at hlength
    obtain ⟨rest, part, hcut, hhead, hleft⟩ := exists_page h hok hoffset hdrop
      (prefix_append _ _) (by omega) hfits
    have hcontents : contents.flatten = rest := append_cancel_left hcut.eq
    have hne : rest ≠ [] := by
      rintro rfl
      exact absurd (drop_eq_nil_iff.mp hleft) (Nat.not_le.mpr hlt)
    obtain ⟨hpages, hheads⟩ := ih hlt.le hleft hcontents
      (fun c hc => hfits c (by rw [hcut.eq]; exact mem_append_right _ hc))
      (by rw [← hleft, length_drop])
    rw [hcut.pages, if_neg (isEmpty_iff.not.mpr hne), ← hpages]
    exact ⟨rfl, forall_mem_cons.mpr ⟨hhead, hheads⟩⟩

/-- **The first page of a marked file reads**, and the others are what is left. -/
theorem first_page (h : s.encoding = .utf16) : ∃ page rest, s.text = page ++ rest ∧
    s.page 0 = .ok (s.outputAt 0 page) ∧
    s.bytes.drop (0 + (s.rawAt 0).length) = Utf16.encode s.order rest ∧
    s.laterPages = if rest.isEmpty then [] else
      pagesFrom (write s.order .utf16) s.limit s.limit rest := by
  have hfits := s.limit_char
  have hfront := s.limit_mark
  rw [h] at hfits hfront
  obtain ⟨page, rest, part, hcut⟩ := @exists_cut _ (write s.order .utf16) s.limit
    (s.limit - (mark s.order).length) s.text hfits
  have hdrop : s.bytes.drop 0 = mark s.order ++ s.text.flatMap (write s.order .utf16) :=
    bytes_eq_units h
  have hreads : Reads host s.encoding (write s.order .utf16) (mark s.order) page
      rest.head? := by
    rw [h]
    exact reads_utf16_marked
  have hmark : mark s.order ++ page.flatMap (write s.order .utf16) ≠ [] :=
    append_ne_nil_of_left_ne_nil (by cases s.order <;> exact cons_ne_nil _ _) _
  obtain ⟨hraw, hok⟩ := page_of_reads (Nat.zero_le _) hdrop hfront hcut hreads fun _ => hmark
  refine ⟨page, rest, hcut.eq, hok, drop_next hdrop hcut.eq hraw, ?_⟩
  rw [laterPages, h]
  exact congrArg List.tail hcut.pages

theorem write_units_congr (order order' : ByteOrder) (c : Char) :
    (write order .utf16 c).length = (write order' .utf16 c).length :=
  length_encodeChar.trans length_encodeChar.symm

/-- **A marked file composes exactly when its later pages stand alone.** -/
theorem composes_iff_of_utf16 (h : s.encoding = .utf16) : s.Composes ↔ s.StandAlone := by
  obtain ⟨page, rest, htext, hok, hleft, hlater⟩ := first_page h
  have hfits : ∀ c ∈ rest, (write host .utf16 c).length ≤ s.limit := by
    intro c hc
    have hc := s.limit_char c (by rw [htext]; exact mem_append_right _ hc)
    rw [h] at hc
    exact (write_units_congr host s.order c).trans_le hc
  have hflatten : s.laterPages.flatten = rest := by
    rw [hlater]
    split_ifs with hrest
    · exact (isEmpty_iff.mp hrest).symm
    · exact flatten_pagesFrom
  constructor
  · rintro ⟨contents, hfollows, hcontents⟩
    cases hfollows with
    | last hpage hend =>
      obtain rfl := Except.ok.inj (hpage.symm.trans hok)
      have hdrop := drop_of_last hok (Nat.zero_le _) hend
      rw [hleft] at hdrop
      obtain rfl : rest = [] := encode_injective (hdrop.trans encode_nil.symm)
      constructor
      · rw [hflatten]
        rfl
      · intro later hmem
        rw [hlater] at hmem
        cases hmem
    | @next _ k _ contents hpage hnext hrest =>
      obtain rfl := Except.ok.inj (hpage.symm.trans hok)
      obtain ⟨rfl, hlt⟩ := eq_of_next hok (Nat.zero_le _) hnext
      have hcontents : contents.flatten = rest :=
        append_cancel_left (hcontents.trans htext)
      have hunits := drop_of_follows h hrest hlt.le (by
        rw [← length_drop, hleft, hcontents]
        exact length_encode host)
      rw [hcontents] at hunits
      obtain ⟨hpages, hheads⟩ := pages_of_follows h hrest hlt.le hunits hcontents hfits
      have hne : rest ≠ [] := by
        rintro rfl
        exact absurd (drop_eq_nil_iff.mp hunits) (Nat.not_le.mpr hlt)
      constructor
      · rw [hflatten, ← hleft, hunits]
      · rw [hlater, if_neg (isEmpty_iff.not.mpr hne),
          pagesFrom_congr (write_units_congr s.order host), ← hpages]
        exact hheads
  · intro halone
    have hunits := halone.order
    rw [hflatten] at hunits
    by_cases hrest : rest = []
    · subst hrest
      refine ⟨[page], .last hok (if_neg ?_), by rw [htext]; simp⟩
      exact Nat.not_lt.mpr (drop_eq_nil_iff.mp hleft)
    · have hlt : 0 + (s.rawAt 0).length < s.bytes.length := by
        by_contra hend
        rw [drop_of_length_le (Nat.not_lt.mp hend)] at hleft
        exact hrest (encode_injective hleft.symm)
      have hpages : s.laterPages = pagesFrom (write host .utf16) s.limit s.limit rest := by
        rw [hlater, if_neg (isEmpty_iff.not.mpr hrest),
          pagesFrom_congr (write_units_congr s.order host)]
      have hfollows : s.Follows (0 + (s.rawAt 0).length)
          (pagesFrom (write host .utf16) s.limit s.limit rest) := by
        refine follows_pages hfits
          (fun c _ => write_ne_nil (fun _ heq => Encoding.noConfusion heq) c) hlt.le
          (hleft.trans hunits) fun later hmem next hnext => ?_
        rw [h]
        exact reads_utf16_unmarked hnext (halone.unmarked later (hpages ▸ hmem))
      refine ⟨_, .next hok (if_pos hlt) hfollows, ?_⟩
      rw [flatten_cons, flatten_pagesFrom, htext]
      rfl

/-- **Following the continuations yields the text exactly when the file has no mark or its later
pages stand alone.** -/
theorem pages_compose_iff : s.Composes ↔ (s.encoding = .utf16 → s.StandAlone) := by
  by_cases h : s.encoding = .utf16
  · rw [composes_iff_of_utf16 h]
    exact ⟨fun halone _ => halone, fun halone => halone h⟩
  · exact iff_of_true (composes_of_ne_utf16 h) fun h' => absurd h' h

end Units

end Setting

end Mishkan.FileRead

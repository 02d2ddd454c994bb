import Mathlib.Data.List.DropRight

/-!
# Foundations/Lines — a text cut into its lines, the line ends kept

`splitLines` is `str.splitlines(keepends=True)`: a line ends behind any of ten boundary characters,
and a carriage return takes a line feed behind it along.  The cut loses nothing
(`flatten_splitLines`), all lines but the last are `Terminated`, and a text put together from lines
is cut into the same lines again (`splitLines_append`), unless one end and the next beginning merge.
-/

namespace Lines

open List

/-- A text, character by character. -/
abbrev Text := List Char

/-- The characters that end a line. -/
def boundaries : List Char :=
  ['\n', '\r', '\x0b', '\x0c', '\x1c', '\x1d', '\x1e', '\u0085', '\u2028', '\u2029']

/-- Whether a line ends at a character. -/
def isBreak (c : Char) : Bool := c ∈ boundaries

/-- The lines of a text, each with its end. -/
def splitLines : Text → List Text
  | [] => []
  | '\r' :: '\n' :: rest => ['\r', '\n'] :: splitLines rest
  | c :: rest =>
    if isBreak c then [c] :: splitLines rest
    else
      match splitLines rest with
      | [] => [[c]]
      | line :: lines => (c :: line) :: lines

/-- A text without a line boundary. -/
def Plain (s : Text) : Prop := ∀ c ∈ s, isBreak c = false

instance (s : Text) : Decidable (Plain s) := List.decidableBAll _ s

/-- The ends a line may have. -/
def IsEnd (e : Text) : Prop := e = ['\r', '\n'] ∨ ∃ c, e = [c] ∧ isBreak c = true

/-- A line with its end. -/
def Terminated (l : Text) : Prop := ∃ body e, l = body ++ e ∧ Plain body ∧ IsEnd e

/-- A last line that has no end. -/
def Unended (l : Text) : Prop := l ≠ [] ∧ Plain l

/-- Strip the carriage returns and line feeds a text ends in. -/
def stripEnd (s : Text) : Text := s.rdropWhile fun c => c = '\r' ∨ c = '\n'

variable {s l m : Text} {ls : List Text} {c : Char}

@[simp] theorem isBreak_lineFeed : isBreak '\n' = true := by decide

@[simp] theorem isBreak_return : isBreak '\r' = true := by decide

theorem plain_nil : Plain [] := fun _ h => absurd h (by simp)

theorem plain_cons : Plain (c :: s) ↔ isBreak c = false ∧ Plain s := forall_mem_cons

theorem plain_append : Plain (s ++ l) ↔ Plain s ∧ Plain l := forall_mem_append

/-! ## One line at a time -/

@[simp] theorem splitLines_nil : splitLines [] = [] := rfl

theorem splitLines_crlf (s : Text) :
    splitLines ('\r' :: '\n' :: s) = ['\r', '\n'] :: splitLines s := by
  rw [splitLines]

/-- A boundary that is not half of a pair is a line of its own. -/
theorem splitLines_break (hc : isBreak c = true) (hs : c = '\r' → s.head? ≠ some '\n') :
    splitLines (c :: s) = [c] :: splitLines s := by
  rw [splitLines.eq_3, if_pos hc]
  rintro rest rfl rfl
  exact hs rfl rfl

/-- Another character opens the line it stands in. -/
theorem splitLines_plain (hc : isBreak c = false) : splitLines (c :: s) = match splitLines s with
      | [] => [[c]]
      | line :: lines => (c :: line) :: lines := by
  have hne : c ≠ '\r' := fun h => by simp [h] at hc
  rw [splitLines.eq_3 _ _ fun _ h _ => hne h, if_neg (by simp [hc])]

/-- **A terminated line in front of a text is its first line**, unless its end is a carriage return
and the text opens with a line feed. -/
theorem splitLines_append (hl : Terminated l) (hs : l.getLast? = some '\r' → s.head? ≠ some '\n') :
    splitLines (l ++ s) = l :: splitLines s := by
  obtain ⟨body, e, rfl, hbody, he⟩ := hl
  induction body with
  | nil =>
    rcases he with rfl | ⟨c, rfl, hc⟩
    · exact splitLines_crlf s
    · exact splitLines_break hc fun h => hs (by simp [h])
  | cons c body ih =>
    obtain ⟨hc, hbody⟩ := plain_cons.mp hbody
    have hlast : (c :: body ++ e).getLast? = (body ++ e).getLast? := by
      have hne : body ++ e ≠ [] := by rcases he with rfl | ⟨c, rfl, -⟩ <;> simp
      rw [cons_append, List.getLast?_cons_of_ne_nil hne]
    rw [cons_append, cons_append, splitLines_plain hc, ih (hlast ▸ hs) hbody]

/-- A text without a boundary is one line. -/
theorem splitLines_unended (hl : Unended l) : splitLines l = [l] := by
  obtain ⟨hne, hl⟩ := hl
  induction l with
  | nil => exact absurd rfl hne
  | cons c l ih =>
    obtain ⟨hc, hl⟩ := plain_cons.mp hl
    rw [splitLines_plain hc]
    rcases eq_or_ne l [] with rfl | h
    · rfl
    · rw [ih h hl]

/-! ## The lines of a text -/

theorem Terminated.ne_nil (h : Terminated l) : l ≠ [] := by
  obtain ⟨body, e, rfl, -, rfl | ⟨c, rfl, -⟩⟩ := h <;> simp

theorem Terminated.cons (hc : isBreak c = false) (h : Terminated l) : Terminated (c :: l) := by
  obtain ⟨body, e, rfl, hbody, he⟩ := h
  exact ⟨c :: body, e, rfl, plain_cons.mpr ⟨hc, hbody⟩, he⟩

theorem Terminated.prepend (hs : Plain s) (h : Terminated l) : Terminated (s ++ l) := by
  obtain ⟨body, e, rfl, hbody, he⟩ := h
  exact ⟨s ++ body, e, by rw [append_assoc], plain_append.mpr ⟨hs, hbody⟩, he⟩

theorem Unended.cons (hc : isBreak c = false) (h : Plain l) : Unended (c :: l) :=
  ⟨by simp, plain_cons.mpr ⟨hc, h⟩⟩

/-- **Every text comes apart at its first line end.** -/
theorem exists_first_line (s : Text) : Plain s ∨ ∃ l rest, s = l ++ rest ∧ Terminated l ∧
      (l.getLast? = some '\r' → rest.head? ≠ some '\n') := by
  induction s with
  | nil => exact .inl plain_nil
  | cons c s ih =>
    by_cases hc : isBreak c = true
    · refine .inr ?_
      by_cases hpair : c = '\r' ∧ s.head? = some '\n'
      · obtain ⟨rfl, hs⟩ := hpair
        obtain ⟨rest, rfl⟩ := List.head?_eq_some_iff.mp hs
        exact ⟨['\r', '\n'], rest, rfl, ⟨[], _, rfl, plain_nil, .inl rfl⟩, by simp⟩
      · refine ⟨[c], s, rfl, ⟨[], _, rfl, plain_nil, .inr ⟨c, rfl, hc⟩⟩, fun h hs => hpair ⟨?_, hs⟩⟩
        simpa using h
    · have hc : isBreak c = false := by simpa using hc
      rcases ih with hs | ⟨l, rest, rfl, hl, hrest⟩
      · exact .inl (plain_cons.mpr ⟨hc, hs⟩)
      · refine .inr ⟨c :: l, rest, rfl, hl.cons hc, ?_⟩
        rwa [List.getLast?_cons_of_ne_nil hl.ne_nil]

/-- **Induction over the lines of a text**: it is empty, one unended line, or a terminated line in
front of another text. -/
theorem lines_induction {P : Text → Prop} (nil : P []) (last : ∀ l, Unended l → P l)
    (line : ∀ l s, Terminated l → (l.getLast? = some '\r' → s.head? ≠ some '\n') → P s → P (l ++ s))
    (s : Text) : P s := by
  induction hn : s.length using Nat.strongRecOn generalizing s with
  | _ n ih =>
    rcases exists_first_line s with hs | ⟨l, rest, rfl, hl, hrest⟩
    · rcases eq_or_ne s [] with rfl | hne
      · exact nil
      · exact last s ⟨hne, hs⟩
    · refine line l rest hl hrest (ih _ ?_ rest rfl)
      have := length_pos_iff.mpr hl.ne_nil
      rw [← hn, length_append]
      omega

/-- **The lines put together are the text.** -/
@[simp] theorem flatten_splitLines (s : Text) : (splitLines s).flatten = s := by
  induction s using lines_induction with
  | nil => rfl
  | last l hl => simp [splitLines_unended hl]
  | line l s hl hs ih => rw [splitLines_append hl hs, flatten_cons, ih]

theorem splitLines_injective : Function.Injective splitLines := fun s t h => by
  rw [← flatten_splitLines s, h, flatten_splitLines]

@[simp] theorem splitLines_eq_nil : splitLines s = [] ↔ s = [] := by
  constructor
  · intro h
    rw [← flatten_splitLines s, h, flatten_nil]
  · rintro rfl
    rfl

/-! ## Lists of lines -/

/-- All but the last are terminated, no two neighbours merge, and the last is a line too. -/
def Lined : List Text → Prop
  | [] => True
  | [l] => Terminated l ∨ Unended l
  | l :: m :: ls => Terminated l ∧ (l.getLast? = some '\r' → m.head? ≠ some '\n') ∧ Lined (m :: ls)

theorem Lined.tail (h : Lined (l :: ls)) : Lined ls := by
  cases ls with
  | nil => trivial
  | cons m ls => exact h.2.2

theorem Lined.head (h : Lined (l :: ls)) : Terminated l ∨ Unended l ∧ ls = [] := by
  cases ls with
  | nil => exact h.imp_right fun h => ⟨h, rfl⟩
  | cons m ls => exact .inl h.1

theorem Lined.ne_nil (h : Lined (l :: ls)) : l ≠ [] := by
  rcases h.head with h | ⟨h, -⟩
  · exact h.ne_nil
  · exact h.1

/-- The text of a list of lines opens as the first of them does. -/
theorem Lined.head?_flatten (h : Lined (l :: ls)) : (l :: ls).flatten.head? = l.head? := by
  rw [flatten_cons, List.head?_append_of_ne_nil _ h.ne_nil]

/-- **Lines put together are cut into the same lines again.** -/
theorem splitLines_flatten (h : Lined ls) : splitLines ls.flatten = ls := by
  induction ls with
  | nil => rfl
  | cons l ls ih =>
    rw [flatten_cons]
    cases ls with
    | nil =>
      rcases h with h | h
      · rw [flatten_nil, splitLines_append h (by simp), splitLines_nil]
      · rw [flatten_nil, append_nil, splitLines_unended h]
    | cons m ls =>
      rw [splitLines_append h.1 fun hr => h.2.2.head?_flatten ▸ h.2.1 hr, ih h.2.2]

/-- **The lines of a text are lines.** -/
theorem lined_splitLines (s : Text) : Lined (splitLines s) := by
  induction s using lines_induction with
  | nil => trivial
  | last l hl => rw [splitLines_unended hl]; exact .inr hl
  | line l s hl hs ih =>
    rw [splitLines_append hl hs]
    have hflat := flatten_splitLines s
    revert ih hflat
    cases splitLines s with
    | nil => exact fun _ _ => .inl hl
    | cons m ls =>
      intro ih hflat
      refine ⟨hl, fun hr hm => hs hr ?_, ih⟩
      rw [← hflat, ih.head?_flatten, hm]

/-- A terminated line in front of lines, when none of them opens with a line feed. -/
theorem lined_cons (hl : Terminated l) (hhead : ∀ m ∈ ls.head?, m.head? ≠ some '\n')
    (hls : Lined ls) : Lined (l :: ls) := by
  cases ls with
  | nil => exact .inl hl
  | cons m ls => exact ⟨hl, fun _ => hhead m (by simp), hls⟩

theorem Lined.of_mem_dropLast (h : Lined ls) (hl : l ∈ ls.dropLast) : Terminated l := by
  induction ls with
  | nil => simp at hl
  | cons m ls ih =>
    cases ls with
    | nil => simp at hl
    | cons m' ls =>
      rw [dropLast_cons_cons, mem_cons] at hl
      rcases hl with rfl | hl
      · exact h.1
      · exact ih h.2.2 hl

theorem Lined.of_mem (h : Lined ls) (hl : l ∈ ls) : Terminated l ∨ Unended l := by
  induction ls with
  | nil => simp at hl
  | cons m ls ih =>
    rcases mem_cons.mp hl with rfl | hl
    · exact h.head.imp_right And.left
    · exact ih h.tail hl

/-- Lines in front of lines, when the last of them ends in a line feed. -/
theorem Lined.append {ms : List Text} (hls : Lined ls) (hms : Lined ms)
    (hlast : ∀ l ∈ ls.getLast?, l.getLast? = some '\n') : Lined (ls ++ ms) := by
  induction ls with
  | nil => exact hms
  | cons l ls ih =>
    cases ls with
    | nil =>
      have hl : l.getLast? = some '\n' := hlast l rfl
      rcases hls with hls | ⟨-, hplain⟩
      · cases ms with
        | nil => exact .inl hls
        | cons m ms => exact ⟨hls, fun hr => by simp [hl] at hr, hms⟩
      · have hbreak := hplain '\n' (mem_of_getLast? hl)
        simp at hbreak
    | cons m ls =>
      refine ⟨hls.1, hls.2.1, ih hls.2.2 fun l hl => hlast l ?_⟩
      rwa [List.getLast?_cons_of_ne_nil (by simp)]

theorem Lined.of_append_right {ms : List Text} (h : Lined (ls ++ ms)) : Lined ms := by
  induction ls with
  | nil => exact h
  | cons l ls ih => exact ih h.tail

/-- The last line of a text ends as the text does. -/
theorem getLast?_splitLines (hl : l ∈ (splitLines s).getLast?) : l.getLast? = s.getLast? := by
  obtain ⟨front, hfront⟩ := List.getLast?_eq_some_iff.mp hl
  have hne : l ≠ [] := by
    rcases (lined_splitLines s).of_mem (mem_of_getLast? hl) with h | h
    · exact h.ne_nil
    · exact h.1
  rw [← flatten_splitLines s, hfront, flatten_append, flatten_singleton,
    List.getLast?_append_of_ne_nil _ hne]

/-- **A text that ends in a line feed is cut on its own**, whatever follows it. -/
theorem splitLines_append_of_lineFeed (hs : s.getLast? = some '\n') (t : Text) :
    splitLines (s ++ t) = splitLines s ++ splitLines t := by
  have hlined : Lined (splitLines s ++ splitLines t) :=
    (lined_splitLines s).append (lined_splitLines t) fun l hl => (getLast?_splitLines hl).trans hs
  rw [← splitLines_flatten hlined, flatten_append, flatten_splitLines, flatten_splitLines]

/-! ## Stripping a line end -/

theorem stripEnd_append_lineFeed (s : Text) : stripEnd (s ++ ['\n']) = stripEnd s := by
  simp [stripEnd]

/-- What is stripped stands behind the first character that stays. -/
theorem stripEnd_cons (hc : c ≠ '\r' ∧ c ≠ '\n') (s : Text) :
    stripEnd (c :: s) = c :: stripEnd s := by
  induction s using List.reverseRecOn with
  | nil =>
    have hkeep : ¬ decide (c = '\r' ∨ c = '\n') = true := by simpa using hc
    have hone := rdropWhile_concat_neg (fun c => decide (c = '\r' ∨ c = '\n')) [] c hkeep
    exact hone
  | append_singleton s d ih =>
    rw [← cons_append, stripEnd, rdropWhile_concat, stripEnd, rdropWhile_concat]
    split_ifs
    · exact ih
    · rfl

theorem stripEnd_append_return (s : Text) : stripEnd (s ++ ['\r']) = stripEnd s := by
  simp [stripEnd]

theorem length_stripEnd_le (s : Text) : (stripEnd s).length ≤ s.length :=
  (List.rdropWhile_prefix _ _).length_le

/-- Nothing is stripped from a text without a boundary. -/
theorem stripEnd_plain (hs : Plain s) : stripEnd s = s := by
  rw [stripEnd, rdropWhile_eq_self_iff]
  intro hne hlast
  have hbreak := hs _ (getLast_mem hne)
  rcases (of_decide_eq_true hlast : _ ∨ _) with h | h <;> simp [h] at hbreak

/-! ## Stripping whitespace -/

/-- The characters `str.isspace` holds of. -/
def spaces : List Char :=
  ['\t', '\n', '\x0b', '\x0c', '\r', '\x1c', '\x1d', '\x1e', '\x1f', ' ', '\u0085', '\u00a0',
    '\u1680', '\u2000', '\u2001', '\u2002', '\u2003', '\u2004', '\u2005', '\u2006', '\u2007',
    '\u2008', '\u2009', '\u200a', '\u2028', '\u2029', '\u202f', '\u205f', '\u3000']

def isSpace (c : Char) : Bool := c ∈ spaces

/-- `str.strip`. -/
def strip (s : Text) : Text := (s.dropWhile isSpace).rdropWhile isSpace

@[simp] theorem strip_nil : strip [] = [] := rfl

theorem strip_eq_nil : strip s = [] ↔ ∀ c ∈ s, isSpace c = true := by
  rw [strip, rdropWhile_eq_nil_iff]
  constructor
  · intro h c hc
    rw [← @takeWhile_append_dropWhile _ isSpace s, mem_append] at hc
    rcases hc with hc | hc
    · exact mem_takeWhile_imp hc
    · exact h c hc
  · exact fun h c hc => h c ((dropWhile_suffix _).subset hc)

theorem strip_append_eq_nil : strip (s ++ l) = [] ↔ strip s = [] ∧ strip l = [] := by
  simp only [strip_eq_nil, forall_mem_append]

/-- Stripped once, stripped for good. -/
theorem strip_strip_eq_nil : strip (strip s) = [] ↔ strip s = [] := by
  refine ⟨fun h => ?_, fun h => by rw [h, strip_nil]⟩
  by_contra hne
  have hlast := rdropWhile_last_not isSpace (s.dropWhile isSpace) hne
  exact hlast (strip_eq_nil.mp h _ (getLast_mem hne))

/-- All that is stripped from a line without padding is its line feed. -/
theorem strip_append_lineFeed (hhead : ∀ c ∈ s.head?, isSpace c = false)
    (hlast : ∀ c ∈ s.getLast?, isSpace c = false) : strip (s ++ ['\n']) = s := by
  have hline : isSpace '\n' = true := by decide
  cases s with
  | nil => decide
  | cons c s =>
    rw [strip, cons_append, dropWhile_cons_of_neg (by simp [hhead c rfl]),
      ← cons_append, rdropWhile_concat_pos _ _ _ hline, rdropWhile_eq_self_iff]
    intro hne
    simp [hlast _ (List.getLast?_eq_getLast_of_ne_nil hne)]

/-! ## UTF-8 -/

/-- The UTF-8 bytes of a text. -/
def encode (s : Text) : List UInt8 := (String.ofList s).toUTF8.data.toList

/-- The text a sequence of bytes is the UTF-8 of, if it is one. -/
def decode? (bytes : List UInt8) : Option Text :=
  (String.fromUTF8? ⟨bytes.toArray⟩).map String.toList

theorem decode?_eq_some {bytes : List UInt8} : decode? bytes = some s ↔ encode s = bytes := by
  rw [decode?, Option.map_eq_some_iff, encode, String.fromUTF8?]
  constructor
  · rintro ⟨t, ht, rfl⟩
    split_ifs at ht with h
    obtain rfl := Option.some.inj ht
    simp [String.fromUTF8]
  · rintro rfl
    exact ⟨String.ofList s, dif_pos (String.ofList s).isValidUTF8, String.toList_ofList⟩

@[simp] theorem decode?_encode (s : Text) : decode? (encode s) = some s := decode?_eq_some.mpr rfl

theorem encode_injective : Function.Injective encode := fun _ t h =>
  Option.some.inj ((decode?_eq_some.mpr h).symm.trans (decode?_encode t))

theorem encode_append (s t : Text) : encode (s ++ t) = encode s ++ encode t := by
  simp [encode]

theorem encode_singleton (c : Char) : encode [c] = String.utf8EncodeChar c := by
  simp [encode, utf8Encode_singleton]

/-- No character but a line feed ends in its byte: the bytes behind the first are from 128 on. -/
theorem eq_lineFeed_of_encode (h : (encode [c]).getLast? = some 10) : c = '\n' := by
  have hbyte : ∀ n < 256, UInt8.ofNat n = 10 → n = 10 := fun n hn heq => by
    simpa [Nat.mod_eq_of_lt hn] using congrArg UInt8.toNat heq
  have htail : ∀ n, UInt8.ofNat (n % 64 + 128) ≠ 10 := fun n heq => by
    have := hbyte (n % 64 + 128) (by omega) heq
    omega
  rw [encode_singleton, String.utf8EncodeChar] at h
  split_ifs at h with hone
  · have hval := hbyte c.val.toNat (by omega) (by simpa using h)
    exact Char.ext (UInt32.toNat_inj.mp hval)
  all_goals exact absurd (by simpa using h) (htail _)

/-- The last byte of a text is a line feed only if its last character is. -/
theorem getLast?_of_encode (h : (encode s).getLast? = some 10) : s.getLast? = some '\n' := by
  induction s using List.reverseRecOn with
  | nil => simp [encode] at h
  | append_singleton s c _ =>
    rw [encode_append, List.getLast?_append_of_ne_nil _ (by simp [encode_singleton])] at h
    rw [List.getLast?_append_of_ne_nil _ (by simp), List.getLast?_singleton,
      eq_lineFeed_of_encode h]

/-- **Where the bytes of one text begin with those of another, so does the text.** -/
theorem exists_append_of_encode {rest : List UInt8} (h : encode s ++ rest = encode l) :
    ∃ t, l = s ++ t ∧ encode t = rest := by
  have hbytes : s.utf8Encode ++ ⟨rest.toArray⟩ = l.utf8Encode := by
    ext1
    apply Array.toList_inj.mp
    simpa [encode, String.ofList] using h
  obtain ⟨t, rfl⟩ := isPrefix_of_utf8Encode_append_eq_utf8Encode _ hbytes
  refine ⟨t, rfl, ?_⟩
  rw [encode_append] at h
  exact (append_cancel_left h).symm

end Lines

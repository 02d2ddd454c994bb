import Mishkan.Domain.Errors
import Mishkan.Foundations.JsonDocument
import Mishkan.Foundations.Lines

/-!
# Environment/Jsonc — descriptors written as JSON with comments

`_jsonc` takes the comments out with a scanner that knows where strings are, and the commas behind
last elements with a regular expression that does not.  Every document comes back as what was
written exactly when no string of it holds a comma with a closing bracket behind it
(`Jsonc.Document.jsonc_eq_iff`).
-/

namespace Mishkan

open JsonDocument List Lines

/-- The errors of the descriptor validator. -/
def invalidDescriptor (category : String) : Raised :=
  fault .engineering "environment descriptor validation failed" [("category", .str category)]

namespace Jsonc

/-- Where the scanner is: `quoted` and `escaped`, and the comment it skips. -/
inductive Mode where
  | plain | quoted | escaped | line | block
deriving DecidableEq

/-- The text without its comments, and nothing when a comment does not end. -/
def withoutComments : Mode → List Char → Option (List Char)
  | .block, [] => none
  | _, [] => some []
  | .quoted, c :: rest =>
    (withoutComments (if c = '\\' then .escaped else if c = '"' then .plain else .quoted) rest).map
      (c :: ·)
  | .escaped, c :: rest => (withoutComments .quoted rest).map (c :: ·)
  -- the scanner stands at the line terminator, which is no part of the comment
  | .line, c :: rest =>
    if c = '\r' ∨ c = '\n' then (withoutComments .plain rest).map (c :: ·)
    else withoutComments .line rest
  | .block, '*' :: '/' :: rest => withoutComments .plain rest
  | .block, _ :: rest => withoutComments .block rest
  | .plain, '/' :: '/' :: rest => withoutComments .line rest
  | .plain, '/' :: '*' :: rest => withoutComments .block rest
  | .plain, c :: rest =>
    (withoutComments (if c = '"' then .quoted else .plain) rest).map (c :: ·)

/-- `\s*[}\]]` matches at the front of the text. -/
def closes (text : List Char) : Bool :=
  (text.dropWhile isSpace).head?.any fun c => c = '}' ∨ c = ']'

/-- `re.sub(r",\s*([}\]])", r"\1", text)`; white space is skipped from a comma that matched up to
its bracket. -/
def dropTrailingCommas (skipping : Bool) : List Char → List Char
  | [] => []
  | c :: rest =>
    if skipping ∧ isSpace c then dropTrailingCommas true rest
    else if c = ',' ∧ closes rest then dropTrailingCommas true rest
    else c :: dropTrailingCommas false rest

end Jsonc

/-- `_jsonc`. -/
def jsonc (text : List Char) : Except Raised JsonObject := do
  let some uncommented := Jsonc.withoutComments .plain text
    | throw (invalidDescriptor "jsonc-comment")
  let some parsed := Json.loads (Jsonc.dropTrailingCommas false uncommented)
    | throw (.valueError "JSONDecodeError")
  let .obj members := parsed | throw (invalidDescriptor "document-shape")
  return members

namespace Jsonc

/-! ## Comments are taken out -/

section Comments

variable {c : Char} {rest text blank text' blank' : List Char} {gap : Gap}

/-! ### One character of the scanner -/

theorem scan_quoted : withoutComments .quoted (c :: rest) = (withoutComments
    (if c = '\\' then .escaped else if c = '"' then .plain else .quoted) rest).map (c :: ·) := rfl

theorem scan_escaped :
    withoutComments .escaped (c :: rest) = (withoutComments .quoted rest).map (c :: ·) := rfl

theorem scan_line : withoutComments .line (c :: rest) =
    if c = '\r' ∨ c = '\n' then (withoutComments .plain rest).map (c :: ·)
    else withoutComments .line rest := rfl

theorem scan_lineComment :
    withoutComments .plain ('/' :: '/' :: rest) = withoutComments .line rest := rfl

theorem scan_blockComment :
    withoutComments .plain ('/' :: '*' :: rest) = withoutComments .block rest := rfl

theorem scan_block (h : ∀ more, c = '*' → rest ≠ '/' :: more) :
    withoutComments .block (c :: rest) = withoutComments .block rest := by
  rw [withoutComments]
  exact h

theorem scan_plain (h : c ≠ '/') : withoutComments .plain (c :: rest) =
    (withoutComments (if c = '"' then .quoted else .plain) rest).map (c :: ·) := by
  rw [withoutComments]
  · exact fun _ hc _ => h hc
  · exact fun _ hc _ => h hc

/-! ### Pieces of text -/

/-- A piece of text between strings, and what is left of it. -/
def Uncommented (text blank : List Char) : Prop :=
  ∀ rest, withoutComments .plain (text ++ rest) = (withoutComments .plain rest).map (blank ++ ·)

namespace Uncommented

theorem nil : Uncommented [] [] := fun _ => (congrFun Option.map_id _).symm

theorem append (h : Uncommented text blank) (h' : Uncommented text' blank') :
    Uncommented (text ++ text') (blank ++ blank') := by
  intro rest
  rw [append_assoc, h, h', Option.map_map]
  exact congrArg (Option.map · _) (funext fun left => (append_assoc ..).symm)

theorem cons (hslash : c ≠ '/') (hquote : c ≠ '"') (h : Uncommented text blank) :
    Uncommented (c :: text) (c :: blank) := by
  intro rest
  rw [cons_append, scan_plain hslash, if_neg hquote, h, Option.map_map]
  rfl

/-- Text without quotation marks and slashes stays as it is. -/
theorem self : ∀ {text : List Char}, (∀ c ∈ text, c ≠ '/' ∧ c ≠ '"') → Uncommented text text
  | [], _ => nil
  | c :: _, h =>
    (self fun d hd => h d (mem_cons_of_mem _ hd)).cons (h c mem_cons_self).1
      (h c mem_cons_self).2

end Uncommented

theorem withoutComments_line {terminator : Char} (h : ∀ c ∈ text, c ∉ ['\r', '\n'])
    (hend : terminator ∈ ['\r', '\n']) : withoutComments .line (text ++ terminator :: rest) =
      (withoutComments .plain rest).map (terminator :: ·) := by
  induction text with
  | nil => rw [nil_append, scan_line, if_pos (mem_pair.mp hend)]
  | cons c text ih =>
    rw [cons_append, scan_line, if_neg fun hc => h c mem_cons_self
      (mem_pair.mpr hc)]
    exact ih fun d hd => h d (mem_cons_of_mem _ hd)

/-- A line comment may end with the text. -/
theorem withoutComments_line_end (h : ∀ c ∈ text, c ∉ ['\r', '\n']) :
    withoutComments .line text = some [] := by
  induction text with
  | nil => rfl
  | cons c text ih =>
    rw [scan_line, if_neg fun hc => h c mem_cons_self (mem_pair.mpr hc)]
    exact ih fun d hd => h d (mem_cons_of_mem _ hd)

theorem withoutComments_block (h : ¬ ['*', '/'] <:+: text) :
    withoutComments .block (text ++ '*' :: '/' :: rest) = withoutComments .plain rest := by
  induction text with
  | nil => rfl
  | cons c text ih =>
    have hstep : withoutComments .block (c :: (text ++ '*' :: '/' :: rest)) =
        withoutComments .block (text ++ '*' :: '/' :: rest) := by
      refine scan_block ?_
      rintro more rfl heq
      cases text with
      | nil => exact absurd (List.cons.inj heq).1 (by decide)
      | cons d text =>
        obtain rfl := (List.cons.inj heq).1
        exact h ⟨[], text, rfl⟩
    rw [cons_append, hstep]
    exact ih fun hmem => h (hmem.trans (suffix_cons _ _).isInfix)

theorem uncommented_filler {f : Filler} (h : f.Valid) : Uncommented f.text f.blank := by
  intro rest
  cases f with
  | space c =>
    refine Uncommented.self (fun d hd => ?_) rest
    obtain rfl := mem_singleton.mp hd
    simp only [Filler.Valid, mem_cons, not_mem_nil, or_false] at h
    rcases h with rfl | rfl | rfl | rfl <;> decide
  | line body terminator =>
    rw [Filler.text, cons_append, cons_append, scan_lineComment, append_assoc,
      singleton_append, withoutComments_line h.1 h.2]
    rfl
  | block body =>
    rw [Filler.text, cons_append, cons_append, scan_blockComment, append_assoc,
      cons_append, singleton_append, withoutComments_block h]
    exact (congrFun Option.map_id _).symm

theorem uncommented_gap : ∀ {gap : Gap}, gap.Valid → Uncommented gap.text gap.blank
  | [], _ => .nil
  | f :: _, h =>
    (uncommented_filler (h f mem_cons_self)).append
      (uncommented_gap fun g hg => h g (mem_cons_of_mem _ hg))

/-- Inside a string the scanner passes what escapes nothing and ends nothing. -/
theorem withoutComments_quoted_append (h : ∀ c ∈ text, c ≠ '\\' ∧ c ≠ '"') :
    withoutComments .quoted (text ++ rest) = (withoutComments .quoted rest).map (text ++ ·) := by
  induction text with
  | nil => exact (congrFun Option.map_id _).symm
  | cons c text ih =>
    obtain ⟨hescape, hquote⟩ := h c mem_cons_self
    rw [cons_append, scan_quoted, if_neg hescape, if_neg hquote,
      ih fun d hd => h d (mem_cons_of_mem _ hd), Option.map_map]
    rfl

theorem withoutComments_escape : withoutComments .quoted ('\\' :: c :: rest) =
    (withoutComments .quoted rest).map fun left => '\\' :: c :: left := by
  rw [scan_quoted, if_pos rfl, scan_escaped, Option.map_map]
  rfl

/-- The digits of a code unit escape nothing and end nothing. -/
theorem digits_inert {digits : List Char} {n : ℕ} (h : Json.readUnit digits = some (n, [])) :
    ∀ c ∈ digits, c ≠ '\\' ∧ c ≠ '"' ∧ c ≠ ',' := by
  obtain ⟨a, b, c, d, rfl, hdigits⟩ := eq_digits_of_readUnit h
  intro x hx
  have hx := hexValue_range (hdigits x hx)
  refine ⟨?_, ?_, ?_⟩ <;> rintro rfl <;> exact absurd hx (by decide)

theorem withoutComments_spells (h : Spells text c) :
    withoutComments .quoted (text ++ rest) = (withoutComments .quoted rest).map (text ++ ·) := by
  cases h with
  | plain hquote hescape =>
    exact withoutComments_quoted_append fun d hd => mem_singleton.mp hd ▸ ⟨hescape, hquote⟩
  | short => exact withoutComments_escape
  | @unit digits n hdigits =>
    have hinert := fun d hd => (digits_inert hdigits d hd).imp_right And.left
    rw [cons_append, cons_append, withoutComments_escape,
      withoutComments_quoted_append hinert, Option.map_map]
    rfl
  | @pair high low m n hhigh _ hlow =>
    have hinert := fun d hd => (digits_inert hhigh d hd).imp_right And.left
    have hinert' := fun d hd => (digits_inert hlow d hd).imp_right And.left
    rw [cons_append, cons_append, append_assoc, cons_append, cons_append,
      withoutComments_escape, withoutComments_quoted_append hinert, withoutComments_escape,
      withoutComments_quoted_append hinert', Option.map_map, Option.map_map, Option.map_map]
    exact congrArg (Option.map · _) (funext fun left => by simp)

theorem withoutComments_body {s : Written} (h : Spelled s) :
    withoutComments .quoted (body s ++ '"' :: rest) =
      (withoutComments .plain rest).map fun left => body s ++ '"' :: left := by
  induction s with
  | nil =>
    rw [body, flatMap_nil, nil_append, scan_quoted, if_neg (by decide), if_pos rfl]
    rfl
  | cons u s ih =>
    rw [body_cons, append_assoc, withoutComments_spells (h u mem_cons_self),
      ih fun v hv => h v (mem_cons_of_mem _ hv), Option.map_map]
    exact congrArg (Option.map · _) (funext fun left => by simp)

theorem uncommented_quoted {s : Written} (h : Spelled s) : Uncommented (quoted s) (quoted s) := by
  intro rest
  rw [quoted, cons_append, append_assoc, singleton_append, scan_plain (by decide),
    if_pos rfl, withoutComments_body h, Option.map_map]
  exact congrArg (Option.map · _) (funext fun left => by simp)

theorem uncommented_word {x : Json} (h : IsWord text x) : Uncommented text text := by
  cases h with
  | nullWord => exact .self (by simp)
  | trueWord => exact .self (by simp)
  | falseWord => exact .self (by simp)
  | number hchars =>
    refine .self fun c hc => ⟨?_, ?_⟩ <;> rintro rfl <;> exact absurd (hchars _ hc) (by decide)

mutual

/-- **The scanner takes out the comments of a document and nothing else.** -/
theorem uncommented_doc : ∀ {d : Doc}, d.Valid →
    Uncommented (d.textWith Gap.text) (d.textWith Gap.blank)
  | .word _ _, h => uncommented_word h
  | .string _, h => uncommented_quoted h
  | .array _ _, h =>
    ((uncommented_gap h.1).append (uncommented_items h.2)).cons (by decide) (by decide)
  | .object _ _, h =>
    ((uncommented_gap h.1).append (uncommented_members h.2)).cons (by decide) (by decide)

theorem uncommented_items : ∀ {items : Items}, items.Valid →
    Uncommented (items.textWith Gap.text) (items.textWith Gap.blank)
  | .done, _ => .self (by simp [Items.textWith])
  | .last _ _, h => (uncommented_doc h.1).append ((uncommented_gap h.2).append (.self (by simp)))
  | .more _ _ _ _, h =>
    (uncommented_doc h.1).append <| (uncommented_gap h.2.1).append <|
      ((uncommented_gap h.2.2.1).append (uncommented_items h.2.2.2)).cons (by decide) (by decide)

theorem uncommented_members : ∀ {members : Members}, members.Valid →
    Uncommented (members.textWith Gap.text) (members.textWith Gap.blank)
  | .done, _ => .self (by simp [Members.textWith])
  | .last _ _ _ _ _, ⟨hname, hbefore, hbehind, hd, hgap⟩ =>
    (uncommented_quoted hname).append <| (uncommented_gap hbefore).append <|
      ((uncommented_gap hbehind).append <| (uncommented_doc hd).append <|
        (uncommented_gap hgap).append (.self (by simp))).cons (by decide) (by decide)
  | .more _ _ _ _ _ _ _, ⟨hname, hbefore, hbehind, hd, hgap, hafter, hmembers⟩ =>
    (uncommented_quoted hname).append <| (uncommented_gap hbefore).append <|
      ((uncommented_gap hbehind).append <| (uncommented_doc hd).append <|
        (uncommented_gap hgap).append <|
          ((uncommented_gap hafter).append (uncommented_members hmembers)).cons (by decide)
            (by decide)).cons (by decide) (by decide)

end

end Comments

/-! ## Commas are dropped -/

section Commas

variable {c : Char} {rest text swept text' swept' blank : List Char} {gap : Gap} {skipping : Bool}

/-- A comma in front of the text is dropped: white space stands between it and a bracket. -/
theorem closes_iff : closes text = true ↔ ∃ spaces bracket after,
    text = spaces ++ bracket :: after ∧ spaces.all isSpace ∧ bracket ∈ ['}', ']'] := by
  constructor
  · intro h
    obtain ⟨bracket, hbracket, hcloses⟩ := (Option.any_eq_true _ _).mp h
    obtain ⟨after, hafter⟩ := List.head?_eq_some_iff.mp hbracket
    refine ⟨text.takeWhile isSpace, bracket, after, ?_, all_takeWhile, by
      simpa using hcloses⟩
    rw [← hafter, takeWhile_append_dropWhile]
  · rintro ⟨spaces, bracket, after, rfl, hspaces, hbracket⟩
    have hdrop : (spaces ++ bracket :: after).dropWhile isSpace = bracket :: after := by
      rw [dropWhile_append_of_pos (all_eq_true.mp hspaces), dropWhile_cons_of_neg]
      rcases mem_pair.mp hbracket with rfl | rfl <;> decide
    rw [closes, hdrop]
    simpa using hbracket

theorem closes_blank (h : ∀ c ∈ blank, isSpace c) : closes (blank ++ text) = closes text := by
  rw [closes, closes, dropWhile_append_of_pos h]

theorem closes_cons (h : isSpace c = false) :
    closes (c :: text) = decide (c = '}' ∨ c = ']') := by
  rw [closes, dropWhile_cons_of_neg (by simp [h])]
  rfl

/-- What follows a character that is no white space does not matter. -/
theorem closes_append (hc : isSpace c = false) (hbracket : c ∉ ['}', ']']) :
    closes (text ++ c :: rest) = closes text := by
  induction text with
  | nil =>
    rw [nil_append, closes_cons hc]
    exact decide_eq_false fun h => hbracket (mem_pair.mpr h)
  | cons d text ih =>
    cases hd : isSpace d with
    | true =>
      have hsplit : ∀ more : List Char, closes ([d] ++ more) = closes more := fun more =>
        closes_blank fun x hx => by rwa [mem_singleton.mp hx]
      exact (hsplit _).trans (ih.trans (hsplit text).symm)
    | false => rw [cons_append, closes_cons hd, closes_cons hd]

theorem isSpace_of_blank (h : gap.Valid) : ∀ c ∈ gap.blank, isSpace c := by
  intro c hc
  have hc := h.blank_space c hc
  simp only [mem_cons, not_mem_nil, or_false] at hc
  rcases hc with rfl | rfl | rfl | rfl <;> decide

theorem length_dropTrailingCommas (skipping : Bool) (text : List Char) :
    (dropTrailingCommas skipping text).length ≤ text.length := by
  induction text generalizing skipping with
  | nil => exact Nat.le_refl _
  | cons c text ih =>
    rw [dropTrailingCommas]
    split_ifs
    · exact Nat.le_succ_of_le (ih true)
    · exact Nat.le_succ_of_le (ih true)
    · exact Nat.succ_le_succ (ih false)

/-- A text that keeps its commas has none that is dropped. -/
theorem closes_of_dropTrailingCommas_eq {before after : List Char}
    (h : dropTrailingCommas false (before ++ ',' :: after) = before ++ ',' :: after) :
    closes after = false := by
  have hlength := length_dropTrailingCommas true
  induction before with
  | nil =>
    by_contra hcloses
    rw [nil_append, dropTrailingCommas, if_neg (by simp),
      if_pos ⟨rfl, Bool.eq_true_of_not_eq_false hcloses⟩] at h
    exact absurd (hlength after) (by rw [h, length_cons]; omega)
  | cons c before ih =>
    rw [cons_append, dropTrailingCommas, if_neg (by simp)] at h
    split_ifs at h with hc
    · exact absurd (hlength (before ++ ',' :: after)) (by rw [h, length_cons]; omega)
    · exact ih (List.cons.inj h).2

theorem dropTrailingCommas_blank (h : ∀ c ∈ blank, isSpace c) :
    dropTrailingCommas true (blank ++ text) = dropTrailingCommas true text := by
  induction blank with
  | nil => rfl
  | cons c blank ih =>
    rw [cons_append, dropTrailingCommas, if_pos ⟨rfl, h c mem_cons_self⟩]
    exact ih fun d hd => h d (mem_cons_of_mem _ hd)

theorem dropTrailingCommas_cons (hspace : isSpace c = false) (hcomma : c ≠ ',') :
    dropTrailingCommas skipping (c :: text) = c :: dropTrailingCommas false text := by
  rw [dropTrailingCommas, if_neg (by simp [hspace]), if_neg fun h => hcomma h.1]

/-- What may begin a value closes nothing and is no white space. -/
theorem inert_of_startsValue (h : startsValue c = true) :
    isSpace c = false ∧ c ∉ ['}', ']'] :=
  ⟨decide_eq_false (not_mem_of_startsValue h (by decide)), not_mem_of_startsValue h (by decide)⟩

/-- A piece of text in which every comma is dropped or kept whatever follows, and what is left. -/
def Swept (text swept : List Char) : Prop :=
  ∀ rest, dropTrailingCommas false (text ++ rest) = swept ++ dropTrailingCommas false rest

namespace Swept

theorem nil : Swept [] [] := fun _ => rfl

theorem append (h : Swept text swept) (h' : Swept text' swept') :
    Swept (text ++ text') (swept ++ swept') := by
  intro rest
  rw [append_assoc, h, h', append_assoc]

theorem cons (hcomma : c ≠ ',') (h : Swept text swept) : Swept (c :: text) (c :: swept) := by
  intro rest
  rw [cons_append, dropTrailingCommas, if_neg (by simp), if_neg fun hc => hcomma hc.1, h]
  rfl

theorem self : ∀ {text : List Char}, (∀ c ∈ text, c ≠ ',') → Swept text text
  | [], _ => nil
  | c :: _, h => (self fun d hd => h d (mem_cons_of_mem _ hd)).cons (h c mem_cons_self)

theorem ofGap (h : gap.Valid) : Swept gap.blank gap.blank :=
  .self fun c hc => by
    rintro rfl
    exact absurd (isSpace_of_blank h _ hc) (by decide)

/-- A comma stays in front of what closes nothing. -/
theorem comma (h : Swept text swept) (hgap : gap.Valid)
    (htext : ∃ c tail, text = c :: tail ∧ startsValue c = true) :
    Swept (',' :: (gap.blank ++ text)) (',' :: (gap.blank ++ swept)) := by
  intro rest
  have hcloses : closes (gap.blank ++ text ++ rest) = false := by
    obtain ⟨c, tail, rfl, hc⟩ := htext
    obtain ⟨hspace, hbracket⟩ := inert_of_startsValue hc
    rw [append_assoc, cons_append, closes_blank (isSpace_of_blank hgap),
      closes_cons hspace]
    exact decide_eq_false fun h => hbracket (mem_pair.mpr h)
  have hkept : ¬ (',' = ',' ∧ closes (gap.blank ++ text ++ rest) = true) := fun h =>
    absurd h.2 (by rw [hcloses]; decide)
  rw [cons_append, dropTrailingCommas, if_neg (by simp), if_neg hkept,
    (ofGap hgap).append h]
  rfl

/-- A comma in front of a bracket is dropped, with the white space between them. -/
theorem trailing {bracket : Char} (hgap : gap.Valid) (hbracket : bracket ∈ ['}', ']']) :
    Swept (',' :: (gap.blank ++ [bracket])) [bracket] := by
  intro rest
  have hspace : isSpace bracket = false ∧ bracket ≠ ',' := by
    rcases mem_pair.mp hbracket with rfl | rfl <;> decide
  have hcloses : closes (gap.blank ++ [bracket] ++ rest) = true := by
    rw [append_assoc, closes_blank (isSpace_of_blank hgap), singleton_append,
      closes_cons hspace.1]
    simpa using hbracket
  rw [cons_append, dropTrailingCommas, if_neg (by simp), if_pos ⟨rfl, hcloses⟩,
    append_assoc, dropTrailingCommas_blank (isSpace_of_blank hgap), singleton_append,
    dropTrailingCommas_cons hspace.1 hspace.2]
  rfl

end Swept

end Commas

/-! ## What is left of a document -/

/-- A string after the regular expression went over it. -/
def settleString : Bool → Written → Written
  | _, [] => []
  | skipping, u :: s =>
    if skipping ∧ u.1.all isSpace then settleString true s
    else if u.1 = [','] ∧ closes (body s) then settleString true s
    else u :: settleString false s

mutual

/-- A document after the regular expression went over it. -/
def settle : Doc → Doc
  | .word text x => .word text x
  | .string s => .string (settleString false s)
  | .array inner items => .array inner (settleItems items)
  | .object inner members => .object inner (settleMembers members)

def settleItems : Items → Items
  | .done => .done
  | .last d gap => .last (settle d) gap
  | .more d gap _ .done => .last (settle d) gap
  | .more d gap after rest => .more (settle d) gap after (settleItems rest)

def settleMembers : Members → Members
  | .done => .done
  | .last name before behind d gap => .last (settleString false name) before behind (settle d) gap
  | .more name before behind d gap _ .done =>
    .last (settleString false name) before behind (settle d) gap
  | .more name before behind d gap after rest =>
    .more (settleString false name) before behind (settle d) gap after (settleMembers rest)

end

section Settle

variable {text : List Char} {c : Char} {x : Json} {s : Written}

theorem settleString_sublist (skipping : Bool) (s : Written) :
    (settleString skipping s).Sublist s := by
  induction s generalizing skipping with
  | nil => exact List.Sublist.refl _
  | cons u s ih =>
    rw [settleString]
    split_ifs
    · exact (ih true).cons u
    · exact (ih true).cons u
    · exact (ih false).cons_cons u

theorem spelled_settleString (h : Spelled s) : Spelled (settleString false s) :=
  fun u hu => h u ((settleString_sublist false s).subset hu)

/-- A character is written as itself or begins with a backslash, and an escape has no comma. -/
theorem spells_cases (h : Spells text c) :
    text = [c] ∧ c ≠ '"' ∨ ∃ tail, text = '\\' :: tail ∧ ∀ d ∈ tail, d ≠ ',' := by
  cases h with
  | plain hquote => exact .inl ⟨rfl, hquote⟩
  | @short _ letter h =>
    refine .inr ⟨[letter], rfl, fun d hd => ?_⟩
    rw [mem_singleton.mp hd]
    rintro rfl
    revert h
    simp [Json.shortEscapes]
  | @unit digits n hdigits =>
    refine .inr ⟨_, rfl, fun d hd => ?_⟩
    rcases mem_cons.mp hd with rfl | hd
    · decide
    · exact (digits_inert hdigits d hd).2.2
  | @pair high low m n hhigh _ hlow =>
    refine .inr ⟨_, rfl, fun d hd => ?_⟩
    simp only [mem_cons, mem_append] at hd
    rcases hd with rfl | hd | rfl | rfl | hd
    · decide
    · exact (digits_inert hhigh d hd).2.2
    · decide
    · decide
    · exact (digits_inert hlow d hd).2.2

/-- **What the regular expression does to a string**, which it takes for any other text. -/
theorem dropTrailingCommas_body (h : Spelled s) (skipping : Bool) (rest : List Char) :
    dropTrailingCommas skipping (body s ++ '"' :: rest) =
      body (settleString skipping s) ++ '"' :: dropTrailingCommas false rest := by
  induction s generalizing skipping with
  | nil => exact dropTrailingCommas_cons (by decide) (by decide)
  | cons u s ih =>
    have ih := ih fun v hv => h v (mem_cons_of_mem _ hv)
    obtain ⟨text, c⟩ := u
    have hcloses : closes (body s ++ '"' :: rest) = closes (body s) :=
      closes_append (by decide) (by decide)
    rw [body_cons, settleString]
    rcases spells_cases (h _ mem_cons_self) with ⟨htext, -⟩ | ⟨tail, htext, htail⟩
    · simp only at htext
      subst htext
      simp only [cons_append, nil_append, dropTrailingCommas, hcloses,
        all_cons, all_nil, Bool.and_true, List.cons.injEq, and_true]
      split_ifs
      · exact ih true
      · exact ih true
      · rw [ih false, body_cons]
        rfl
    · simp only at htext
      subst htext
      have hall : ('\\' :: tail).all isSpace = false := by
        rw [all_cons, show isSpace '\\' = false by decide, Bool.false_and]
      rw [if_neg (by simp [hall]), if_neg (by simp), body_cons, cons_append, cons_append,
        dropTrailingCommas_cons (by decide) (by decide), append_assoc, Swept.self htail,
        ih false, cons_append, cons_append, append_assoc]

theorem swept_quoted (h : Spelled s) : Swept (quoted s) (quoted (settleString false s)) := by
  intro rest
  rw [quoted, cons_append, append_assoc, singleton_append,
    dropTrailingCommas_cons (by decide) (by decide), dropTrailingCommas_body h, quoted,
    cons_append, append_assoc, singleton_append]

theorem swept_word (h : IsWord text x) : Swept text text := by
  cases h with
  | nullWord => exact .self (by simp)
  | trueWord => exact .self (by simp)
  | falseWord => exact .self (by simp)
  | number hchars =>
    refine .self fun c hc => ?_
    rintro rfl
    exact absurd (hchars _ hc) (by decide)

mutual

theorem swept_doc : ∀ {d : Doc}, d.Valid →
    Swept (d.textWith Gap.blank) ((settle d).textWith Gap.blank)
  | .word _ _, h => swept_word h
  | .string _, h => swept_quoted h
  | .array _ _, h => ((Swept.ofGap h.1).append (swept_items h.2)).cons (by decide)
  | .object _ _, h => ((Swept.ofGap h.1).append (swept_members h.2)).cons (by decide)

theorem swept_items : ∀ {items : Items}, items.Valid →
    Swept (items.textWith Gap.blank) ((settleItems items).textWith Gap.blank)
  | .done, _ => .self (by simp [Items.textWith])
  | .last _ _, h => (swept_doc h.1).append ((Swept.ofGap h.2).append (.self (by simp)))
  | .more _ _ _ .done, h =>
    (swept_doc h.1).append ((Swept.ofGap h.2.1).append (.trailing h.2.2.1 (by decide)))
  | .more _ _ _ (.last d gap), ⟨hd, hgap, hafter, hrest⟩ =>
    (swept_doc hd).append <| (Swept.ofGap hgap).append <|
      .comma (@swept_items (.last d gap) hrest) hafter (Items.head Gap.blank (by simp) hrest)
  | .more _ _ _ (.more d gap after rest), ⟨hd, hgap, hafter, hrest⟩ =>
    (swept_doc hd).append <| (Swept.ofGap hgap).append <|
      .comma (@swept_items (.more d gap after rest) hrest) hafter
        (Items.head Gap.blank (by simp) hrest)

theorem swept_members : ∀ {members : Members}, members.Valid →
    Swept (members.textWith Gap.blank) ((settleMembers members).textWith Gap.blank)
  | .done, _ => .self (by simp [Members.textWith])
  | .last _ _ _ _ _, ⟨hname, hbefore, hbehind, hd, hgap⟩ =>
    (swept_quoted hname).append <| (Swept.ofGap hbefore).append <|
      ((Swept.ofGap hbehind).append <| (swept_doc hd).append <|
        (Swept.ofGap hgap).append (.self (by simp))).cons (by decide)
  | .more _ _ _ _ _ _ .done, ⟨hname, hbefore, hbehind, hd, hgap, hafter, _⟩ =>
    (swept_quoted hname).append <| (Swept.ofGap hbefore).append <|
      ((Swept.ofGap hbehind).append <| (swept_doc hd).append <|
        (Swept.ofGap hgap).append (.trailing hafter (by decide))).cons (by decide)
  | .more _ _ _ _ _ _ (.last _ _ _ _ _), ⟨hname, hbefore, hbehind, hd, hgap, hafter, hrest⟩ =>
    (swept_quoted hname).append <| (Swept.ofGap hbefore).append <|
      ((Swept.ofGap hbehind).append <| (swept_doc hd).append <|
        (Swept.ofGap hgap).append <| .comma (swept_members hrest) hafter
          ⟨_, _, rfl, by decide⟩).cons (by decide)
  | .more _ _ _ _ _ _ (.more _ _ _ _ _ _ _), ⟨hname, hbefore, hbehind, hd, hgap, hafter, hrest⟩ =>
    (swept_quoted hname).append <| (Swept.ofGap hbefore).append <|
      ((Swept.ofGap hbehind).append <| (swept_doc hd).append <|
        (Swept.ofGap hgap).append <| .comma (swept_members hrest) hafter
          ⟨_, _, rfl, by decide⟩).cons (by decide)

end

mutual

theorem valid_settle : ∀ {d : Doc}, d.Valid → (settle d).Valid
  | .word _ _, h => h
  | .string _, h => spelled_settleString h
  | .array _ _, h => ⟨h.1, valid_settleItems h.2⟩
  | .object _ _, h => ⟨h.1, valid_settleMembers h.2⟩

theorem valid_settleItems : ∀ {items : Items}, items.Valid → (settleItems items).Valid
  | .done, _ => trivial
  | .last _ _, h => ⟨valid_settle h.1, h.2⟩
  | .more _ _ _ .done, h => ⟨valid_settle h.1, h.2.1⟩
  | .more _ _ _ (.last _ _), h => ⟨valid_settle h.1, h.2.1, h.2.2.1, valid_settleItems h.2.2.2⟩
  | .more _ _ _ (.more _ _ _ _), h =>
    ⟨valid_settle h.1, h.2.1, h.2.2.1, valid_settleItems h.2.2.2⟩

theorem valid_settleMembers : ∀ {members : Members}, members.Valid → (settleMembers members).Valid
  | .done, _ => trivial
  | .last _ _ _ _ _, ⟨hname, hbefore, hbehind, hd, hgap⟩ =>
    ⟨spelled_settleString hname, hbefore, hbehind, valid_settle hd, hgap⟩
  | .more _ _ _ _ _ _ .done, ⟨hname, hbefore, hbehind, hd, hgap, _, _⟩ =>
    ⟨spelled_settleString hname, hbefore, hbehind, valid_settle hd, hgap⟩
  | .more _ _ _ _ _ _ (.last _ _ _ _ _), ⟨hname, hbefore, hbehind, hd, hgap, hafter, hrest⟩ =>
    ⟨spelled_settleString hname, hbefore, hbehind, valid_settle hd, hgap, hafter,
      valid_settleMembers hrest⟩
  | .more _ _ _ _ _ _ (.more _ _ _ _ _ _ _), ⟨hname, hbefore, hbehind, hd, hgap, hafter, hrest⟩ =>
    ⟨spelled_settleString hname, hbefore, hbehind, valid_settle hd, hgap, hafter,
      valid_settleMembers hrest⟩

end

mutual

/-- No comma is left over. -/
theorem strict_settle : ∀ d : Doc, (settle d).Strict
  | .word _ _ => trivial
  | .string _ => trivial
  | .array _ items => strict_settleItems items
  | .object _ members => strict_settleMembers members

theorem strict_settleItems : ∀ items : Items, (settleItems items).Strict
  | .done => trivial
  | .last d _ => strict_settle d
  | .more d _ _ .done => strict_settle d
  | .more d _ _ (.last d' gap) =>
    ⟨strict_settle d, Items.noConfusion, strict_settleItems (.last d' gap)⟩
  | .more d _ _ (.more d' gap after rest) =>
    ⟨strict_settle d, by cases rest <;> exact Items.noConfusion,
      strict_settleItems (.more d' gap after rest)⟩

theorem strict_settleMembers : ∀ members : Members, (settleMembers members).Strict
  | .done => trivial
  | .last _ _ _ d _ => strict_settle d
  | .more _ _ _ d _ _ .done => strict_settle d
  | .more _ _ _ d _ _ (.last name before behind d' gap) =>
    ⟨strict_settle d, Members.noConfusion, strict_settleMembers (.last name before behind d' gap)⟩
  | .more _ _ _ d _ _ (.more name before behind d' gap after rest) =>
    ⟨strict_settle d, by cases rest <;> exact Members.noConfusion,
      strict_settleMembers (.more name before behind d' gap after rest)⟩

end

end Settle

/-! ## Which documents come back -/

/-- Nowhere in the string as it is written does a comma stand before white space and a closing
bracket. -/
def IntactString (s : Written) : Prop :=
  ¬ ∃ before spaces bracket after, body s = before ++ ',' :: (spaces ++ bracket :: after) ∧
    spaces.all isSpace ∧ bracket ∈ ['}', ']']

mutual

/-- The strings of a document, names of members included, are intact. -/
def Intact : Doc → Prop
  | .word _ _ => True
  | .string s => IntactString s
  | .array _ items => IntactItems items
  | .object _ members => IntactMembers members

def IntactItems : Items → Prop
  | .done => True
  | .last d _ => Intact d
  | .more d _ _ rest => Intact d ∧ IntactItems rest

def IntactMembers : Members → Prop
  | .done => True
  | .last name _ _ d _ => IntactString name ∧ Intact d
  | .more name _ _ d _ _ rest => IntactString name ∧ Intact d ∧ IntactMembers rest

end

section Values

variable {s : Written}

theorem intactString_iff :
    IntactString s ↔ ∀ before after, body s = before ++ ',' :: after → closes after = false := by
  constructor
  · intro h before after hbody
    by_contra hcloses
    obtain ⟨spaces, bracket, left, rfl, hspaces, hbracket⟩ :=
      closes_iff.mp (Bool.eq_true_of_not_eq_false hcloses)
    exact h ⟨before, spaces, bracket, left, hbody, hspaces, hbracket⟩
  · rintro h ⟨before, spaces, bracket, after, hbody, hspaces, hbracket⟩
    have hcloses := closes_iff.mpr ⟨spaces, bracket, after, rfl, hspaces, hbracket⟩
    exact absurd (h before _ hbody) (by rw [hcloses]; decide)

theorem settleString_eq_self
    (h : ∀ before after, body s = before ++ ',' :: after → closes after = false) :
    settleString false s = s := by
  induction s with
  | nil => rfl
  | cons u s ih =>
    rw [settleString, if_neg (by simp), if_neg]
    · exact congrArg (u :: ·) <| ih fun before after hbody =>
        h (u.1 ++ before) after (by rw [body_cons, hbody, append_assoc])
    · rintro ⟨hu, hcloses⟩
      exact absurd (h [] (body s) (by rw [body_cons, hu]; rfl)) (by rw [hcloses]; decide)

/-- **A string comes back exactly when it is intact.** -/
theorem content_settleString_eq_iff (h : Spelled s) :
    content (settleString false s) = content s ↔ IntactString s := by
  rw [intactString_iff]
  constructor
  · intro hcontent before after hbody
    have hlength := congrArg List.length (String.ofList_injective hcontent)
    rw [length_map, length_map] at hlength
    have hself := (settleString_sublist false s).eq_of_length hlength
    have hkept := dropTrailingCommas_body h false []
    rw [hself, hbody, dropTrailingCommas, append_assoc, cons_append] at hkept
    have hcloses : closes (after ++ '"' :: []) = closes after :=
      closes_append (by decide) (by decide)
    exact hcloses.symm.trans (closes_of_dropTrailingCommas_eq hkept)
  · exact fun hintact => by rw [settleString_eq_self hintact]

theorem values_settleItems_more (d : Doc) (gap after : Gap) (rest : Items) :
    (settleItems (.more d gap after rest)).values =
      (settle d).value :: (settleItems rest).values := by
  cases rest <;> rfl

theorem values_settleMembers_more (name : Written) (before behind : Gap) (d : Doc)
    (gap after : Gap) (rest : Members) :
    (settleMembers (.more name before behind d gap after rest)).values =
      (content (settleString false name), (settle d).value) :: (settleMembers rest).values := by
  cases rest <;> rfl

theorem length_values_settleMembers :
    ∀ members : Members, (settleMembers members).values.length = members.values.length
  | .done => rfl
  | .last _ _ _ _ _ => rfl
  | .more _ _ _ _ _ _ rest => by
    rw [values_settleMembers_more, Members.values, length_cons, length_cons,
      length_values_settleMembers rest]

mutual

/-- **A value comes back exactly when its strings are intact.** -/
theorem value_settle_eq_iff : ∀ {d : Doc}, d.Valid → d.Distinct →
    ((settle d).value = d.value ↔ Intact d)
  | .word _ _, _, _ => iff_of_true rfl trivial
  | .string s, h, _ => by
    rw [settle, Doc.value, Doc.value, Json.str.injEq]
    exact content_settleString_eq_iff h
  | .array _ items, h, hdistinct => by
    rw [settle, Doc.value, Doc.value, Json.arr.injEq]
    exact values_settleItems_eq_iff h.2 hdistinct
  | .object _ members, h, hdistinct => by
    rw [settle, Doc.value, Doc.value, Json.obj.injEq, Json.distinct_eq_self hdistinct.1]
    refine Iff.trans ⟨fun hvalues => ?_, fun hvalues => ?_⟩
      (values_settleMembers_eq_iff h.2 hdistinct.2)
    · rw [Json.distinct_eq_of_length] at hvalues
      · exact hvalues
      · rw [hvalues, length_values_settleMembers]
    · rw [hvalues, Json.distinct_eq_self hdistinct.1]

theorem values_settleItems_eq_iff : ∀ {items : Items}, items.Valid → items.Distinct →
    ((settleItems items).values = items.values ↔ IntactItems items)
  | .done, _, _ => iff_of_true rfl trivial
  | .last d _, h, hdistinct => by
    rw [settleItems, Items.values, Items.values, List.cons.injEq, value_settle_eq_iff h.1 hdistinct]
    exact and_iff_left rfl
  | .more d _ _ rest, ⟨hd, _, _, hrest⟩, hdistinct => by
    rw [values_settleItems_more, Items.values, List.cons.injEq, value_settle_eq_iff hd hdistinct.1,
      values_settleItems_eq_iff hrest hdistinct.2]
    exact Iff.rfl

theorem values_settleMembers_eq_iff : ∀ {members : Members}, members.Valid → members.Distinct →
    ((settleMembers members).values = members.values ↔ IntactMembers members)
  | .done, _, _ => iff_of_true rfl trivial
  | .last name _ _ d _, ⟨hname, _, _, hd, _⟩, hdistinct => by
    rw [settleMembers, Members.values, Members.values, List.cons.injEq, Prod.mk.injEq,
      content_settleString_eq_iff hname, value_settle_eq_iff hd hdistinct]
    exact and_iff_left rfl
  | .more name _ _ d _ _ rest, ⟨hname, _, _, hd, _, _, hrest⟩, hdistinct => by
    rw [values_settleMembers_more, Members.values, List.cons.injEq, Prod.mk.injEq,
      content_settleString_eq_iff hname, value_settle_eq_iff hd hdistinct.1,
      values_settleMembers_eq_iff hrest hdistinct.2]
    exact and_assoc

end

end Values

/-- A JSON object with comments, white space and commas behind last elements put in. -/
structure Document where
  before : Gap
  inner : Gap
  members : Members
  after : Gap
  /-- The line comment that ends with the text, if there is one. -/
  comment : Option (List Char)
  before_valid : before.Valid
  object_valid : (Doc.object inner members).Valid
  after_valid : after.Valid
  comment_valid : ∀ body ∈ comment, ∀ c ∈ body, c ∉ ['\r', '\n']
  distinct : (Doc.object inner members).Distinct

namespace Document

variable (document : Document)

def object : Doc := .object document.inner document.members

def text : List Char :=
  document.before.text ++ (document.object.textWith Gap.text ++ (document.after.text ++
    (document.comment.elim [] fun body => '/' :: '/' :: body)))

/-- The object that is written. -/
def value : JsonObject := document.members.values

theorem valid : document.object.Valid := document.object_valid

theorem value_object : document.object.value = .obj document.value := by
  rw [object, Doc.value, Json.distinct_eq_self document.distinct.1]
  rfl

theorem withoutComments_comment {comment : Option (List Char)}
    (h : ∀ body ∈ comment, ∀ c ∈ body, c ∉ ['\r', '\n']) :
    withoutComments .plain (comment.elim [] fun body => '/' :: '/' :: body) = some [] := by
  cases comment with
  | none => rfl
  | some body => exact withoutComments_line_end (h body rfl)

theorem withoutComments_text : withoutComments .plain document.text = some (document.before.blank ++
      (document.object.textWith Gap.blank ++ document.after.blank)) := by
  rw [text, uncommented_gap document.before_valid, uncommented_doc document.valid,
    uncommented_gap document.after_valid, withoutComments_comment document.comment_valid]
  simp

theorem dropTrailingCommas_text : dropTrailingCommas false
    (document.before.blank ++ (document.object.textWith Gap.blank ++ document.after.blank)) =
      document.before.blank ++ ((settle document.object).textWith Gap.blank ++
        document.after.blank) := by
  have hafter := Swept.ofGap document.after_valid []
  rw [append_nil, dropTrailingCommas, append_nil] at hafter
  rw [Swept.ofGap document.before_valid, swept_doc document.valid, hafter]

/-- What is read is the document after the regular expression went over it. -/
theorem jsonc_text :
    jsonc document.text = .ok (Json.distinct (settleMembers document.members).values) := by
  have hloads := loads_text document.before_valid (valid_settle document.valid)
    (strict_settle document.object) document.after_valid
  rw [jsonc, withoutComments_text]
  simp only [dropTrailingCommas_text, hloads]
  rfl

/-- **An object is read back through comments, white space and trailing commas exactly when no
string of it holds a comma with a closing bracket behind it.** -/
theorem jsonc_eq_iff : jsonc document.text = .ok document.value ↔ Intact document.object := by
  rw [jsonc_text, Except.ok.injEq, ← Json.obj.injEq, ← value_object]
  exact value_settle_eq_iff document.valid document.distinct

/-- The text as it is, character by character. -/
def plainly (s : List Char) : Written := s.map fun c => ([c], c)

theorem spelled_plainly {s : List Char}
    (hs : s.all fun c => c ≠ '"' ∧ c ≠ '\\' ∧ 32 ≤ c.toNat) : Spelled (plainly s) := by
  intro u hu
  obtain ⟨c, hc, rfl⟩ := mem_map.mp hu
  have hc := of_decide_eq_true (all_eq_true.mp hs c hc)
  exact .plain hc.1 hc.2.1 hc.2.2

/-- `"image": "x, ]"` -/
def image : Members :=
  .last (plainly "image".toList) [] [.space ' '] (.string (plainly "x, ]".toList)) []

theorem image_valid : (Doc.object [] image).Valid := by
  have hnone : Gap.Valid [] := fun _ h => absurd h not_mem_nil
  refine ⟨hnone, spelled_plainly (by decide), hnone, fun f hf => ?_, spelled_plainly (by decide),
    hnone⟩
  rw [mem_singleton.mp hf]
  exact mem_cons_self

theorem image_distinct : (Doc.object [] image).Distinct :=
  ⟨nodup_singleton _, trivial⟩

/-- `{"image": "x, ]"}` -/
def commaBeforeBracket : Document where
  before := []
  inner := []
  members := image
  after := []
  comment := none
  before_valid := fun _ h => absurd h not_mem_nil
  object_valid := image_valid
  after_valid := fun _ h => absurd h not_mem_nil
  comment_valid := fun _ h => absurd h (Option.not_mem_none _)
  distinct := image_distinct

/-- The string loses its comma and its space. -/
theorem commaBeforeBracket_altered :
    commaBeforeBracket.text = "\x7b\"image\": \"x, ]\"\x7d".toList ∧
      commaBeforeBracket.value = [("image", .str "x, ]")] ∧
      jsonc commaBeforeBracket.text = .ok [("image", .str "x]")] ∧
      jsonc commaBeforeBracket.text ≠ .ok commaBeforeBracket.value :=
  ⟨rfl, rfl, rfl, fun h => absurd (Except.ok.inj h) (by decide)⟩

end Document

end Jsonc

end Mishkan

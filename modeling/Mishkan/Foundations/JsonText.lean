import Mathlib.Data.List.Infix
import Mathlib.Tactic.IntervalCases
import Mishkan.Foundations.Json

/-!
# Foundations/JsonText — JSON values as text, written and read

`render` writes a value; a `Style` says which separators it uses and whether characters outside
printable ASCII are written as escapes.  `loads` reads a text.  A string of a value stands in the
text as its *escape*, so a text shows a string as it is only when the escape of it does:
`escape_infix_render`.
-/

/-- How a writer lays a value out. -/
structure JsonStyle where
  /-- Write every character outside printable ASCII as an escape. -/
  ascii : Bool
  /-- What stands behind the comma of a list and the colon of a member. -/
  padding : List Char
  /-- Write the members of an object in the order of their names. -/
  sortKeys : Bool

namespace Json

open List

/-! ## Strings -/

/-- A hexadecimal digit, in lower case. -/
def hexDigit (n : Nat) : Char := if n < 10 then Char.ofNat (48 + n) else Char.ofNat (87 + n)

/-- `\uXXXX`. -/
def escapeUnit (n : Nat) : List Char :=
  ['\\', 'u', hexDigit (n / 4096 % 16), hexDigit (n / 256 % 16), hexDigit (n / 16 % 16),
    hexDigit (n % 16)]

/-- The characters with an escape of their own, and its letter. -/
def shortEscapes : List (Char × Char) :=
  [('"', '"'), ('\\', '\\'), ('\n', 'n'), ('\r', 'r'), ('\t', 't'), ('\x08', 'b'), ('\x0c', 'f')]

/-- A character as it stands inside a string. -/
def escapeChar (ascii : Bool) (c : Char) : List Char :=
  match shortEscapes.lookup c with
  | some letter => ['\\', letter]
  | none =>
    if c.toNat < 32 then escapeUnit c.toNat
    else if ascii ∧ 126 < c.toNat then
      if c.toNat < 65536 then escapeUnit c.toNat
      else
        escapeUnit (55296 + (c.toNat - 65536) / 1024) ++
          escapeUnit (56320 + (c.toNat - 65536) % 1024)
    else [c]

/-- A string as it stands between its quotation marks. -/
def escape (ascii : Bool) (s : List Char) : List Char := s.flatMap (escapeChar ascii)

/-- A string with its quotation marks. -/
def quote (ascii : Bool) (s : String) : List Char := '"' :: escape ascii s.toList ++ ['"']

/-! ## Writing -/

/-- A decimal fraction. -/
def decimalText (mantissa : Int) (scale : Nat) : List Char :=
  let digits := Nat.toDigits 10 mantissa.natAbs
  let padded := List.replicate (scale + 1 - digits.length) '0' ++ digits
  let whole := padded.take (padded.length - scale)
  let fraction := padded.drop (padded.length - scale)
  (if mantissa < 0 then ['-'] else []) ++ whole ++ '.' :: (if scale = 0 then ['0'] else fraction)

mutual

/-- The text of a value, its members in the order they have. -/
def render (style : JsonStyle) : Json → List Char
  | null => ['n', 'u', 'l', 'l']
  | bool true => ['t', 'r', 'u', 'e']
  | bool false => ['f', 'a', 'l', 's', 'e']
  | int n => (toString n).toList
  | decimal mantissa scale => decimalText mantissa scale
  | str s => quote style.ascii s
  | arr [] => ['[', ']']
  | arr (x :: xs) => '[' :: (render style x ++ renderItems style xs)
  | obj [] => ['{', '}']
  | obj ((name, x) :: ms) =>
    '{' :: (quote style.ascii name ++ ':' :: (style.padding ++ (render style x ++
      renderMembers style ms)))

/-- The items of a list behind the first, and its end. -/
def renderItems (style : JsonStyle) : List Json → List Char
  | [] => [']']
  | x :: xs => ',' :: (style.padding ++ (render style x ++ renderItems style xs))

/-- The members of an object behind the first, and its end. -/
def renderMembers (style : JsonStyle) : List (String × Json) → List Char
  | [] => ['}']
  | (name, x) :: ms =>
    ',' :: (style.padding ++ (quote style.ascii name ++ ':' :: (style.padding ++
      (render style x ++ renderMembers style ms))))

end

/-- The text of a value. -/
def dumps (style : JsonStyle) (x : Json) : List Char :=
  render style (if style.sortKeys then x.canonical else x)

/-! ## Reading -/

/-- The text behind its white space. -/
def skip (text : List Char) : List Char := text.dropWhile (· ∈ [' ', '\n', '\r', '\t'])

/-- The value of a hexadecimal digit. -/
def hexValue (c : Char) : Option Nat :=
  if '0' ≤ c ∧ c ≤ '9' then some (c.toNat - 48)
  else if 'a' ≤ c ∧ c ≤ 'f' then some (c.toNat - 87)
  else if 'A' ≤ c ∧ c ≤ 'F' then some (c.toNat - 55)
  else none

/-- The number behind `\u`. -/
def readUnit : List Char → Option (Nat × List Char)
  | a :: b :: c :: d :: rest => do
    let a ← hexValue a
    let b ← hexValue b
    let c ← hexValue c
    let d ← hexValue d
    some (((a * 16 + b) * 16 + c) * 16 + d, rest)
  | _ => none

/-- The character behind `\u`: a pair of surrogates is one character, a lone one none. -/
def readUnicode (text : List Char) : Option (Char × List Char) := do
  let (high, rest) ← readUnit text
  if 55296 ≤ high ∧ high < 56320 then
    match rest with
    | '\\' :: 'u' :: more => do
      let (low, more) ← readUnit more
      if 56320 ≤ low ∧ low < 57344 then
        some (Char.ofNat (65536 + (high - 55296) * 1024 + (low - 56320)), more)
      else some ('\ufffd', rest)
    | _ => some ('\ufffd', rest)
  else some (if high.isValidChar then Char.ofNat high else '\ufffd', rest)

/-- The next character of a string. -/
def readChar : List Char → Option (Char × List Char)
  | '\\' :: letter :: rest =>
    if letter = 'u' then readUnicode rest
    else if letter = '/' then some ('/', rest)
    else (shortEscapes.find? (·.2 = letter)).map fun p => (p.1, rest)
  | c :: rest => if c = '\\' ∨ c.toNat < 32 then none else some (c, rest)
  | [] => none

/-- A string up to its closing quotation mark. -/
def readString : Nat → List Char → Option (List Char × List Char)
  | 0, _ => none
  | _ + 1, '"' :: rest => some ([], rest)
  | fuel + 1, text => do
    let (c, rest) ← readChar text
    let (s, rest) ← readString fuel rest
    some (c :: s, rest)

/-- The digits at the front of a text. -/
def readDigits (text : List Char) : Option (List Char × List Char) :=
  let digits := text.takeWhile Char.isDigit
  if digits = [] then none else some (digits, text.drop digits.length)

/-- The number a list of digits stands for. -/
def ofDigits (digits : List Char) : Nat := digits.foldl (fun n c => n * 10 + (c.toNat - 48)) 0

/-- The fraction at the front of a text. -/
def fractionOf (text : List Char) : List Char × List Char :=
  match text with
  | '.' :: more => (readDigits more).getD ([], text)
  | _ => ([], text)

/-- The exponent at the front of a text, and whether it is negative. -/
def exponentOf (text : List Char) : Option (Bool × List Char × List Char) :=
  match text with
  | e :: '-' :: more =>
    if e = 'e' ∨ e = 'E' then (readDigits more).map (true, ·) else none
  | e :: '+' :: more =>
    if e = 'e' ∨ e = 'E' then (readDigits more).map (false, ·) else none
  | e :: more => if e = 'e' ∨ e = 'E' then (readDigits more).map (false, ·) else none
  | [] => none

/-- The number its parts stand for. -/
def numberOf (negative : Bool) (whole fraction : List Char)
    (exponent : Option (Bool × List Char)) : Json :=
  let signed : Nat → Int := fun n => if negative then -(n : Int) else n
  match exponent with
  | some (true, digits) =>
    .decimal (signed (ofDigits (whole ++ fraction))) (fraction.length + ofDigits digits)
  | some (false, digits) =>
    .decimal (signed (ofDigits (whole ++ fraction) * 10 ^ ofDigits digits)) fraction.length
  | none =>
    if fraction = [] then .int (signed (ofDigits whole))
    else .decimal (signed (ofDigits (whole ++ fraction))) fraction.length

/-- A number: its sign, its whole part, and its fraction and exponent when it has them. -/
def readNumber (text : List Char) : Option (Json × List Char) := do
  let negative := text.head? = some '-'
  let (whole, rest) ← readDigits (if negative then text.drop 1 else text)
  if whole.head? = some '0' ∧ whole ≠ ['0'] then none
  let (fraction, rest) := fractionOf rest
  let exponent := exponentOf rest
  some (numberOf negative whole fraction (exponent.map fun e => (e.1, e.2.1)),
    (exponent.map fun e => e.2.2).getD rest)

/-- The members of a decoded object: of two with one name the last, where the first stood. -/
def distinct : List (String × Json) → List (String × Json)
  | [] => []
  | (name, x) :: ms =>
    match (distinct ms).find? (·.1 = name) with
    | some (_, last) => (name, last) :: (distinct ms).filter (·.1 ≠ name)
    | none => (name, x) :: distinct ms

mutual

/-- A value at the front of a text. -/
def readValue : Nat → List Char → Option (Json × List Char)
  | 0, _ => none
  | fuel + 1, text =>
    match skip text with
    | 'n' :: 'u' :: 'l' :: 'l' :: rest => some (.null, rest)
    | 't' :: 'r' :: 'u' :: 'e' :: rest => some (.bool true, rest)
    | 'f' :: 'a' :: 'l' :: 's' :: 'e' :: rest => some (.bool false, rest)
    | '"' :: rest => (readString fuel rest).map fun p => (.str (String.ofList p.1), p.2)
    | '[' :: rest =>
      match skip rest with
      | ']' :: rest => some (.arr [], rest)
      | rest => do
        let (x, rest) ← readValue fuel rest
        let (xs, rest) ← readItems fuel rest
        some (.arr (x :: xs), rest)
    | '{' :: rest =>
      match skip rest with
      | '}' :: rest => some (.obj [], rest)
      | rest => do
        let (m, rest) ← readMember fuel rest
        let (ms, rest) ← readMembers fuel rest
        some (.obj (distinct (m :: ms)), rest)
    | rest => readNumber rest

/-- The items of a list behind the first, and its end. -/
def readItems : Nat → List Char → Option (List Json × List Char)
  | 0, _ => none
  | fuel + 1, text =>
    match skip text with
    | ']' :: rest => some ([], rest)
    | ',' :: rest => do
      let (x, rest) ← readValue fuel rest
      let (xs, rest) ← readItems fuel rest
      some (x :: xs, rest)
    | _ => none

/-- A member of an object. -/
def readMember : Nat → List Char → Option ((String × Json) × List Char)
  | 0, _ => none
  | fuel + 1, text =>
    match skip text with
    | '"' :: rest => do
      let (name, rest) ← readString fuel rest
      match skip rest with
      | ':' :: rest => do
        let (x, rest) ← readValue fuel rest
        some ((String.ofList name, x), rest)
      | _ => none
    | _ => none

/-- The members of an object behind the first, and its end. -/
def readMembers : Nat → List Char → Option (List (String × Json) × List Char)
  | 0, _ => none
  | fuel + 1, text =>
    match skip text with
    | '}' :: rest => some ([], rest)
    | ',' :: rest => do
      let (m, rest) ← readMember fuel rest
      let (ms, rest) ← readMembers fuel rest
      some (m :: ms, rest)
    | _ => none

end

/-- The value a text is. -/
def loads (text : List Char) : Option Json :=
  match readValue (text.length + 1) text with
  | some (x, rest) => if skip rest = [] then some x else none
  | none => none

/-! ## A string is read back -/

section Strings

variable {ascii : Bool} {c : Char} {s rest : List Char}

theorem hexValue_hexDigit {n : Nat} (h : n < 16) : hexValue (hexDigit n) = some n := by
  interval_cases n <;> rfl

theorem readUnit_escapeUnit {n : Nat} (h : n < 65536) :
    readUnit ((escapeUnit n ++ rest).drop 2) = some (n, rest) := by
  have hdigit : ∀ k, hexValue (hexDigit (k % 16)) = some (k % 16) :=
    fun k => hexValue_hexDigit (Nat.mod_lt k (by omega))
  simp only [escapeUnit, cons_append, nil_append, drop_succ_cons, drop_zero,
    readUnit, hdigit, bind, Option.bind]
  congr 2
  omega

theorem readChar_escapeUnit (n : Nat) :
    readChar (escapeUnit n ++ rest) = readUnicode ((escapeUnit n ++ rest).drop 2) := by
  simp [escapeUnit, readChar]

theorem readChar_shortEscape {letter : Char} (h : shortEscapes.lookup c = some letter) :
    readChar ('\\' :: letter :: rest) = some (c, rest) := by
  have hmem : (c, letter) ∈ shortEscapes := by
    obtain ⟨before, after, heq, -⟩ := lookup_eq_some_iff.mp h
    simp [heq]
  simp only [shortEscapes, mem_cons, Prod.mk.injEq, not_mem_nil, or_false] at hmem
  obtain ⟨rfl, rfl⟩ | ⟨rfl, rfl⟩ | ⟨rfl, rfl⟩ | ⟨rfl, rfl⟩ | ⟨rfl, rfl⟩ | ⟨rfl, rfl⟩ | ⟨rfl, rfl⟩ :=
    hmem <;> rfl

theorem readUnicode_escapeUnit (h : c.toNat < 65536) :
    readUnicode ((escapeUnit c.toNat ++ rest).drop 2) = some (c, rest) := by
  have hvalid : c.toNat.isValidChar := c.valid
  have hsurrogate : ¬ (55296 ≤ c.toNat ∧ c.toNat < 56320) := by
    rintro ⟨hle, hlt⟩
    rcases hvalid with hvalid | hvalid <;> omega
  simp [readUnicode, readUnit_escapeUnit h, hsurrogate, hvalid]

theorem readUnicode_pair {high low : Nat} (hhigh : 55296 ≤ high ∧ high < 56320)
    (hlow : 56320 ≤ low ∧ low < 57344) :
    readUnicode ((escapeUnit high ++ (escapeUnit low ++ rest)).drop 2) =
      some (Char.ofNat (65536 + (high - 55296) * 1024 + (low - 56320)), rest) := by
  have hread : readUnit ((escapeUnit low ++ rest).drop 2) = some (low, rest) :=
    readUnit_escapeUnit (by omega)
  simp only [escapeUnit, cons_append, nil_append, drop_succ_cons,
    drop_zero] at hread
  rw [readUnicode, readUnit_escapeUnit (by omega)]
  simp [escapeUnit, hhigh, hread, hlow]

theorem readUnicode_surrogates (h : 65536 ≤ c.toNat) :
    readUnicode ((escapeUnit (55296 + (c.toNat - 65536) / 1024) ++
      (escapeUnit (56320 + (c.toNat - 65536) % 1024) ++ rest)).drop 2) = some (c, rest) := by
  have hbound : c.toNat < 1114112 := by
    rcases c.valid with hvalid | hvalid
    · exact absurd hvalid (by simp only [Char.toNat] at h; omega)
    · exact hvalid.2
  have hcode : ∀ n, 65536 ≤ n → 65536 + (55296 + (n - 65536) / 1024 - 55296) * 1024 +
      (56320 + (n - 65536) % 1024 - 56320) = n := by
    intro n hn
    omega
  rw [readUnicode_pair (by omega) (by omega), hcode _ h, Char.ofNat_toNat]

/-- **A character is read back from its escape.** -/
theorem readChar_escapeChar : readChar (escapeChar ascii c ++ rest) = some (c, rest) := by
  unfold escapeChar
  split
  · rename_i letter hlookup
    exact readChar_shortEscape hlookup
  · rename_i hlookup
    split
    · rw [readChar_escapeUnit, readUnicode_escapeUnit (by omega)]
    · rename_i hcontrol
      split
      · split
        · rename_i hsmall
          rw [readChar_escapeUnit, readUnicode_escapeUnit hsmall]
        · rename_i hlarge
          rw [append_assoc, readChar_escapeUnit, readUnicode_surrogates (by omega)]
      · have hne : c ≠ '\\' := by
          rintro rfl
          simp [shortEscapes] at hlookup
        simp [readChar, hne, hcontrol]

theorem escapeChar_head (ascii : Bool) (c : Char) :
    ∃ d tail, escapeChar ascii c = d :: tail ∧ d ≠ '"' := by
  unfold escapeChar
  split
  · exact ⟨_, _, rfl, by decide⟩
  · rename_i hlookup
    split
    · exact ⟨_, _, rfl, by decide⟩
    · split
      · split
        · exact ⟨_, _, rfl, by decide⟩
        · exact ⟨_, _, rfl, by decide⟩
      · refine ⟨c, [], rfl, ?_⟩
        rintro rfl
        simp [shortEscapes] at hlookup

/-- **A string is read back from its escape.** -/
theorem readString_escape {fuel : Nat} (h : s.length < fuel) :
    readString fuel (escape ascii s ++ '"' :: rest) = some (s, rest) := by
  induction s generalizing fuel with
  | nil =>
    obtain ⟨fuel, rfl⟩ : ∃ n, fuel = n + 1 := ⟨fuel - 1, by simp at h; omega⟩
    rfl
  | cons c s ih =>
    rw [length_cons] at h
    obtain ⟨fuel, rfl⟩ : ∃ n, fuel = n + 1 := ⟨fuel - 1, by omega⟩
    have hread : readChar (escapeChar ascii c ++ (escape ascii s ++ '"' :: rest)) = _ :=
      readChar_escapeChar
    obtain ⟨d, tail, hhead, hd⟩ := escapeChar_head ascii c
    rw [hhead, cons_append] at hread
    rw [escape, flatMap_cons, ← escape, append_assoc, hhead, cons_append,
      readString.eq_3 _ _ (fun rest h => hd (List.cons.inj h).1), hread]
    have hrest := ih (show s.length < fuel by omega)
    simp [hrest]

theorem length_le_escape (ascii : Bool) (s : List Char) : s.length ≤ (escape ascii s).length := by
  induction s with
  | nil => simp
  | cons c s ih =>
    obtain ⟨d, tail, hhead, -⟩ := escapeChar_head ascii c
    rw [escape, flatMap_cons, ← escape, hhead, length_append, length_cons,
      length_cons]
    omega

end Strings

/-! ## A value is read back -/

mutual

/-- The value has no numbers, and no object with two members of one name. -/
def readable : Json → Bool
  | int _ | decimal _ _ => false
  | arr items => readableItems items
  | obj members => decide (members.map Prod.fst).Nodup && readableMembers members
  | null | bool _ | str _ => true

def readableItems : List Json → Bool
  | [] => true
  | x :: xs => readable x && readableItems xs

def readableMembers : List (String × Json) → Bool
  | [] => true
  | (_, x) :: ms => readable x && readableMembers ms

end

section Values

variable {style : JsonStyle} {fuel : Nat} {text rest : List Char}

theorem distinct_eq_self {ms : List (String × Json)} (h : (ms.map Prod.fst).Nodup) :
    distinct ms = ms := by
  induction ms with
  | nil => rfl
  | cons m ms ih =>
    rw [map_cons, nodup_cons] at h
    have hnone : ms.find? (·.1 = m.1) = none := by
      refine List.find?_eq_none.mpr fun m' hm' heq => h.1 ?_
      exact mem_map.mpr ⟨m', hm', of_decide_eq_true heq⟩
    rw [distinct, ih h.2, hnone]

theorem length_distinct_le (ms : List (String × Json)) : (distinct ms).length ≤ ms.length := by
  induction ms with
  | nil => exact Nat.le_refl _
  | cons m ms ih =>
    rw [distinct]
    split
    · exact Nat.succ_le_succ ((length_filter_le ..).trans ih)
    · exact Nat.succ_le_succ ih

/-- Members are lost where a name is repeated, and only there. -/
theorem distinct_eq_of_length {ms : List (String × Json)} (h : (distinct ms).length = ms.length) :
    distinct ms = ms := by
  induction ms with
  | nil => rfl
  | cons m ms ih =>
    have hle := length_distinct_le ms
    rw [distinct] at h ⊢
    cases hfind : (distinct ms).find? (·.1 = m.1) with
    | none =>
      rw [hfind] at h
      exact congrArg (m :: ·) (ih (Nat.succ.inj h))
    | some last =>
      obtain ⟨hname, hmem⟩ := And.intro (List.find?_some hfind) (mem_of_find?_eq_some hfind)
      have hlt : ((distinct ms).filter (·.1 ≠ m.1)).length < (distinct ms).length :=
        length_filter_lt_length_iff_exists.mpr ⟨last, hmem, by simpa using hname⟩
      rw [hfind] at h
      simp only [length_cons] at h
      omega

theorem skip_cons {c : Char} (h : c ∉ [' ', '\n', '\r', '\t']) : skip (c :: text) = c :: text :=
  dropWhile_cons_of_neg (by simpa using h)

theorem skip_padding (h : ∀ c ∈ style.padding, c ∈ [' ', '\n', '\r', '\t']) :
    skip (style.padding ++ text) = skip text := by
  revert h
  generalize style.padding = padding
  intro h
  induction padding with
  | nil => rfl
  | cons c padding ih =>
    have hc := h c mem_cons_self
    rw [cons_append, skip, dropWhile_cons_of_pos (by simpa using hc)]
    exact ih fun c hc => h c (mem_cons_of_mem _ hc)

theorem readValue_padding (h : ∀ c ∈ style.padding, c ∈ [' ', '\n', '\r', '\t']) :
    readValue fuel (style.padding ++ text) = readValue fuel text := by
  cases fuel with
  | zero => rfl
  | succ fuel => simp only [readValue, skip_padding h]

theorem readMember_padding (h : ∀ c ∈ style.padding, c ∈ [' ', '\n', '\r', '\t']) :
    readMember fuel (style.padding ++ text) = readMember fuel text := by
  cases fuel with
  | zero => rfl
  | succ fuel => simp only [readMember, skip_padding h]

/-- What the text of a value without numbers begins with. -/
theorem render_head (style : JsonStyle) {x : Json} (h : x.readable = true) :
    ∃ c tail, render style x = c :: tail ∧ c ∈ ['n', 't', 'f', '"', '[', '{'] := by
  cases x with
  | int | decimal => exact absurd h (by simp [readable])
  | null => exact ⟨_, _, rfl, by decide⟩
  | bool b => cases b <;> exact ⟨_, _, rfl, by decide⟩
  | str s => exact ⟨_, _, rfl, by decide⟩
  | arr items => cases items <;> exact ⟨_, _, by rw [render], by decide⟩
  | obj members => cases members <;> exact ⟨_, _, by rw [render], by decide⟩

theorem render_head_ne {c : Char} (h : c ∈ ['n', 't', 'f', '"', '[', '{']) :
    c ∉ [' ', '\n', '\r', '\t'] ∧ c ≠ ']' := by
  simp only [mem_cons, not_mem_nil, or_false] at h
  rcases h with rfl | rfl | rfl | rfl | rfl | rfl <;> decide

theorem readString_quote {name : String} (h : (quote style.ascii name).length ≤ fuel) :
    readString fuel (escape style.ascii name.toList ++ '"' :: rest) = some (name.toList, rest) := by
  have hle := length_le_escape style.ascii name.toList
  simp only [quote, length_append, length_cons] at h
  exact readString_escape (by omega)

theorem readMember_render (hpadding : ∀ c ∈ style.padding, c ∈ [' ', '\n', '\r', '\t'])
    {name : String} {x : Json} (hname : (quote style.ascii name).length ≤ fuel)
    (hx : readValue fuel (render style x ++ rest) = some (x, rest)) : readMember (fuel + 1)
      (quote style.ascii name ++ ':' :: (style.padding ++ (render style x ++ rest))) =
      some ((name, x), rest) := by
  simp only [readMember, quote, cons_append, append_assoc, nil_append]
  rw [skip_cons (by decide)]
  simp only [readString_quote hname, Option.bind_eq_bind, Option.bind_some]
  rw [skip_cons (by decide)]
  simp [readValue_padding hpadding, hx]

mutual

/-- **A value is read back from its text**, whatever follows it. -/
theorem readValue_render (hpadding : ∀ c ∈ style.padding, c ∈ [' ', '\n', '\r', '\t']) :
    ∀ (x : Json) (fuel : Nat) (rest : List Char), x.readable = true →
      (render style x).length < fuel → readValue fuel (render style x ++ rest) = some (x, rest)
  | x, 0, _, _, hfuel => absurd hfuel (by omega)
  | .int _, _, _, hread, _ | .decimal _ _, _, _, hread, _ => absurd hread (by simp [readable])
  | .null, fuel + 1, rest, _, _ => by simp [render, readValue, skip]
  | .bool true, fuel + 1, rest, _, _ => by simp [render, readValue, skip]
  | .bool false, fuel + 1, rest, _, _ => by simp [render, readValue, skip]
  | .str s, fuel + 1, rest, _, hfuel => by
    rw [render] at hfuel
    simp only [render, quote, cons_append, append_assoc, nil_append, readValue]
    rw [skip_cons (by decide)]
    simp [readString_quote (show (quote style.ascii s).length ≤ fuel by omega)]
  | .arr [], fuel + 1, rest, _, _ => by simp [render, readValue, skip]
  | .arr (x :: xs), fuel + 1, rest, hread, hfuel => by
    rw [readable, readableItems, Bool.and_eq_true] at hread
    simp only [render, length_cons, length_append] at hfuel
    have hx := readValue_render hpadding x fuel (renderItems style xs ++ rest) hread.1 (by omega)
    have hxs := readItems_render hpadding xs fuel rest hread.2 (by omega)
    obtain ⟨c, tail, hhead, hc⟩ := render_head style hread.1
    simp only [render, cons_append, append_assoc, readValue]
    rw [skip_cons (by decide)]
    simp only [hhead, cons_append] at hx ⊢
    rw [skip_cons (render_head_ne hc).1]
    split
    · rename_i heq
      exact absurd (List.cons.inj heq).1 (render_head_ne hc).2
    · simp only [hx, hxs, Option.bind_eq_bind, Option.bind_some]
  | .obj [], fuel + 1, rest, _, _ => by simp [render, readValue, skip]
  | .obj ((name, x) :: ms), fuel + 1, rest, hread, hfuel => by
    simp only [readable, readableMembers, Bool.and_eq_true, decide_eq_true_eq] at hread
    obtain ⟨hdistinct, hx, hms⟩ := hread
    simp only [render, length_cons, length_append] at hfuel
    obtain ⟨fuel, rfl⟩ : ∃ n, fuel = n + 1 := ⟨fuel - 1, by omega⟩
    have hx := readValue_render hpadding x fuel (renderMembers style ms ++ rest) hx (by omega)
    have hm := readMember_render hpadding (show (quote style.ascii name).length ≤ fuel by omega) hx
    have hms := readMembers_render hpadding ms (fuel + 1) rest hms (by omega)
    generalize fuel + 1 = fuel at hm hms ⊢
    simp only [render, cons_append, append_assoc, readValue]
    rw [skip_cons (by decide)]
    simp only [quote, cons_append, append_assoc] at hm ⊢
    rw [skip_cons (by decide)]
    rw [nil_append] at hm
    simp [hm, hms, distinct_eq_self hdistinct]

theorem readItems_render (hpadding : ∀ c ∈ style.padding, c ∈ [' ', '\n', '\r', '\t']) :
    ∀ (xs : List Json) (fuel : Nat) (rest : List Char), readableItems xs = true →
      (renderItems style xs).length < fuel →
      readItems fuel (renderItems style xs ++ rest) = some (xs, rest)
  | xs, 0, _, _, hfuel => absurd hfuel (by omega)
  | [], fuel + 1, rest, _, _ => by simp [renderItems, readItems, skip]
  | x :: xs, fuel + 1, rest, hread, hfuel => by
    rw [readableItems, Bool.and_eq_true] at hread
    simp only [renderItems, length_cons, length_append] at hfuel
    have hx := readValue_render hpadding x fuel (renderItems style xs ++ rest) hread.1 (by omega)
    have hxs := readItems_render hpadding xs fuel rest hread.2 (by omega)
    simp only [renderItems, cons_append, append_assoc, readItems]
    rw [skip_cons (by decide)]
    simp [readValue_padding hpadding, hx, hxs]

theorem readMembers_render (hpadding : ∀ c ∈ style.padding, c ∈ [' ', '\n', '\r', '\t']) :
    ∀ (ms : List (String × Json)) (fuel : Nat) (rest : List Char), readableMembers ms = true →
      (renderMembers style ms).length < fuel →
      readMembers fuel (renderMembers style ms ++ rest) = some (ms, rest)
  | ms, 0, _, _, hfuel => absurd hfuel (by omega)
  | [], fuel + 1, rest, _, _ => by simp [renderMembers, readMembers, skip]
  | (name, x) :: ms, fuel + 1, rest, hread, hfuel => by
    rw [readableMembers, Bool.and_eq_true] at hread
    simp only [renderMembers, length_cons, length_append] at hfuel
    obtain ⟨fuel, rfl⟩ : ∃ n, fuel = n + 1 := ⟨fuel - 1, by omega⟩
    have hx := readValue_render hpadding x fuel (renderMembers style ms ++ rest) hread.1 (by omega)
    have hm := readMember_render hpadding (show (quote style.ascii name).length ≤ fuel by omega) hx
    have hms := readMembers_render hpadding ms (fuel + 1) rest hread.2 (by omega)
    generalize fuel + 1 = fuel at hm hms ⊢
    simp only [renderMembers, cons_append, append_assoc, readMembers]
    rw [skip_cons (by decide)]
    simp only [readMember_padding hpadding, hm, hms, Option.bind_eq_bind, Option.bind_some]

end

/-- **Reading inverts writing.** -/
theorem loads_render (hpadding : ∀ c ∈ style.padding, c ∈ [' ', '\n', '\r', '\t']) {x : Json}
    (h : x.readable = true) : loads (render style x) = some x := by
  have hread := readValue_render hpadding x ((render style x).length + 1) [] h (by omega)
  rw [append_nil] at hread
  simp [loads, hread, skip]

end Values

/-! ## The strings of a value -/

mutual

/-- The strings of a value, the names of its members among them. -/
def texts : Json → List String
  | str s => [s]
  | arr items => itemTexts items
  | obj members => memberTexts members
  | null | bool _ | int _ | decimal _ _ => []

def itemTexts : List Json → List String
  | [] => []
  | x :: xs => texts x ++ itemTexts xs

def memberTexts : List (String × Json) → List String
  | [] => []
  | (name, x) :: ms => name :: texts x ++ memberTexts ms

end

theorem mem_itemTexts {s : String} {xs : List Json} : s ∈ itemTexts xs ↔ ∃ x ∈ xs, s ∈ x.texts := by
  induction xs with
  | nil => simp [itemTexts]
  | cons x xs ih => simp [itemTexts, ih]

theorem mem_memberTexts {s : String} {ms : List (String × Json)} :
    s ∈ memberTexts ms ↔ ∃ m ∈ ms, s = m.1 ∨ s ∈ m.2.texts := by
  induction ms with
  | nil => simp [memberTexts]
  | cons m ms ih => simp [memberTexts, ih, or_assoc]

mutual

/-- Ordering the members of the objects keeps the strings. -/
theorem mem_texts_canonical {s : String} : ∀ x : Json, s ∈ x.canonical.texts ↔ s ∈ x.texts
  | .null | .bool _ | .int _ | .decimal _ _ | .str _ => by simp [canonical]
  | .arr items => by
    rw [canonical, texts, texts, mem_itemTexts_canonical items]
  | .obj members => by
    rw [canonical, texts, texts, ← mem_memberTexts_canonical members, mem_memberTexts,
      mem_memberTexts]
    simp only [mem_insertionSort]

theorem mem_itemTexts_canonical {s : String} :
    ∀ xs : List Json, s ∈ itemTexts (canonicalItems xs) ↔ s ∈ itemTexts xs
  | [] => by rw [canonicalItems]
  | x :: xs => by
    rw [canonicalItems, itemTexts, itemTexts, mem_append, mem_append,
      mem_texts_canonical x, mem_itemTexts_canonical xs]

theorem mem_memberTexts_canonical {s : String} :
    ∀ ms : List (String × Json), s ∈ memberTexts (canonicalMembers ms) ↔ s ∈ memberTexts ms
  | [] => by rw [canonicalMembers]
  | (name, x) :: ms => by
    rw [canonicalMembers, memberTexts, memberTexts, mem_append, mem_append,
      mem_cons, mem_cons, mem_texts_canonical x, mem_memberTexts_canonical ms]

end

theorem escape_append {ascii : Bool} {s t : List Char} :
    escape ascii (s ++ t) = escape ascii s ++ escape ascii t := by
  simp [escape]

/-- A string without a character that is escaped stands as it is. -/
theorem escape_eq_self {ascii : Bool} {s : List Char} (h : ∀ c ∈ s, escapeChar ascii c = [c]) :
    escape ascii s = s := by
  rw [escape, flatMap_congr h]
  exact flatMap_singleton' s

theorem escape_infix_escape {ascii : Bool} {w s : List Char} (h : w <:+: s) :
    escape ascii w <:+: escape ascii s := by
  obtain ⟨before, after, rfl⟩ := h
  exact ⟨escape ascii before, escape ascii after, by simp [escape]⟩

theorem escape_infix_quote {ascii : Bool} {s : String} : escape ascii s.toList <:+: quote ascii s :=
  ⟨['"'], ['"'], by simp [quote]⟩

section Shown

variable {style : JsonStyle} {s : String}

/-- What stands in the text of a member, or behind it. -/
theorem infix_member {name : String} {value rest : List Char} (h : s = name ∨
    escape style.ascii s.toList <:+: value ∨ escape style.ascii s.toList <:+: rest) :
    escape style.ascii s.toList <:+:
      quote style.ascii name ++ ':' :: (style.padding ++ (value ++ rest)) := by
  rcases h with rfl | h
  · exact escape_infix_quote.trans (prefix_append _ _).isInfix
  · refine List.IsInfix.trans ?_ (suffix_append _ _).isInfix
    refine List.IsInfix.trans ?_ (infix_cons (suffix_append _ _).isInfix)
    rcases h with h | h
    · exact h.trans (prefix_append _ _).isInfix
    · exact h.trans (suffix_append _ _).isInfix

mutual

/-- **The escape of every string of a value stands in its text.** -/
theorem escape_infix_render : ∀ x : Json, s ∈ x.texts →
    escape style.ascii s.toList <:+: render style x
  | .null, h | .bool _, h | .int _, h | .decimal _ _, h => by simp [texts] at h
  | .str t, h => by
    rw [texts, mem_singleton] at h
    rw [h, render]
    exact escape_infix_quote
  | .arr [], h => by simp [texts, itemTexts] at h
  | .arr (x :: xs), h => by
    rw [texts, itemTexts, mem_append] at h
    rw [render]
    refine List.IsInfix.trans ?_ (infix_cons (infix_refl _))
    rcases h with h | h
    · exact (escape_infix_render x h).trans (prefix_append _ _).isInfix
    · exact (escape_infix_renderItems xs h).trans (suffix_append _ _).isInfix
  | .obj [], h => by simp [texts, memberTexts] at h
  | .obj ((name, x) :: ms), h => by
    rw [texts, memberTexts, cons_append, mem_cons, mem_append] at h
    rw [render]
    refine (infix_member ?_).trans (infix_cons (infix_refl _))
    exact h.imp_right (Or.imp (escape_infix_render x) (escape_infix_renderMembers ms))

theorem escape_infix_renderItems : ∀ xs : List Json, s ∈ itemTexts xs →
    escape style.ascii s.toList <:+: renderItems style xs
  | [], h => by simp [itemTexts] at h
  | x :: xs, h => by
    rw [itemTexts, mem_append] at h
    rw [renderItems]
    refine List.IsInfix.trans ?_ (infix_cons (suffix_append _ _).isInfix)
    rcases h with h | h
    · exact (escape_infix_render x h).trans (prefix_append _ _).isInfix
    · exact (escape_infix_renderItems xs h).trans (suffix_append _ _).isInfix

theorem escape_infix_renderMembers : ∀ ms : List (String × Json), s ∈ memberTexts ms →
    escape style.ascii s.toList <:+: renderMembers style ms
  | [], h => by simp [memberTexts] at h
  | (name, x) :: ms, h => by
    rw [memberTexts, cons_append, mem_cons, mem_append] at h
    rw [renderMembers]
    refine (infix_member ?_).trans (infix_cons (suffix_append _ _).isInfix)
    exact h.imp_right (Or.imp (escape_infix_render x) (escape_infix_renderMembers ms))

end

theorem escape_infix_dumps (style : JsonStyle) {x : Json} (h : s ∈ x.texts) :
    escape style.ascii s.toList <:+: dumps style x := by
  rw [dumps]
  split
  · exact escape_infix_render _ ((mem_texts_canonical x).mpr h)
  · exact escape_infix_render x h

theorem renderItems_close (style : JsonStyle) :
    ∀ xs : List Json, ∃ inner, renderItems style xs = inner ++ [']']
  | [] => ⟨[], rfl⟩
  | x :: xs => by
    obtain ⟨inner, hinner⟩ := renderItems_close style xs
    rw [renderItems, hinner]
    exact ⟨',' :: (style.padding ++ (render style x ++ inner)), by simp⟩

theorem renderMembers_close (style : JsonStyle) :
    ∀ ms : List (String × Json), ∃ inner, renderMembers style ms = inner ++ ['}']
  | [] => ⟨[], rfl⟩
  | (name, x) :: ms => by
    obtain ⟨inner, hinner⟩ := renderMembers_close style ms
    rw [renderMembers, hinner]
    exact ⟨',' :: (style.padding ++ (quote style.ascii name ++ ':' :: (style.padding ++
      (render style x ++ inner)))), by simp⟩

/-- The text of a list stands between brackets. -/
theorem render_arr (style : JsonStyle) (xs : List Json) :
    ∃ inner, render style (.arr xs) = '[' :: (inner ++ [']']) := by
  cases xs with
  | nil => exact ⟨[], rfl⟩
  | cons x xs =>
    obtain ⟨inner, hinner⟩ := renderItems_close style xs
    rw [render, hinner]
    exact ⟨render style x ++ inner, by simp⟩

/-- The text of an object stands between braces. -/
theorem render_obj (style : JsonStyle) (ms : List (String × Json)) :
    ∃ inner, render style (.obj ms) = '{' :: (inner ++ ['}']) := by
  cases ms with
  | nil => exact ⟨[], rfl⟩
  | cons m ms =>
    obtain ⟨inner, hinner⟩ := renderMembers_close style ms
    rw [render, hinner]
    exact ⟨quote style.ascii m.1 ++ ':' :: (style.padding ++ (render style m.2 ++ inner)), by simp⟩

/-- The members of an object behind the first, as they stand in front of further ones. -/
def renderOpen (style : JsonStyle) : List (String × Json) → List Char
  | [] => []
  | (name, x) :: ms =>
    ',' :: (style.padding ++ (quote style.ascii name ++ ':' :: (style.padding ++
      (render style x ++ renderOpen style ms))))

theorem renderMembers_append (style : JsonStyle) (ms ns : List (String × Json)) :
    renderMembers style (ms ++ ns) = renderOpen style ms ++ renderMembers style ns := by
  induction ms with
  | nil => rfl
  | cons m ms ih => simp [renderMembers, renderOpen, ih]

end Shown

/-! ## Where a text shows a word -/

variable {z : Char}

/-- **A word that neither begins nor ends with the padding around it** lies on one side of it. -/
theorem infix_of_infix_replicate {w before after : List Char} {n : Nat}
    (hhead : w.head? ≠ some z) (hlast : w.getLast? ≠ some z) (hne : w ≠ []) (hn : w.length ≤ n)
    (h : w <:+: before ++ (List.replicate n z ++ after)) : w <:+: before ∨ w <:+: after := by
  obtain ⟨a, b, heq⟩ := h
  have hpos : 0 < w.length := length_pos_iff.mpr hne
  have hlength := congrArg List.length heq
  simp only [length_append, length_replicate] at hlength
  -- a place of the word inside the padding would be its first or its last
  have hpad : ∀ i, before.length ≤ i → i < before.length + n → (a ++ w ++ b)[i]? = some z := by
    intro i hle hlt
    rw [heq, List.getElem?_append_right hle, List.getElem?_append_left (by simp; omega),
      List.getElem?_replicate, if_pos (by omega)]
  have hword : ∀ i, i < w.length → (a ++ w ++ b)[a.length + i]? = w[i]? := by
    intro i hi
    rw [append_assoc, List.getElem?_append_right (by omega), Nat.add_sub_cancel_left,
      List.getElem?_append_left hi]
  rcases Nat.lt_or_ge a.length before.length with ha | ha
  · rcases Nat.lt_or_ge before.length (a.length + w.length) with hw | hw
    · refine absurd ?_ hlast
      rw [List.getLast?_eq_getElem?, ← hword _ (by omega)]
      exact hpad _ (by omega) (by omega)
    · left
      have hprefix : a ++ w <+: before :=
        prefix_of_prefix_length_le (heq ▸ prefix_append _ _) (prefix_append _ _)
          (by simpa using hw)
      exact (suffix_append a w).isInfix.trans hprefix.isInfix
  · rcases Nat.lt_or_ge a.length (before.length + n) with hw | hw
    · refine absurd ?_ hhead
      rw [List.head?_eq_getElem?, ← hword 0 hpos]
      exact hpad _ (by omega) (by omega)
    · right
      have htail : w ++ b <:+ a ++ w ++ b := append_assoc a w b ▸ suffix_append _ _
      have hafter : after <:+ a ++ w ++ b := by
        rw [heq, ← append_assoc]
        exact suffix_append _ _
      have hsuffix : w ++ b <:+ after :=
        suffix_of_suffix_length_le htail hafter (by rw [length_append]; omega)
      exact (prefix_append w b).isInfix.trans hsuffix.isInfix

/-- The longest common beginning of two texts. -/
def commonPrefix : List Char → List Char → List Char
  | a :: s, b :: t => if a = b then a :: commonPrefix s t else []
  | _, _ => []

theorem commonPrefix_prefix {s t : List Char} : commonPrefix s t <+: s := by
  induction s generalizing t with
  | nil => exact nil_prefix
  | cons a s ih =>
    rcases t with - | ⟨b, t⟩
    · exact nil_prefix
    · rw [commonPrefix]
      split
      · exact (prefix_cons_inj a).mpr ih
      · exact nil_prefix

theorem prefix_commonPrefix {w s t : List Char} (hs : w <+: s) (ht : w <+: t) :
    w <+: commonPrefix s t := by
  induction w generalizing s t with
  | nil => exact nil_prefix
  | cons a w ih =>
    obtain ⟨s, rfl⟩ := hs
    obtain ⟨t, rfl⟩ := ht
    rw [cons_append, cons_append, commonPrefix, if_pos rfl]
    exact (prefix_cons_inj a).mpr (ih (prefix_append _ _) (prefix_append _ _))

/-- The longest beginning of a text that another text shows. -/
def longestShown (text other : List Char) : List Char :=
  (other.tails.map (commonPrefix text)).foldr (fun s t => if s.length ≤ t.length then t else s) []

/-- **A beginning of a text that another text shows** begins the longest one. -/
theorem prefix_longestShown {w text other : List Char} (htext : w <+: text)
    (hother : w <:+: other) : w <+: longestShown text other := by
  obtain ⟨tail, hprefix, hsuffix⟩ := infix_iff_prefix_suffix.mp hother
  have hmem : tail ∈ other.tails := (mem_tails _ _).mpr hsuffix
  rw [longestShown]
  generalize other.tails = tails at hmem
  have hlongest : ∀ tails : List (List Char), (tails.map (commonPrefix text)).foldr
      (fun s t => if s.length ≤ t.length then t else s) [] <+: text := by
    intro tails
    induction tails with
    | nil => exact nil_prefix
    | cons tail tails ih =>
      rw [map_cons, foldr_cons]
      split
      · exact ih
      · exact commonPrefix_prefix
  induction tails with
  | nil => cases hmem
  | cons first tails ih =>
    rw [map_cons, foldr_cons]
    have hfirst : commonPrefix text first <+: text := commonPrefix_prefix
    rcases mem_cons.mp hmem with rfl | hmem
    · have hw := prefix_commonPrefix htext hprefix
      split
      · rename_i hle
        exact hw.trans (prefix_of_prefix_length_le hfirst (hlongest tails) hle)
      · exact hw
    · have hw := ih hmem
      split
      · exact hw
      · rename_i hlt
        exact hw.trans (prefix_of_prefix_length_le (hlongest tails) hfirst (by omega))

/-- A string that its own escape does not change in front of, nor behind it. -/
def padded (z : Char) (s : String) : String :=
  String.ofList (List.replicate s.length z ++ (s.toList ++ List.replicate s.length z))

theorem infix_padded {s : String} : s.toList <:+: (padded z s).toList := by
  rw [padded, String.toList_ofList]
  exact ⟨_, _, append_assoc _ _ _⟩

theorem escape_padded {ascii : Bool} (hz : escapeChar ascii z = [z]) (s : String) :
    escape ascii (padded z s).toList =
      List.replicate s.length z ++ (escape ascii s.toList ++ List.replicate s.length z) := by
  have hreplicate : ∀ n, escape ascii (List.replicate n z) = List.replicate n z := by
    intro n
    induction n with
    | zero => rfl
    | succ n ih =>
      rw [replicate_succ, escape, flatMap_cons, ← escape, ih, hz]
      rfl
  rw [padded, String.toList_ofList, escape_append, escape_append, hreplicate]

/-- The letters that pad are not escaped. -/
theorem escapeChar_padding {ascii : Bool} (hz : z ∈ ['a', 'b', 'c']) :
    escapeChar ascii z = [z] := by
  simp only [mem_cons, not_mem_nil, or_false] at hz
  rcases hz with rfl | rfl | rfl <;> cases ascii <;> decide

/-- A letter that a word neither begins nor ends with. -/
theorem exists_padding (w : List Char) :
    ∃ z ∈ ['a', 'b', 'c'], w.head? ≠ some z ∧ w.getLast? ≠ some z := by
  by_contra hnone
  push Not at hnone
  have ha := hnone 'a' (by decide)
  have hb := hnone 'b' (by decide)
  have hc := hnone 'c' (by decide)
  by_cases hhead : w.head? = some 'a'
  · -- so it ends with both of the other letters
    have hlast := hb (by simp [hhead])
    exact absurd (hlast.symm.trans (hc (by simp [hhead]))) (by decide)
  · have hlast := ha hhead
    have hhead := (not_imp_comm.mp hb) (by simp [hlast])
    exact absurd (hlast.symm.trans (hc (by simp [hhead]))) (by decide)

/-- **A word shown around the padded escape of itself** is shown by what stands before it, by what
stands behind it, or by the escape. -/
theorem infix_around_padded {ascii : Bool} {s : String} {before after : List Char}
    (hz : escapeChar ascii z = [z]) (hhead : s.toList.head? ≠ some z)
    (hlast : s.toList.getLast? ≠ some z) (hne : s ≠ "")
    (h : s.toList <:+: before ++ (escape ascii (padded z s).toList ++ after)) :
    s.toList <:+: before ∨ s.toList <:+: after ∨ s.toList <:+: escape ascii s.toList := by
  have hne : s.toList ≠ [] := by simpa using hne
  have hle : s.toList.length ≤ s.length := by rw [String.length_toList]
  rw [escape_padded hz, append_assoc] at h
  rcases infix_of_infix_replicate hhead hlast hne hle h with h | h
  · exact .inl h
  · rw [append_assoc] at h
    rcases infix_of_infix_replicate hhead hlast hne hle h with h | h
    · exact .inr (.inr h)
    · exact .inr (.inl h)

end Json

import Mishkan.Foundations.JsonText

/-!
# Foundations/JsonDocument — JSON as it may be written, with comments

A `Doc` is a value as somebody wrote it: any spelling of a number and of a string, anything that
separates tokens between them, and a comma behind the last element or none.  Its text is read back
as its value when only white space stands between its tokens and no comma is left over
(`loads_text`).
-/

namespace JsonDocument

open List Option

open Json (readUnit readUnicode readChar readString readNumber readDigits fractionOf exponentOf
  numberOf readValue readItems readMember readMembers skip loads distinct shortEscapes)

/-! ## What stands between tokens -/

/-- A piece of what separates two tokens. -/
inductive Filler where
  | space (c : Char)
  /-- `//`, up to a line terminator. -/
  | line (body : List Char) (terminator : Char)
  /-- `/*`, up to the first `*/`. -/
  | block (body : List Char)

/-- What stands between two tokens. -/
abbrev Gap := List Filler

namespace Filler

def text : Filler → List Char
  | space c => [c]
  | line body terminator => '/' :: '/' :: (body ++ [terminator])
  | block body => '/' :: '*' :: (body ++ ['*', '/'])

/-- What is left of a piece when comments are taken out. -/
def blank : Filler → List Char
  | space c => [c]
  | line _ terminator => [terminator]
  | block _ => []

/-- White space is what JSON takes for it, and a comment is over where it ends. -/
def Valid : Filler → Prop
  | space c => c ∈ [' ', '\n', '\r', '\t']
  | line body terminator => (∀ c ∈ body, c ∉ ['\r', '\n']) ∧ terminator ∈ ['\r', '\n']
  | block body => ¬ ['*', '/'] <:+: body

end Filler

namespace Gap

def text (gap : Gap) : List Char := gap.flatMap Filler.text

def blank (gap : Gap) : List Char := gap.flatMap Filler.blank

def Valid (gap : Gap) : Prop := ∀ f ∈ gap, f.Valid

theorem Valid.blank_space {gap : Gap} (h : Valid gap) :
    ∀ c ∈ blank gap, c ∈ [' ', '\n', '\r', '\t'] := by
  intro c hc
  obtain ⟨f, hf, hc⟩ := mem_flatMap.mp hc
  cases f with
  | space d =>
    rw [mem_singleton.mp hc]
    exact h _ hf
  | line body terminator =>
    rw [mem_singleton.mp hc]
    rcases mem_pair.mp (h _ hf).2 with rfl | rfl <;> decide
  | block => exact absurd hc not_mem_nil

end Gap

/-! ## Strings -/

/-- A way to write one character of a string. -/
inductive Spells : List Char → Char → Prop
  | plain {c : Char} (hquote : c ≠ '"') (hescape : c ≠ '\\') (hcontrol : 32 ≤ c.toNat) :
    Spells [c] c
  | short {c letter : Char} (h : (c, letter) ∈ ('/', '/') :: shortEscapes) :
    Spells ['\\', letter] c
  | unit {digits : List Char} {n : ℕ} (hdigits : readUnit digits = some (n, []))
    (hn : n < 55296 ∨ 57344 ≤ n) : Spells ('\\' :: 'u' :: digits) (Char.ofNat n)
  | pair {high low : List Char} {m n : ℕ} (hhigh : readUnit high = some (m, []))
    (hm : 55296 ≤ m ∧ m < 56320) (hlow : readUnit low = some (n, []))
    (hn : 56320 ≤ n ∧ n < 57344) :
    Spells ('\\' :: 'u' :: (high ++ '\\' :: 'u' :: low))
      (Char.ofNat (65536 + (m - 55296) * 1024 + (n - 56320)))

/-- A string, character by character as it is written. -/
abbrev Written := List (List Char × Char)

/-- What stands between the quotation marks. -/
def body (s : Written) : List Char := s.flatMap Prod.fst

/-- What is written. -/
def content (s : Written) : String := String.ofList (s.map Prod.snd)

def Spelled (s : Written) : Prop := ∀ u ∈ s, Spells u.1 u.2

def quoted (s : Written) : List Char := '"' :: (body s ++ ['"'])

section Strings

variable {digits rest text : List Char} {n : ℕ} {c : Char} {s : Written} {fuel : ℕ}

theorem body_cons (u : List Char × Char) (s : Written) : body (u :: s) = u.1 ++ body s :=
  flatMap_cons

/-- Four hexadecimal digits. -/
theorem eq_digits_of_readUnit (h : readUnit digits = some (n, [])) :
    ∃ a b c d, digits = [a, b, c, d] ∧ ∀ x ∈ [a, b, c, d], (Json.hexValue x).isSome := by
  rcases digits with _ | ⟨a, _ | ⟨b, _ | ⟨c, _ | ⟨d, rest⟩⟩⟩⟩
  · simp [readUnit] at h
  · simp [readUnit] at h
  · simp [readUnit] at h
  · simp [readUnit] at h
  · simp only [readUnit, bind_eq_bind, bind_eq_some_iff, Option.some.injEq,
      Prod.mk.injEq] at h
    obtain ⟨va, ha, vb, hb, vc, hc, vd, hd, -, rfl⟩ := h
    exact ⟨a, b, c, d, rfl, by simp [ha, hb, hc, hd]⟩

theorem readUnit_append (h : readUnit digits = some (n, [])) :
    readUnit (digits ++ rest) = some (n, rest) := by
  obtain ⟨a, b, c, d, rfl, -⟩ := eq_digits_of_readUnit h
  simp only [readUnit, bind_eq_bind, bind_eq_some_iff, Option.some.injEq,
    Prod.mk.injEq, cons_append, nil_append] at h ⊢
  obtain ⟨va, ha, vb, hb, vc, hc, vd, hd, hn, -⟩ := h
  exact ⟨va, ha, vb, hb, vc, hc, vd, hd, hn, trivial⟩

/-- The characters of a hexadecimal digit. -/
theorem hexValue_range (h : (Json.hexValue c).isSome) :
    '0' ≤ c ∧ c ≤ '9' ∨ 'a' ≤ c ∧ c ≤ 'f' ∨ 'A' ≤ c ∧ c ≤ 'F' := by
  rw [Json.hexValue] at h
  split_ifs at h with h1 h2 h3
  · exact .inl h1
  · exact .inr (.inl h2)
  · exact .inr (.inr h3)
  · cases h

theorem readUnit_lt (h : readUnit digits = some (n, [])) : n < 65536 := by
  obtain ⟨a, b, c, d, rfl, -⟩ := eq_digits_of_readUnit h
  have hlt : ∀ (x : Char) (v : ℕ), Json.hexValue x = some v → v < 16 := by
    intro x v hv
    have hle : ∀ y : Char, x ≤ y → x.toNat ≤ y.toNat := fun y hy => UInt32.le_iff_toNat_le.mp hy
    rw [Json.hexValue] at hv
    split_ifs at hv with h1 h2 h3
    · have := hle _ h1.2
      obtain rfl := Option.some.inj hv
      simp at this
      omega
    · have := hle _ h2.2
      obtain rfl := Option.some.inj hv
      simp at this
      omega
    · have := hle _ h3.2
      obtain rfl := Option.some.inj hv
      simp at this
      omega
  simp only [readUnit, bind_eq_bind, bind_eq_some_iff, Option.some.injEq,
    Prod.mk.injEq] at h
  obtain ⟨va, ha, vb, hb, vc, hc, vd, hd, rfl, -⟩ := h
  have := hlt a va ha
  have := hlt b vb hb
  have := hlt c vc hc
  have := hlt d vd hd
  omega

/-- **A character is read back from any way to write it.** -/
theorem Spells.readChar (h : Spells text c) : readChar (text ++ rest) = some (c, rest) := by
  cases h with
  | plain hquote hescape hcontrol =>
    rw [singleton_append, Json.readChar.eq_2]
    · rw [if_neg]
      exact not_or.mpr ⟨hescape, Nat.not_lt.mpr hcontrol⟩
    · exact fun _ _ hc _ => hescape hc
  | @short _ letter h =>
    simp only [shortEscapes, mem_cons, Prod.mk.injEq, not_mem_nil, or_false] at h
    rcases h with ⟨rfl, rfl⟩ | ⟨rfl, rfl⟩ | ⟨rfl, rfl⟩ | ⟨rfl, rfl⟩ | ⟨rfl, rfl⟩ | ⟨rfl, rfl⟩ |
      ⟨rfl, rfl⟩ | ⟨rfl, rfl⟩ <;> rfl
  | @unit digits n hdigits hn =>
    have hlt := readUnit_lt hdigits
    have hvalid : n.isValidChar := by
      rw [Nat.isValidChar]
      omega
    have hread : ∀ rest, readUnit (digits ++ rest) = some (n, rest) :=
      fun _ => readUnit_append hdigits
    have hsurrogate : ¬ (55296 ≤ n ∧ n < 56320) := by omega
    rw [cons_append, cons_append, Json.readChar, if_pos rfl]
    simp [readUnicode, hread, hsurrogate, hvalid]
  | @pair high low m n hhigh hm hlow hn =>
    have hreadHigh : ∀ rest, readUnit (high ++ rest) = some (m, rest) :=
      fun _ => readUnit_append hhigh
    have hreadLow : ∀ rest, readUnit (low ++ rest) = some (n, rest) := fun _ => readUnit_append hlow
    rw [cons_append, cons_append, append_assoc, cons_append, cons_append,
      Json.readChar, if_pos rfl]
    simp [readUnicode, hreadHigh, hreadLow, hm, hn]

/-- What is written begins with no quotation mark. -/
theorem Spells.head (h : Spells text c) : ∃ d tail, text = d :: tail ∧ d ≠ '"' := by
  cases h with
  | plain hquote => exact ⟨_, _, rfl, hquote⟩
  | short => exact ⟨_, _, rfl, by decide⟩
  | unit => exact ⟨_, _, rfl, by decide⟩
  | pair => exact ⟨_, _, rfl, by decide⟩

/-- **A string is read back from any way to write it.** -/
theorem Spelled.readString (h : Spelled s) (hfuel : (body s).length < fuel) :
    readString fuel (body s ++ '"' :: rest) = some (s.map Prod.snd, rest) := by
  induction s generalizing fuel with
  | nil =>
    obtain ⟨fuel, rfl⟩ : ∃ n, fuel = n + 1 := ⟨fuel - 1, by omega⟩
    rfl
  | cons u s ih =>
    obtain ⟨text, c⟩ := u
    have hu : Spells text c := h _ mem_cons_self
    obtain ⟨d, tail, rfl, hd⟩ := hu.head
    rw [body_cons, length_append, length_cons] at hfuel
    obtain ⟨fuel, rfl⟩ : ∃ n, fuel = n + 1 := ⟨fuel - 1, by omega⟩
    have hread : Json.readChar (d :: (tail ++ (body s ++ '"' :: rest))) =
        some (c, body s ++ '"' :: rest) := hu.readChar
    have hlength : (body s).length < fuel := by omega
    have hrest := ih (fun u hu => h u (mem_cons_of_mem _ hu)) hlength
    rw [body_cons, append_assoc, cons_append,
      Json.readString.eq_3 _ _ (fun rest h => hd (List.cons.inj h).1), hread]
    simp [hrest]

end Strings

/-! ## Numbers -/

/-- The characters of a number. -/
def isNumberChar (c : Char) : Bool := c.isDigit || c ∈ ['-', '+', '.', 'e', 'E']

/-- A number is over before the text. -/
def Ends (rest : List Char) : Prop := ∀ c ∈ rest.head?, isNumberChar c = false

section Numbers

variable {text rest : List Char}

theorem takeWhile_isDigit_of_ends (h : Ends rest) : rest.takeWhile Char.isDigit = [] := by
  cases rest with
  | nil => rfl
  | cons c rest =>
    have hc := h c rfl
    rw [isNumberChar, Bool.or_eq_false_iff] at hc
    exact takeWhile_cons_of_neg (by simp [hc.1])

/-- What follows a number does not belong to its digits. -/
theorem readDigits_append (h : Ends rest) : readDigits (text ++ rest) =
    (readDigits text).map fun p => (p.1, p.2 ++ rest) := by
  have htake : (text ++ rest).takeWhile Char.isDigit = text.takeWhile Char.isDigit := by
    rw [takeWhile_append]
    split_ifs with hall
    · rw [takeWhile_isDigit_of_ends h, append_nil]
      exact ((List.takeWhile_prefix _).eq_of_length hall).symm
    · rfl
  have hle := (List.takeWhile_prefix Char.isDigit (l := text)).length_le
  simp only [readDigits, htake]
  split_ifs
  · rfl
  · rw [drop_append_of_le_length hle, map_some]

/-- A number is read part by part. -/
theorem readNumber_eq (text : List Char) : readNumber text =
    (readDigits (if text.head? = some '-' then text.drop 1 else text)).bind fun p =>
      if p.1.head? = some '0' ∧ p.1 ≠ ['0'] then none
      else some (numberOf (text.head? = some '-') p.1 (fractionOf p.2).1
        ((exponentOf (fractionOf p.2).2).map fun e => (e.1, e.2.1)),
        ((exponentOf (fractionOf p.2).2).map fun e => e.2.2).getD (fractionOf p.2).2) := by
  simp only [readNumber]
  refine congrArg (Option.bind _) (funext fun p => ?_)
  split_ifs <;> rfl

theorem fractionOf_append (h : Ends rest) :
    fractionOf (text ++ rest) = ((fractionOf text).1, (fractionOf text).2 ++ rest) := by
  cases text with
  | nil =>
    cases rest with
    | nil => rfl
    | cons c rest =>
      have hc : c ≠ '.' := by
        rintro rfl
        exact absurd (h _ rfl) (by decide)
      rw [nil_append, fractionOf]
      · rfl
      · exact fun _ heq => hc (List.cons.inj heq).1
  | cons c text =>
    by_cases hc : c = '.'
    · subst hc
      rw [cons_append, fractionOf, fractionOf, readDigits_append h]
      cases readDigits text <;> rfl
    · rw [cons_append, fractionOf, fractionOf]
      · rfl
      · exact fun _ heq => hc (List.cons.inj heq).1
      · exact fun _ heq => hc (List.cons.inj heq).1

/-- An exponent without a sign. -/
theorem exponentOf_unsigned {e : Char} (hminus : ∀ more, text ≠ '-' :: more)
    (hplus : ∀ more, text ≠ '+' :: more) : exponentOf (e :: text) =
      if e = 'e' ∨ e = 'E' then (readDigits text).map (false, ·) else none := by
  rw [exponentOf]
  · exact fun more heq => hminus more heq
  · exact fun more heq => hplus more heq

theorem exponentOf_eq_none {c : Char} (hc : ¬ (c = 'e' ∨ c = 'E')) :
    exponentOf (c :: text) = none := by
  unfold exponentOf
  split
  · rename_i heq
    rw [(List.cons.inj heq).1] at hc
    exact if_neg hc
  · rename_i heq
    rw [(List.cons.inj heq).1] at hc
    exact if_neg hc
  · rename_i heq
    rw [(List.cons.inj heq).1] at hc
    exact if_neg hc
  · rfl

theorem exponentOf_append (h : Ends rest) : exponentOf (text ++ rest) =
    (exponentOf text).map fun p => (p.1, p.2.1, p.2.2 ++ rest) := by
  have hdigits : ∀ (b : Bool) (more : List Char),
      (readDigits (more ++ rest)).map ((b, ·) : List Char × List Char → _) =
        ((readDigits more).map (b, ·)).map fun p => (p.1, p.2.1, p.2.2 ++ rest) := by
    intro b more
    rw [readDigits_append h]
    cases readDigits more <;> rfl
  have hite : ∀ (e : Char) (b : Bool) (more : List Char),
      (if e = 'e' ∨ e = 'E' then (readDigits (more ++ rest)).map ((b, ·)) else none) =
        (if e = 'e' ∨ e = 'E' then (readDigits more).map ((b, ·)) else none).map
          fun p => (p.1, p.2.1, p.2.2 ++ rest) := by
    intro e b more
    split_ifs
    · exact hdigits b more
    · rfl
  cases text with
  | nil =>
    cases rest with
    | nil => rfl
    | cons c rest =>
      have hc : ¬ (c = 'e' ∨ c = 'E') := by
        rintro (rfl | rfl) <;> exact absurd (h _ rfl) (by decide)
      rw [nil_append, exponentOf_eq_none hc]
      rfl
  | cons e text =>
    cases text with
    | nil =>
      rw [singleton_append, exponentOf_unsigned (fun _ heq => ?_) (fun _ heq => ?_)]
      · exact hite e false []
      · exact absurd (h '-' (by rw [heq]; rfl)) (by decide)
      · exact absurd (h '+' (by rw [heq]; rfl)) (by decide)
    | cons c text =>
      by_cases hminus : c = '-'
      · rw [hminus]
        exact hite e true text
      by_cases hplus : c = '+'
      · rw [hplus]
        exact hite e false text
      rw [cons_append, exponentOf_unsigned, exponentOf_unsigned]
      · exact hite e false (c :: text)
      · exact fun _ heq => hminus (List.cons.inj heq).1
      · exact fun _ heq => hplus (List.cons.inj heq).1
      · exact fun _ heq => hminus (List.cons.inj heq).1
      · exact fun _ heq => hplus (List.cons.inj heq).1

/-- **A number is read whatever follows it**, but for what belongs to a number. -/
theorem readNumber_append {x : Json} (h : readNumber text = some (x, [])) (hends : Ends rest) :
    readNumber (text ++ rest) = some (x, rest) := by
  cases text with
  | nil => simp [readNumber_eq, readDigits] at h
  | cons c text =>
    rw [readNumber_eq] at h ⊢
    have hhead : (c :: text ++ rest).head? = (c :: text).head? := rfl
    have hsigned : (if (c :: text ++ rest).head? = some '-' then (c :: text ++ rest).drop 1
        else c :: text ++ rest) =
        (if (c :: text).head? = some '-' then (c :: text).drop 1 else c :: text) ++ rest := by
      rw [hhead]
      split_ifs <;> rfl
    obtain ⟨p, hp, h⟩ := bind_eq_some_iff.mp h
    rw [ite_none_left_eq_some, Option.some.injEq, Prod.mk.injEq] at h
    obtain ⟨hzero, rfl, hleft⟩ := h
    rw [hsigned, readDigits_append hends, hp, map_some, bind_some, hhead,
      if_neg hzero, fractionOf_append hends, exponentOf_append hends]
    cases hexponent : exponentOf (fractionOf p.2).2 with
    | none =>
      rw [hexponent] at hleft
      simp_all
    | some e =>
      rw [hexponent] at hleft
      simp_all

end Numbers

/-! ## Values as they are written -/

/-- The text of a value without parts. -/
inductive IsWord : List Char → Json → Prop
  | nullWord : IsWord ['n', 'u', 'l', 'l'] .null
  | trueWord : IsWord ['t', 'r', 'u', 'e'] (.bool true)
  | falseWord : IsWord ['f', 'a', 'l', 's', 'e'] (.bool false)
  | number {text : List Char} {x : Json} (hchars : ∀ c ∈ text, isNumberChar c = true)
    (h : readNumber text = some (x, [])) : IsWord text x

mutual

/-- A value as it is written. -/
inductive Doc where
  | word (text : List Char) (value : Json)
  | string (s : Written)
  | array (inner : Gap) (items : Items)
  | object (inner : Gap) (members : Members)

/-- The items of a list up to its end; behind a comma nothing need follow. -/
inductive Items where
  | done
  | last (d : Doc) (gap : Gap)
  | more (d : Doc) (gap after : Gap) (rest : Items)

/-- The members of an object up to its end. -/
inductive Members where
  | done
  | last (name : Written) (before behind : Gap) (d : Doc) (gap : Gap)
  | more (name : Written) (before behind : Gap) (d : Doc) (gap after : Gap) (rest : Members)

end

mutual

/-- The value that is written. -/
def Doc.value : Doc → Json
  | .word _ x => x
  | .string s => .str (content s)
  | .array _ items => .arr items.values
  | .object _ members => .obj (distinct members.values)

def Items.values : Items → List Json
  | .done => []
  | .last d _ => [d.value]
  | .more d _ _ rest => d.value :: rest.values

def Members.values : Members → List (String × Json)
  | .done => []
  | .last name _ _ d _ => [(content name, d.value)]
  | .more name _ _ d _ _ rest => (content name, d.value) :: rest.values

end

mutual

/-- The text of a value, given what the gaps in it show. -/
def Doc.textWith (g : Gap → List Char) : Doc → List Char
  | .word text _ => text
  | .string s => quoted s
  | .array inner items => '[' :: (g inner ++ items.textWith g)
  | .object inner members => '{' :: (g inner ++ members.textWith g)

def Items.textWith (g : Gap → List Char) : Items → List Char
  | .done => [']']
  | .last d gap => d.textWith g ++ (g gap ++ [']'])
  | .more d gap after rest => d.textWith g ++ (g gap ++ ',' :: (g after ++ rest.textWith g))

def Members.textWith (g : Gap → List Char) : Members → List Char
  | .done => ['}']
  | .last name before behind d gap =>
    quoted name ++ (g before ++ ':' :: (g behind ++ (d.textWith g ++ (g gap ++ ['}']))))
  | .more name before behind d gap after rest =>
    quoted name ++ (g before ++ ':' :: (g behind ++ (d.textWith g ++ (g gap ++ ',' ::
      (g after ++ rest.textWith g)))))

end

mutual

/-- Words, strings and gaps are what they should be. -/
def Doc.Valid : Doc → Prop
  | .word text x => IsWord text x
  | .string s => Spelled s
  | .array inner items => inner.Valid ∧ items.Valid
  | .object inner members => inner.Valid ∧ members.Valid

def Items.Valid : Items → Prop
  | .done => True
  | .last d gap => d.Valid ∧ gap.Valid
  | .more d gap after rest => d.Valid ∧ gap.Valid ∧ after.Valid ∧ rest.Valid

def Members.Valid : Members → Prop
  | .done => True
  | .last name before behind d gap =>
    Spelled name ∧ before.Valid ∧ behind.Valid ∧ d.Valid ∧ gap.Valid
  | .more name before behind d gap after rest =>
    Spelled name ∧ before.Valid ∧ behind.Valid ∧ d.Valid ∧ gap.Valid ∧ after.Valid ∧ rest.Valid

end

mutual

/-- No comma stands behind a last element. -/
def Doc.Strict : Doc → Prop
  | .word _ _ | .string _ => True
  | .array _ items => items.Strict
  | .object _ members => members.Strict

def Items.Strict : Items → Prop
  | .done => True
  | .last d _ => d.Strict
  | .more d _ _ rest => d.Strict ∧ rest ≠ .done ∧ rest.Strict

def Members.Strict : Members → Prop
  | .done => True
  | .last _ _ _ d _ => d.Strict
  | .more _ _ _ d _ _ rest => d.Strict ∧ rest ≠ .done ∧ rest.Strict

end

mutual

/-- No object names a member twice. -/
def Doc.Distinct : Doc → Prop
  | .word _ _ | .string _ => True
  | .array _ items => items.Distinct
  | .object _ members => (members.values.map Prod.fst).Nodup ∧ members.Distinct

def Items.Distinct : Items → Prop
  | .done => True
  | .last d _ => d.Distinct
  | .more d _ _ rest => d.Distinct ∧ rest.Distinct

def Members.Distinct : Members → Prop
  | .done => True
  | .last _ _ _ d _ => d.Distinct
  | .more _ _ _ d _ _ rest => d.Distinct ∧ rest.Distinct

end

/-! ## Reading -/

section Reading

variable {text rest : List Char} {fuel : ℕ} {x : Json} {gap : Gap}

theorem skip_append {blank : List Char} (h : ∀ c ∈ blank, c ∈ [' ', '\n', '\r', '\t']) :
    skip (blank ++ text) = skip text := by
  induction blank with
  | nil => rfl
  | cons c blank ih =>
    rw [cons_append, skip, dropWhile_cons_of_pos (by simpa using h c mem_cons_self)]
    exact ih fun c hc => h c (mem_cons_of_mem _ hc)

theorem skip_blank (h : gap.Valid) : skip (gap.blank ++ text) = skip text :=
  skip_append h.blank_space

theorem readValue_blank (h : gap.Valid) :
    readValue fuel (gap.blank ++ text) = readValue fuel text := by
  cases fuel with
  | zero => rfl
  | succ fuel => simp only [readValue, skip_blank h]

theorem readMember_blank (h : gap.Valid) :
    readMember fuel (gap.blank ++ text) = readMember fuel text := by
  cases fuel with
  | zero => rfl
  | succ fuel => simp only [readMember, skip_blank h]

/-- A number is over before white space, and before what is no part of one. -/
theorem ends_blank (h : gap.Valid) {c : Char} (hc : isNumberChar c = false) :
    Ends (gap.blank ++ c :: rest) := by
  cases hblank : gap.blank with
  | nil => exact fun d hd => by rwa [← Option.some.inj hd]
  | cons b blank =>
    have hb := h.blank_space b (by rw [hblank]; exact mem_cons_self)
    intro d hd
    obtain rfl := Option.some.inj hd
    simp only [mem_cons, not_mem_nil, or_false] at hb
    rcases hb with rfl | rfl | rfl | rfl <;> decide

/-- What the first character of a value may be. -/
def startsValue (c : Char) : Bool := isNumberChar c || c ∈ ['n', 't', 'f', '"', '[', '{']

theorem not_mem_of_startsValue {c : Char} {chars : List Char} (h : startsValue c = true)
    (hchars : chars.all fun d => !startsValue d) : c ∉ chars := fun hmem => by
  have := all_eq_true.mp hchars c hmem
  simp [h] at this

theorem IsWord.head (h : IsWord text x) : ∃ c tail, text = c :: tail ∧ startsValue c = true := by
  cases h with
  | nullWord => exact ⟨_, _, rfl, by decide⟩
  | trueWord => exact ⟨_, _, rfl, by decide⟩
  | falseWord => exact ⟨_, _, rfl, by decide⟩
  | number hchars h =>
    cases text with
    | nil => simp [readNumber_eq, readDigits] at h
    | cons c tail =>
      exact ⟨c, tail, rfl, by rw [startsValue, hchars c mem_cons_self, Bool.true_or]⟩

theorem Doc.head (g : Gap → List Char) {d : Doc} (h : d.Valid) :
    ∃ c tail, d.textWith g = c :: tail ∧ startsValue c = true := by
  cases d with
  | word text x => exact IsWord.head h
  | string => exact ⟨_, _, rfl, by decide⟩
  | array => exact ⟨_, _, rfl, by decide⟩
  | object => exact ⟨_, _, rfl, by decide⟩

/-- **A word is read back** where it is over. -/
theorem IsWord.readValue (h : IsWord text x) (hends : Ends rest) :
    readValue (fuel + 1) (text ++ rest) = some (x, rest) := by
  cases h with
  | nullWord => simp [Json.readValue, skip]
  | trueWord => simp [Json.readValue, skip]
  | falseWord => simp [Json.readValue, skip]
  | number hchars h =>
    cases text with
    | nil => simp [readNumber_eq, readDigits] at h
    | cons c tail =>
      have hread := readNumber_append h hends
      have hc := hchars c mem_cons_self
      have hskip : skip (c :: tail ++ rest) = c :: tail ++ rest := by
        refine Json.skip_cons fun hmem => ?_
        simp only [mem_cons, not_mem_nil, or_false] at hmem
        rcases hmem with rfl | rfl | rfl | rfl <;> exact absurd hc (by decide)
      simp only [Json.readValue, hskip]
      split
      all_goals first
        | exact hread
        | rename_i heq
          rw [(List.cons.inj heq).1] at hc
          exact absurd hc (by decide)

/-- What the items of a list begin with, unless there are none. -/
theorem Items.head (g : Gap → List Char) {items : Items} (hne : items ≠ .done) (h : items.Valid) :
    ∃ c tail, items.textWith g = c :: tail ∧ startsValue c = true := by
  cases items with
  | done => exact absurd rfl hne
  | last d gap =>
    obtain ⟨c, tail, hhead, hc⟩ := Doc.head g h.1
    exact ⟨c, _, by rw [Items.textWith, hhead, cons_append], hc⟩
  | more d gap after items =>
    obtain ⟨c, tail, hhead, hc⟩ := Doc.head g h.1
    exact ⟨c, _, by rw [Items.textWith, hhead, cons_append], hc⟩

theorem Members.head (g : Gap → List Char) {members : Members} (hne : members ≠ .done) :
    ∃ tail, members.textWith g = '"' :: tail := by
  cases members with
  | done => exact absurd rfl hne
  | last => exact ⟨_, rfl⟩
  | more => exact ⟨_, rfl⟩

/-- A member is read when its value is. -/
theorem readMember_text {name : Written} {before behind : Gap} (hname : Spelled name)
    (hbefore : before.Valid) (hbehind : behind.Valid) (hfuel : (body name).length < fuel)
    (hvalue : readValue fuel text = some (x, rest)) :
    readMember (fuel + 1) (quoted name ++ (before.blank ++ ':' :: (behind.blank ++ text))) =
      some ((content name, x), rest) := by
  have hstring : readString fuel
      (body name ++ '"' :: (before.blank ++ ':' :: (behind.blank ++ text))) =
        some (name.map Prod.snd, before.blank ++ ':' :: (behind.blank ++ text)) :=
    hname.readString hfuel
  simp only [readMember, quoted, cons_append, append_assoc, nil_append]
  rw [Json.skip_cons (by decide)]
  simp only [hstring, bind_eq_bind, bind_some, skip_blank hbefore]
  rw [Json.skip_cons (by decide)]
  simp [readValue_blank hbehind, hvalue, content]

mutual

/-- **A value is read back from its text** without comments and commas left over, where it ends. -/
theorem readValue_text : ∀ (d : Doc) (fuel : ℕ) (rest : List Char), d.Valid → d.Strict →
    Ends rest → (d.textWith Gap.blank).length < fuel →
    readValue fuel (d.textWith Gap.blank ++ rest) = some (d.value, rest)
  | _, 0, _, _, _, _, hfuel => absurd hfuel (Nat.not_lt_zero _)
  | .word text x, fuel + 1, rest, hvalid, _, hends, _ => IsWord.readValue hvalid hends
  | .string s, fuel + 1, rest, hvalid, _, _, hfuel => by
    simp only [Doc.textWith, quoted, length_cons, length_append] at hfuel
    have hstring : readString fuel (body s ++ '"' :: rest) = some (s.map Prod.snd, rest) :=
      Spelled.readString hvalid (by omega)
    simp only [Doc.textWith, quoted, cons_append, append_assoc, nil_append,
      readValue]
    rw [Json.skip_cons (by decide)]
    simp [hstring, Doc.value, content]
  | .array inner items, fuel + 1, rest, hvalid, hstrict, _, hfuel => by
    simp only [Doc.textWith, length_cons, length_append] at hfuel
    simp only [Doc.textWith, cons_append, append_assoc, readValue]
    rw [Json.skip_cons (by decide)]
    simp only [skip_blank hvalid.1]
    by_cases hdone : items = .done
    · subst hdone
      simp [Items.textWith, skip, Doc.value, Items.values]
    · obtain ⟨x, xs, after, hx, hxs, hvalues⟩ :=
        readItems_text items fuel rest hdone hvalid.2 hstrict (by omega)
      obtain ⟨c, tail, hhead, hc⟩ := Items.head Gap.blank hdone hvalid.2
      simp only [hhead, cons_append] at hx ⊢
      rw [Json.skip_cons (not_mem_of_startsValue hc (by decide))]
      split
      · rename_i heq
        rw [(List.cons.inj heq).1] at hc
        exact absurd hc (by decide)
      · simp [hx, hxs, Doc.value, ← hvalues]
  | .object inner members, fuel + 1, rest, hvalid, hstrict, _, hfuel => by
    simp only [Doc.textWith, length_cons, length_append] at hfuel
    simp only [Doc.textWith, cons_append, append_assoc, readValue]
    rw [Json.skip_cons (by decide)]
    simp only [skip_blank hvalid.1]
    by_cases hdone : members = .done
    · subst hdone
      simp [Members.textWith, skip, Doc.value, Members.values, distinct]
    · obtain ⟨m, ms, after, hm, hms, hvalues⟩ :=
        readMembers_text members fuel rest hdone hvalid.2 hstrict (by omega)
      obtain ⟨tail, hhead⟩ := Members.head Gap.blank hdone
      simp only [hhead, cons_append] at hm ⊢
      rw [Json.skip_cons (by decide)]
      simp [hm, hms, Doc.value, ← hvalues]

theorem readItems_text : ∀ (items : Items) (fuel : ℕ) (rest : List Char), items ≠ .done →
    items.Valid → items.Strict → (items.textWith Gap.blank).length ≤ fuel →
    ∃ x xs after, readValue fuel (items.textWith Gap.blank ++ rest) = some (x, after) ∧
      readItems fuel after = some (xs, rest) ∧ x :: xs = items.values
  | .done, _, _, hne, _, _, _ => absurd rfl hne
  | .last d gap, fuel, rest, _, hvalid, hstrict, hfuel => by
    simp only [Items.textWith, length_append, length_cons, length_nil] at hfuel
    have hvalue := readValue_text d fuel (gap.blank ++ ']' :: rest) hvalid.1 hstrict
      (ends_blank hvalid.2 (by decide)) (by omega)
    obtain ⟨fuel, rfl⟩ : ∃ n, fuel = n + 1 := ⟨fuel - 1, by omega⟩
    refine ⟨d.value, [], gap.blank ++ ']' :: rest, ?_, ?_, rfl⟩
    · rw [Items.textWith, append_assoc, append_assoc]
      exact hvalue
    · rw [readItems, skip_blank hvalid.2, Json.skip_cons (by decide)]
      rfl
  | .more d gap after items, fuel, rest, _, hvalid, hstrict, hfuel => by
    simp only [Items.textWith, length_append, length_cons] at hfuel
    have hvalue := readValue_text d fuel
      (gap.blank ++ ',' :: (after.blank ++ (items.textWith Gap.blank ++ rest))) hvalid.1 hstrict.1
      (ends_blank hvalid.2.1 (by decide)) (by omega)
    obtain ⟨fuel, rfl⟩ : ∃ n, fuel = n + 1 := ⟨fuel - 1, by omega⟩
    obtain ⟨x, xs, left, hx, hxs, hvalues⟩ :=
      readItems_text items fuel rest hstrict.2.1 hvalid.2.2.2 hstrict.2.2 (by omega)
    refine ⟨d.value, items.values,
      gap.blank ++ ',' :: (after.blank ++ (items.textWith Gap.blank ++ rest)), ?_, ?_, rfl⟩
    · rw [Items.textWith, append_assoc, append_assoc, cons_append, append_assoc]
      exact hvalue
    · rw [readItems, skip_blank hvalid.2.1, Json.skip_cons (by decide)]
      simp [readValue_blank hvalid.2.2.1, hx, hxs, hvalues]

theorem readMembers_text : ∀ (members : Members) (fuel : ℕ) (rest : List Char),
    members ≠ .done → members.Valid → members.Strict →
    (members.textWith Gap.blank).length ≤ fuel →
    ∃ m ms after, readMember fuel (members.textWith Gap.blank ++ rest) = some (m, after) ∧
      readMembers fuel after = some (ms, rest) ∧ m :: ms = members.values
  | .done, _, _, hne, _, _, _ => absurd rfl hne
  | .last name before behind d gap, fuel, rest, _, hvalid, hstrict, hfuel => by
    simp only [Members.textWith, quoted, length_append, length_cons,
      length_nil] at hfuel
    obtain ⟨hname, hbefore, hbehind, hd, hgap⟩ := hvalid
    obtain ⟨fuel, rfl⟩ : ∃ n, fuel = n + 1 := ⟨fuel - 1, by omega⟩
    have hvalue := readValue_text d fuel (gap.blank ++ '}' :: rest) hd hstrict
      (ends_blank hgap (by decide)) (by omega)
    have hmember := readMember_text hname hbefore hbehind (by omega) hvalue
    refine ⟨(content name, d.value), [], gap.blank ++ '}' :: rest, ?_, ?_, rfl⟩
    · simp only [Members.textWith, append_assoc, cons_append, nil_append]
      exact hmember
    · rw [readMembers, skip_blank hgap, Json.skip_cons (by decide)]
      rfl
  | .more name before behind d gap after members, fuel, rest, _, hvalid, hstrict, hfuel => by
    simp only [Members.textWith, quoted, length_append, length_cons] at hfuel
    obtain ⟨hname, hbefore, hbehind, hd, hgap, hafter, hmembers⟩ := hvalid
    obtain ⟨fuel, rfl⟩ : ∃ n, fuel = n + 1 := ⟨fuel - 1, by omega⟩
    have hvalue := readValue_text d fuel
      (gap.blank ++ ',' :: (after.blank ++ (members.textWith Gap.blank ++ rest))) hd hstrict.1
      (ends_blank hgap (by decide)) (by omega)
    have hmember := readMember_text hname hbefore hbehind (by omega) hvalue
    obtain ⟨m, ms, left, hm, hms, hvalues⟩ :=
      readMembers_text members fuel rest hstrict.2.1 hmembers hstrict.2.2 (by omega)
    refine ⟨(content name, d.value), members.values,
      gap.blank ++ ',' :: (after.blank ++ (members.textWith Gap.blank ++ rest)), ?_, ?_, rfl⟩
    · simp only [Members.textWith, append_assoc, cons_append]
      exact hmember
    · rw [readMembers, skip_blank hgap, Json.skip_cons (by decide)]
      simp [readMember_blank hafter, hm, hms, hvalues]

end

/-- **A document is read back from its text** without comments and commas left over. -/
theorem loads_text {d : Doc} {before after : Gap} (hbefore : before.Valid) (hd : d.Valid)
    (hstrict : d.Strict) (hafter : after.Valid) :
    loads (before.blank ++ (d.textWith Gap.blank ++ after.blank)) = some d.value := by
  have hends : Ends after.blank := by
    cases hblank : after.blank with
    | nil => exact fun _ h => absurd h (not_mem_none _)
    | cons c blank =>
      have hc := hafter.blank_space c (by rw [hblank]; exact mem_cons_self)
      intro d hd
      obtain rfl := Option.some.inj hd
      simp only [mem_cons, not_mem_nil, or_false] at hc
      rcases hc with rfl | rfl | rfl | rfl <;> decide
  have hread := readValue_text d
    ((before.blank ++ (d.textWith Gap.blank ++ after.blank)).length + 1) after.blank hd hstrict
    hends (by simp only [length_append]; omega)
  have hskip : skip after.blank = [] := by
    have hblank : skip (after.blank ++ []) = skip [] := skip_blank hafter
    rwa [append_nil] at hblank
  simp only [loads, readValue_blank hbefore, hread, hskip, if_true]

end Reading

end JsonDocument

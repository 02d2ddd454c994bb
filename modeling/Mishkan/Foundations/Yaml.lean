import Mishkan.Foundations.Lines

/-!
# Foundations/Yaml — documents as values

`Yaml` is what a document is read as, with the kinds a program tells apart: every number, truth
value or date is a `scalar`, which keeps its truth value.  The keys of a mapping are values too.  A
`Codec` is the writer and the reader of a library, of which is known only what a theorem assumes.
-/

open Lines

inductive Yaml where
  | null
  | str (text : String)
  | seq (items : List Yaml)
  | map (members : List (Yaml × Yaml))
  | scalar (truthy : Bool) (text : String)

namespace Yaml

/-- The members of a mapping. -/
abbrev Members := List (Yaml × Yaml)

/-! ## Kinds -/

def asStr? : Yaml → Option String
  | .str text => some text
  | _ => none

def asMap? : Yaml → Option Members
  | .map members => some members
  | _ => none

@[simp] theorem asMap?_map (members : Members) : (map members).asMap? = some members := rfl

/-- The texts of a list of texts. -/
def strings? : Yaml → Option (List String)
  | .seq items => items.mapM asStr?
  | _ => none

def isNull : Yaml → Bool
  | .null => true
  | _ => false

def truthy : Yaml → Bool
  | .null => false
  | .str text => text ≠ ""
  | .seq items => !items.isEmpty
  | .map members => !members.isEmpty
  | .scalar truthy _ => truthy

/-- `value or {}`. -/
def orEmpty (value : Yaml) : Yaml := if value.truthy then value else .map []

/-- Whether the value equals a text, or the absence of one. -/
def equals (value : Yaml) (text : Option String) : Bool :=
  match value, text with
  | .null, none => true
  | .str s, some t => s = t
  | _, _ => false

/-- A text, or null. -/
def ofOption : Option String → Yaml
  | some text => .str text
  | none => .null

theorem equals_ofOption (text : Option String) : (ofOption text).equals text = true := by
  cases text <;> simp [ofOption, equals]

theorem null_equals {text : Option String} : null.equals text = true ↔ text = none := by
  cases text <;> simp [equals]

theorem equals_some {value : Yaml} {text : String} :
    value.equals (some text) = true ↔ value = .str text := by
  cases value <;> simp [equals]

/-! ## Members -/

/-- The member under a text. -/
def member? (members : Members) (key : String) : Option Yaml :=
  (members.find? fun m => m.1.asStr? = some key).map Prod.snd

/-- `members.get(key)`, or with a default. -/
def get (members : Members) (key : String) (default : Yaml := .null) : Yaml :=
  (member? members key).getD default

/-! ## Writing lists and mappings of texts -/

/-- A list of texts. -/
def strings (values : List String) : Yaml := .seq (values.map .str)

@[simp] theorem strings?_strings (values : List String) :
    (strings values).strings? = some values := by
  rw [strings, strings?, List.mapM_map]
  induction values with
  | nil => rfl
  | cons value values ih =>
    rw [List.mapM_cons, ih]
    rfl

/-! ## Writers and readers -/

structure Codec where
  dump : Yaml → Text
  load : Text → Option Yaml

namespace Codec

variable (codec : Codec)

/-- The reader reads a value back from what the writer made of it. -/
def Inverts (value : Yaml) : Prop := codec.load (codec.dump value) = some value

/-- All that `strip` takes from the written value is the line feed it ends in. -/
def Trims (value : Yaml) : Prop := strip (codec.dump value) ++ ['\n'] = codec.dump value

variable {codec} in
theorem trims_of_line {value : Yaml} {line : Text} (h : codec.dump value = line ++ ['\n'])
    (hhead : line.head?.any isSpace = false) (hlast : line.getLast?.any isSpace = false) :
    codec.Trims value := by
  have hinert : ∀ {o : Option Char}, o.any isSpace = false → ∀ c ∈ o, isSpace c = false := by
    rintro _ h c rfl
    exact h
  rw [Trims, h, strip_append_lineFeed (hinert hhead) (hinert hlast)]

end Codec

end Yaml

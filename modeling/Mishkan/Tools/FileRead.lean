import Mishkan.Domain.Errors
import Mishkan.Foundations.Base64
import Mishkan.Foundations.Refusal
import Mishkan.Foundations.Utf16
import Mishkan.Foundations.Utf8Faults

/-!
# Tools/FileRead — bounded reads of a file, as bytes, text or lines

`FileReadAdapter` reads a part of a file that fits into a bound.  Text is cut in front of a
character that does not fit, and the reader goes on at `continuation_offset`.  Lines are cut out of
the whole text, written to bytes again and measured in them.
-/

namespace Mishkan.FileRead

open Refusal Utf16

abbrev Text := List Char

/-! ## Codecs -/

/-- The codecs a file is read with; any other name is taken for one that is not known. -/
inductive Encoding where
  | utf8 | latin1 | utf16
  | unknown (name : String)
deriving DecidableEq

def Encoding.value : Encoding → String
  | .utf8 => "utf-8"
  | .latin1 => "latin-1"
  | .utf16 => "utf-16"
  | .unknown name => name

/-- Why bytes are not decoded: `LookupError`, or `UnicodeDecodeError` with `start` and `end`. -/
inductive DecodeFault where
  | lookup
  | unicode (start stop : ℕ)
deriving DecidableEq

/-- `raw.decode(encoding, errors="strict")` -/
def decode (host : ByteOrder) (encoding : Encoding) (raw : List UInt8) : Except DecodeFault Text :=
  match encoding with
  | .utf8 => (Utf8.decodeStrict raw).mapError fun e => .unicode e.1 e.2
  | .latin1 => .ok (raw.map fun b => Char.ofNat b.toNat)
  | .utf16 => (Utf16.decode host raw).mapError fun e => .unicode e.1 e.2
  | .unknown _ => .error .lookup

/-- `text.encode(encoding)`, which puts a mark in front of code units. -/
def encode (host : ByteOrder) (encoding : Encoding) (text : Text) : Except Raised (List UInt8) :=
  match encoding with
  | .utf8 => .ok (Lines.encode text)
  | .latin1 =>
    if text.all fun c => c.toNat < 256 then .ok (text.map fun c => UInt8.ofNat c.toNat)
    else .error (.valueError "UnicodeEncodeError")
  | .utf16 => .ok (mark host ++ Utf16.encode host text)
  | .unknown _ => .error (.valueError "LookupError")

/-! ## Calls -/

/-- What the path of a call names. -/
inductive Target where
  | missing
  | irregular
  | regular (content : List UInt8)

structure ReadArguments where
  mode : String
  encoding : Encoding := .utf8
  binaryPolicy : String := "reject"
  maxBytes : Option ℤ := none
  offset : ℤ := 0
  length : Option ℤ := none
  startLine : ℤ := 1
  endLine : Option ℤ := none
  lineCount : ℤ := 20

structure ReadOutput where
  mode : String
  content : Text
  contentFormat : String
  encoding : Option Encoding
  byteRange : ℕ × ℕ
  lineRange : Option (ℕ × ℕ)
  totalBytes : ℕ
  truncated : Bool
  continuationOffset : Option ℕ
deriving DecidableEq

structure FileReadAdapter where
  maxBytes : ℕ
  maxScanBytes : ℕ

def encodingError (encoding : Encoding) : Raised :=
  fault .file "file cannot be decoded with the requested encoding"
    [("category", .str "encoding_error"), ("encoding", .str encoding.value)]

/-- `_trim_incomplete_character` -/
def trimIncompleteCharacter (host : ByteOrder) (raw : List UInt8) (encoding : Encoding) :
    List UInt8 :=
  match decode host encoding raw with
  | .error (.unicode start stop) => if stop = raw.length ∧ 0 < start then raw.take start else raw
  | _ => raw

/-- What a part of a file is, and where: the bytes, their range, the lines, and whether the bound
cut it. -/
structure Part where
  raw : List UInt8
  byteRange : ℕ × ℕ
  lineRange : Option (ℕ × ℕ) := none
  truncated : Bool

/-- `_read_bytes` -/
def readBytes (host : ByteOrder) (content : List UInt8) (arguments : ReadArguments) (limit : ℕ) :
    Except Raised Part := do
  refuseIf (arguments.mode ∉ ["bytes", "text", "range"]) <| fault .file "read mode is unsupported"
    [("category", .str "invalid_query"), ("mode", .str arguments.mode)]
  refuseIf (arguments.offset < 0) (fault .file "read offset must not be negative")
  let offset := arguments.offset.toNat
  refuseIf (content.length < offset) <| fault .file "read offset is beyond the end of the file"
    [("category", .str "invalid_query"), ("offset", .int offset),
      ("total_bytes", .int content.length)]
  let length := (arguments.length.map (min (limit : ℤ))).getD limit
  refuseIf (length < 1) (fault .file "read length must be positive")
  let bounded := (content.drop offset).take length.toNat
  let raw := if arguments.mode ∈ ["text", "range"] then
    trimIncompleteCharacter host bounded arguments.encoding else bounded
  refuseIf (bounded ≠ [] ∧ raw = []) <| fault .file
    "read bound is too small for one encoded character"
    [("category", .str "size_limit"), ("limit", .int limit)]
  return { raw := raw, byteRange := (offset, offset + raw.length),
           truncated := offset + raw.length < content.length }

/-- The lines that are asked for, counted from one. -/
def requestedLines (arguments : ReadArguments) (total : ℕ) : Except Raised (ℤ × ℤ) :=
  if arguments.mode = "lines" then
    .ok (arguments.startLine, arguments.endLine.getD arguments.startLine)
  else if arguments.lineCount < 1 then .error (fault .file "line count must be positive")
  else if arguments.mode = "head" then .ok (1, min arguments.lineCount total)
  else .ok (max 1 (total - arguments.lineCount + 1), total)

/-- `_read_lines` -/
def readLines (adapter : FileReadAdapter) (host : ByteOrder) (content : List UInt8)
    (arguments : ReadArguments) (limit : ℕ) : Except Raised Part := do
  refuseIf (adapter.maxScanBytes < content.length) <| fault .file
    "line read exceeds the configured scan limit" [("category", .str "size_limit")]
  let text ← (decode host arguments.encoding content).mapError
    fun _ => encodingError arguments.encoding
  let lines := Lines.splitLines text
  if lines = [] then return { raw := [], byteRange := (0, 0), truncated := false }
  else
    let (start, stop) ← requestedLines arguments lines.length
    refuseIf (start < 1 ∨ stop < start) <|
      fault .file "line range is invalid" [("category", .str "invalid_query")]
    refuseIf ((lines.length : ℤ) < start) <| fault .file
      "requested line starts beyond the end of the file"
      [("category", .str "invalid_query"), ("start_line", .int start),
        ("total_lines", .int lines.length)]
    let first := start.toNat
    let last := stop.toNat
    let selected ← encode host arguments.encoding ((lines.take last).drop (first - 1)).flatten
    let raw := trimIncompleteCharacter host (selected.take limit) arguments.encoding
    let before ← encode host arguments.encoding (lines.take (first - 1)).flatten
    return { raw := raw, byteRange := (before.length, before.length + raw.length),
             lineRange := some (first, min last lines.length),
             truncated := limit < selected.length }

/-- `_encode_content` -/
def encodeContent (host : ByteOrder) (raw : List UInt8) (mode : String) (encoding : Encoding)
    (binaryPolicy : String) : Except Raised (Text × String × Option Encoding) :=
  if mode = "bytes" ∨ 0 ∈ raw ∧ binaryPolicy = "base64" then
    .ok (Base64.encode raw, "base64", none)
  else if 0 ∈ raw then .error (fault .file "binary content is refused by the selected policy"
    [("category", .str "binary_content")])
  else
    match decode host encoding raw with
    | .ok text => .ok (text, "text", some encoding)
    | .error _ => .error (encodingError encoding)

def lineModes : List String := ["lines", "head", "tail"]

/-- `FileReadAdapter.invoke`, on a file that nobody changes. -/
def invoke (adapter : FileReadAdapter) (host : ByteOrder) (relative : String) (target : Target)
    (arguments : ReadArguments) : Except Raised ReadOutput := do
  match target with
  | .missing => .error (fault .file "file was not found"
      [("category", .str "not_found"), ("path", .str relative)])
  | .irregular => .error (fault .file "read requires a regular file"
      [("category", .str "unsupported_type"), ("path", .str relative)])
  | .regular content =>
    let requested := arguments.maxBytes.getD adapter.maxBytes
    refuseIf (requested < 1 ∨ (adapter.maxBytes : ℤ) < requested) <| fault .file
      "requested read bound exceeds the configured limit"
      [("category", .str "size_limit"), ("limit", .int adapter.maxBytes)]
    let part ← if arguments.mode ∈ lineModes then
        readLines adapter host content arguments requested.toNat
      else readBytes host content arguments requested.toNat
    let (text, format, encoding) ← encodeContent host part.raw arguments.mode arguments.encoding
      arguments.binaryPolicy
    return {
      mode := arguments.mode
      content := text
      contentFormat := format
      encoding := encoding
      byteRange := part.byteRange
      lineRange := part.lineRange
      totalBytes := content.length
      truncated := part.truncated
      continuationOffset := if part.truncated ∧ arguments.mode ∉ lineModes then
        some part.byteRange.2 else none }

end Mishkan.FileRead

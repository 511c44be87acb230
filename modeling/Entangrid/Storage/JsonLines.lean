/-!
# Files of JSON lines

`append_json_line`, `overwrite_json_lines` and `load_json_lines` of `Storage`, over the text of one
file; a file that does not exist loads like an empty one. `serde_json` is a `JsonCodec`: how a value
is written and what reading a line gives.

A `LogOp` is a call of `append_json_line` that completes, or one that a crash cuts short.
-/

namespace Entangrid

/-- `serde_json::error::Category`. -/
inductive JsonCategory where
  | io | syntaxError | data | eof
deriving DecidableEq

structure JsonCodec (α : Type) where
  /-- `serde_json::to_writer`. -/
  encode : α → List Char
  /-- `serde_json::from_str`. -/
  decode : List Char → Except JsonCategory α

/-! ## Text -/

/-- A `\r` before the end of a line belongs to the line ending. -/
def stripCarriageReturn (line : List Char) : List Char :=
  if line.getLast? = some '\r' then line.dropLast else line

/-- `str::lines`, with the characters of the current line so far. -/
def linesFrom (current : List Char) : List Char → List (List Char)
  | [] => if current.isEmpty then [] else [current]
  | c :: rest =>
    if c = '\n' then stripCarriageReturn current :: linesFrom [] rest
    else linesFrom (current ++ [c]) rest

/-- `char::is_whitespace`: the characters with the Unicode property `White_Space`. -/
def isWhitespace (c : Char) : Bool :=
  let code := c.toNat
  (0x9 ≤ code && code ≤ 0xd) || code == 0x20 || code == 0x85 || code == 0xa0 || code == 0x1680 ||
    (0x2000 ≤ code && code ≤ 0x200a) || code == 0x2028 || code == 0x2029 || code == 0x202f ||
    code == 0x205f || code == 0x3000

/-- `line.trim().is_empty()`. -/
def isBlank (line : List Char) : Bool := line.all isWhitespace

namespace JsonCodec

variable {α : Type} (J : JsonCodec α)

def appendJsonLine (contents : List Char) (value : α) : List Char :=
  contents ++ J.encode value ++ ['\n']

def overwriteJsonLines (values : List α) : List Char := values.foldl J.appendJsonLine []

/-- The loop of `load_json_lines`: an unfinished last line is ignored. -/
def loadLines : List (List Char) → Except JsonCategory (List α)
  | [] => .ok []
  | line :: rest =>
    match J.decode line with
    | .ok value => do
      let values ← loadLines rest
      .ok (value :: values)
    | .error category =>
      if rest.isEmpty && category == .eof then .ok [] else .error category

def loadJsonLines (contents : List Char) : Except JsonCategory (List α) :=
  J.loadLines ((linesFrom [] contents).filter fun line => !isBlank line)

end JsonCodec

/-! ## Crashes -/

inductive LogOp (α : Type) where
  /-- The append completes. -/
  | append (value : α)
  /-- The process dies after writing `written` characters of the value; only the newline is written
  after them, so this is every proper prefix of the line. -/
  | crash (value : α) (written : Nat)

namespace LogOp

variable {α : Type} (J : JsonCodec α)

/-- What a call leaves in the file. -/
def write (contents : List Char) : LogOp α → List Char
  | append value => J.appendJsonLine contents value
  | crash value written => contents ++ (J.encode value).take written

/-- The file after a sequence of calls. -/
def file (ops : List (LogOp α)) : List Char := ops.foldl (write J) []

/-- The values whose append completed. -/
def completed (ops : List (LogOp α)) : List α :=
  ops.filterMap fun
    | append value => some value
    | crash _ _ => none

end LogOp

end Entangrid

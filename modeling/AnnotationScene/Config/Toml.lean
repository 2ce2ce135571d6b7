import AnnotationScene.Config

/-!
# Collector settings in TOML

The part of TOML in which both settings can be written: lines that hold a setting, a comment, both
or neither. A key is bare, or quoted with or without escapes. A byte order mark may open the text,
and a line ends with a line feed, a carriage return before it, or the end of the text.
-/

namespace AnnotationScene.CollectorConfig

namespace Toml

def isSpace (c : Char) : Bool := c == ' ' || c == '\t'

def skipSpaces (s : List Char) : List Char := s.dropWhile isSpace

/-- Characters that may stand inside a line. -/
def isLineChar (c : Char) : Bool := c == '\t' || (0x20 ≤ c.toNat && c.toNat != 0x7f)

def isBareChar (c : Char) : Bool := c.isAlphanum || c == '_' || c == '-'

def simpleEscape? (c : Char) : Option Char :=
  match c with
  | 'b' => some '\x08'
  | 't' => some '\t'
  | 'n' => some '\n'
  | 'f' => some '\x0c'
  | 'r' => some '\r'
  | '"' => some '"'
  | '\\' => some '\\'
  | _ => none

def charOfHex? (digits : List Char) : Option Char :=
  (Json.hexValue? digits).bind fun n => if n.isValidChar then some (Char.ofNat n) else none

def escapedKey : List Char → Option (List Char × List Char)
  | [] => none
  | '"' :: rest => some ([], rest)
  | '\\' :: 'u' :: a :: b :: c :: d :: rest =>
    match charOfHex? [a, b, c, d], escapedKey rest with
    | some c, some (more, rest) => some (c :: more, rest)
    | _, _ => none
  | '\\' :: 'U' :: a :: b :: c :: d :: e :: f :: g :: h :: rest =>
    match charOfHex? [a, b, c, d, e, f, g, h], escapedKey rest with
    | some c, some (more, rest) => some (c :: more, rest)
    | _, _ => none
  | '\\' :: c :: rest =>
    match simpleEscape? c, escapedKey rest with
    | some c, some (more, rest) => some (c :: more, rest)
    | _, _ => none
  | c :: rest =>
    if c == '\\' || !isLineChar c then none
    else (escapedKey rest).map fun (more, rest) => (c :: more, rest)

def literalKey (s : List Char) : Option (List Char × List Char) :=
  let content := s.takeWhile fun c => c != '\'' && isLineChar c
  match s.drop content.length with
  | '\'' :: rest => some (content, rest)
  | _ => none

def key : List Char → Option (List Char × List Char)
  | '"' :: rest => escapedKey rest
  | '\'' :: rest => literalKey rest
  | s =>
    let name := s.takeWhile isBareChar
    if name.isEmpty then none else some (name, s.drop name.length)

def truthValue : List Char → Option (Bool × List Char)
  | 't' :: 'r' :: 'u' :: 'e' :: rest => some (true, rest)
  | 'f' :: 'a' :: 'l' :: 's' :: 'e' :: rest => some (false, rest)
  | _ => none

def setting (s : List Char) : Option ((ConfigKey × Bool) × List Char) := do
  let (name, rest) ← key s
  let k ← ConfigKey.ofName? (String.ofList name)
  match skipSpaces rest with
  | '=' :: rest =>
    let (value, rest) ← truthValue (skipSpaces rest)
    return ((k, value), rest)
  | _ => none

/-- What may follow a setting on its line. -/
def isTail (s : List Char) : Bool :=
  match skipSpaces s with
  | [] => true
  | '#' :: comment => comment.all isLineChar
  | _ => false

/-- The setting of a line, if it has one; `none` for an ill-formed line. -/
def line (s : List Char) : Option (Option (ConfigKey × Bool)) :=
  if isTail s then some none
  else
    match setting (skipSpaces s) with
    | some (found, rest) => if isTail rest then some (some found) else none
    | none => none

def dropReturn (s : List Char) : List Char :=
  if s.getLast? = some '\r' then s.dropLast else s

/-- The last line has no line feed after it, so a carriage return there stays. -/
def lines (s : List Char) : List (List Char) :=
  let all := s.splitOn '\n'
  all.dropLast.map dropReturn ++ all.getLast?.toList

def dropMark : List Char → List Char
  | '\ufeff' :: rest => rest
  | s => s

end Toml

def parseToml? (text : String) : Option CollectorConfig := do
  let found ← (Toml.lines (Toml.dropMark text.toList)).mapM Toml.line
  ofSettings? (found.filterMap id)

end AnnotationScene.CollectorConfig

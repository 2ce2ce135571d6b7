import AnnotationScene.Text.Extending
import AnnotationScene.Text.Unprintable

/-!
# Quoted text

Text between quotation marks, in which the mark, the backslash and the characters that cannot
stand for themselves are escaped. A character without an escape of its own is written by its code
point in hexadecimal.
-/

namespace AnnotationScene.Text

def byCodePoint (c : Char) : List Char :=
  ['\\', 'u', '\x7b'] ++ Nat.toDigits 16 c.toNat ++ ['\x7d']

/-- ASCII needs no table. -/
def standsForItself (c : Char) : Bool :=
  if c.toNat < 0x7f then 0x20 ≤ c.toNat else !isExtending c && !isUnprintable c

def escape (mark c : Char) : List Char :=
  if c == '\x00' then ['\\', '0']
  else if c == '\t' then ['\\', 't']
  else if c == '\r' then ['\\', 'r']
  else if c == '\n' then ['\\', 'n']
  else if c == '\\' || c == mark then ['\\', c]
  else if standsForItself c then [c]
  else byCodePoint c

def quoteWith (mark : Char) (s : List Char) : String :=
  String.ofList (mark :: s.flatMap (escape mark) ++ [mark])

def quote (s : String) : String := quoteWith '"' s.toList

def quoteChar (c : Char) : String := quoteWith '\'' [c]

end AnnotationScene.Text

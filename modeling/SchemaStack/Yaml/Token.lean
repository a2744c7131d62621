/-!
# Tokens of YAML texts

Block collections are bracketed by tokens of their own, which stand for indentation, so that the
structure of a text can be read off its tokens alone.
-/

namespace SchemaStack.Yaml

inductive ScalarStyle where
  | plain
  | quoted
  | literal
  | folded
deriving DecidableEq, Repr, Inhabited

/-- A tag by its bytes, since the escapes in a tag may spell bytes that are no text. -/
abbrev Tag := List UInt8

namespace Tag

def ofText (s : String) : Tag := s.toUTF8.toList

/-- A tag is over before its first zero byte. -/
def ofBytes (bs : List UInt8) : Tag := bs.takeWhile (· ≠ 0)

end Tag

inductive Token where
  | version (major minor : Nat)
  /-- Declares what a tag handle stands for. -/
  | handle (name : String) (meaning : Tag)
  | documentStart
  | documentEnd
  | blockSequence
  | blockMapping
  | blockEnd
  | flowSequence
  | flowSequenceEnd
  | flowMapping
  | flowMappingEnd
  | blockEntry
  | flowEntry
  | key
  | value
  | alias (name : String)
  | anchor (name : String)
  | tag (handle : String) (suffix : Tag)
  | scalar (style : ScalarStyle) (text : String)
deriving DecidableEq, Repr, Inhabited

end SchemaStack.Yaml

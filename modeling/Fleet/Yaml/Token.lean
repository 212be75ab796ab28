import Fleet.Text.Utf8
import Fleet.Yaml.Scalar

/-!
# YAML tokens

A text is read as a list of tokens: the signs of flow collections, the starts and ends that
indentation stands for, and the names, tags and scalars of the values.

## Main definitions

* `Token` — a token.
-/

namespace Fleet.Yaml

/-- A token of a YAML text. -/
inductive Token where
  /-- The version of YAML that the text claims. -/
  | version (major minor : Nat)
  /-- A short form of tags and what it stands for. -/
  | handle (name : List Char) (meaning : Bytes)
  | documentStart
  | documentEnd
  | blockSequenceStart
  | blockMappingStart
  | blockEnd
  | flowSequenceStart
  | flowSequenceEnd
  | flowMappingStart
  | flowMappingEnd
  /-- The dash before an item. -/
  | blockEntry
  /-- The comma between items. -/
  | flowEntry
  | key
  | value
  | alias (name : List Char)
  | anchor (name : List Char)
  /-- A tag: its short form, empty if it has none, and the rest of it. -/
  | tag (handle : List Char) (suffix : Bytes)
  | scalar (style : ScalarStyle) (text : List Char)
deriving DecidableEq

/-- A token between the documents of a text. -/
def Token.isDirective : Token → Bool
  | .version _ _ => true
  | .handle _ _ => true
  | _ => false

end Fleet.Yaml

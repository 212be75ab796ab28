import Fleet.Number.Digit
import Fleet.Yaml.Scalar

/-!
# Quoted scalars

Between single quotation marks a quotation mark is written twice and nothing else is special.
Between double quotation marks a backslash starts an escape: a letter for a character, the
hexadecimal code of one, or the end of the line, which then stands for nothing.

## Main definitions

* `readQuoted?` — reads a quoted scalar after its opening quotation mark.
-/

namespace Fleet.Yaml

/-- The character that a one-letter escape stands for. -/
def escaped? : Char → Option Char
  | '0' => some '\x00'
  | 'a' => some '\x07'
  | 'b' => some '\x08'
  | 't' => some '\t'
  | '\t' => some '\t'
  | 'n' => some '\n'
  | 'v' => some '\x0b'
  | 'f' => some '\x0c'
  | 'r' => some '\r'
  | 'e' => some '\x1b'
  | ' ' => some ' '
  | '"' => some '"'
  | '/' => some '/'
  | '\\' => some '\\'
  | 'N' => some '\u0085'
  | '_' => some '\u00a0'
  | 'L' => some '\u2028'
  | 'P' => some '\u2029'
  | _ => none

/-- How many hexadecimal digits follow the letter of an escape. -/
def codeLength? : Char → Option Nat
  | 'x' => some 2
  | 'u' => some 4
  | 'U' => some 8
  | _ => none

/-- The character with a code, none for a code that no character has. -/
def ofCode? (n : Nat) : Option Char := if n.isValidChar then some (Char.ofNat n) else none

/-- What the last character before the next one was. -/
inductive QuotedState where
  /-- A character of the text, or a gap. -/
  | text (gap : Gap)
  /-- A single quotation mark, the closing one unless another one follows. -/
  | quote
  | backslash
  /-- A digit of a code; so many are still to come, and those read have this value. -/
  | code (left value : Nat)

/-- Reads a quoted scalar; `text` is what has been read, last character first. -/
def readQuoted? (double : Bool) :
    QuotedState → List Char → List Place → Option (List Char × List Place)
  | .quote, text, [] => some (text.reverse, [])
  | _, _, [] => none
  | .text gap, text, p :: rest =>
    if atBoundary (p :: rest) then none
    else if isGap p.char then readQuoted? double (.text (gap.push p.char)) text rest
    else
      let text := gap.folded ++ text
      if double then
        if p.char == '"' then some (text.reverse, rest)
        else if p.char == '\\' then readQuoted? double .backslash text rest
        else readQuoted? double (.text .none) (p.char :: text) rest
      else if p.char == '\'' then readQuoted? double .quote text rest
      else readQuoted? double (.text .none) (p.char :: text) rest
  | .quote, text, p :: rest =>
    if p.char == '\'' then readQuoted? double (.text .none) (p.char :: text) rest
    else some (text.reverse, p :: rest)
  | .backslash, text, p :: rest =>
    if isBreak p.char then readQuoted? double (.text (.lines none [])) text rest
    else
      match escaped? p.char, codeLength? p.char with
      | some c, _ => readQuoted? double (.text .none) (c :: text) rest
      | none, some n => readQuoted? double (.code n 0) text rest
      | none, none => none
  | .code left value, text, p :: rest =>
    match Digit.value? 16 p.char with
    | none => none
    | some d =>
      let value := 16 * value + d
      if 1 < left then readQuoted? double (.code (left - 1) value) text rest
      else
        match ofCode? value with
        | some c => readQuoted? double (.text .none) (c :: text) rest
        | none => none

end Fleet.Yaml

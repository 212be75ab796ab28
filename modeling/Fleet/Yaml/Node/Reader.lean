import Fleet.Yaml.Node
import Fleet.Yaml.Token.Reader

/-!
# Reading values

A text holds one document: directives and a line of dashes if it has them, a value, and a line of
dots if it has one.  A value that is left out is a plain scalar without text.  A sequence of dashes
as the value of a key need not be indented.

## Main definitions

* `readNode?` — reads a value from the front of a list of tokens.
* `Document.ofTokens?`, `Document.ofText?` — the only document of a text.
-/

namespace Fleet.Yaml

/-- What the short forms of tags stand for. -/
abbrev Handles := List (List Char × Bytes)

/-- The short forms that every document has. -/
def defaultHandles : Handles :=
  [(['!'], Text.ascii "!"), (['!', '!'], Text.ascii "tag:yaml.org,2002:")]

/-- The whole of a tag. -/
def wholeTag? (handles : Handles) (handle : List Char) (suffix : Bytes) : Option Bytes :=
  if handle.isEmpty then some suffix else (handles.lookup handle).map (· ++ suffix)

/-- The anchor and the tag before a value, in either order. -/
def readProperties? (handles : Handles) :
    List Token → Option (Properties (List Char) × List Token)
  | .anchor name :: .tag handle suffix :: ts =>
    (wholeTag? handles handle suffix).map fun t => (⟨some name, some t⟩, ts)
  | .tag handle suffix :: .anchor name :: ts =>
    (wholeTag? handles handle suffix).map fun t => (⟨some name, some t⟩, ts)
  | .anchor name :: ts => some (⟨some name, none⟩, ts)
  | .tag handle suffix :: ts => (wholeTag? handles handle suffix).map fun t => (⟨none, some t⟩, ts)
  | ts => some (.empty, ts)

/-- The tag that says no more than that there is one. -/
def bareTag : Bytes := Text.ascii "!"

/-- The properties of a scalar; on one that is written out, the bare tag does not count. -/
def Properties.ofScalar (p : Properties (List Char)) : Properties (List Char) :=
  if p.tag = some bareTag then { p with tag := none } else p

/-- The next token is one of these. -/
def isOneOf (these : List Token) : List Token → Bool
  | [] => false
  | t :: _ => these.contains t

/-- The tokens that end a part of an entry in a block mapping. -/
def entryEnds : List Token := [.key, .value, .blockEnd]

mutual

/-- Reads a value; `atEntry` tells that it belongs to an entry of a block mapping, where the dashes
of a sequence need not be indented. -/
def readNode? (handles : Handles) :
    Nat → Bool → List Token → Option (Node (List Char) × List Token)
  | 0, _, _ => none
  | _ + 1, _, .alias name :: ts => some (.alias name, ts)
  | fuel + 1, atEntry, ts =>
    match readProperties? handles ts with
    | none => none
    | some (p, ts) =>
      if atEntry && isOneOf [.blockEntry] ts then
        (readLooseItems? handles fuel [] ts).map fun (items, ts) => (.sequence p items, ts)
      else
        match ts with
        | .scalar style text :: ts => some (.scalar p.ofScalar style text, ts)
        | .flowSequenceStart :: ts =>
          (readFlowItems? handles fuel true [] ts).map fun (items, ts) => (.sequence p items, ts)
        | .flowMappingStart :: ts =>
          (readFlowEntries? handles fuel true [] ts).map fun (es, ts) => (.mapping p es, ts)
        | .blockSequenceStart :: ts =>
          (readItems? handles fuel [] ts).map fun (items, ts) => (.sequence p items, ts)
        | .blockMappingStart :: ts =>
          (readEntries? handles fuel [] ts).map fun (es, ts) => (.mapping p es, ts)
        | ts => if p = .empty then none else some (.blank p, ts)

/-- Reads a value that is left out if one of these tokens is next. -/
def readUnless? (handles : Handles) :
    Nat → Bool → List Token → List Token → Option (Node (List Char) × List Token)
  | 0, _, _, _ => none
  | fuel + 1, atEntry, ends, ts =>
    if isOneOf ends ts then some (.blank .empty, ts) else readNode? handles fuel atEntry ts

/-- Reads a value after its sign, or one that is left out together with its sign. -/
def readAfter? (handles : Handles) :
    Nat → Bool → List Token → List Token → Option (Node (List Char) × List Token)
  | 0, _, _, _ => none
  | fuel + 1, atEntry, ends, .value :: ts => readUnless? handles fuel atEntry ends ts
  | _ + 1, _, _, ts => some (.blank .empty, ts)

/-- Reads the items of a block sequence up to its end; those read are in `done`, last one first. -/
def readItems? (handles : Handles) : Nat → List (Node (List Char)) → List Token →
    Option (List (Node (List Char)) × List Token)
  | 0, _, _ => none
  | fuel + 1, done, .blockEntry :: ts =>
    match readUnless? handles fuel false [.blockEntry, .blockEnd] ts with
    | none => none
    | some (v, ts) => readItems? handles fuel (v :: done) ts
  | _ + 1, done, .blockEnd :: ts => some (done.reverse, ts)
  | _ + 1, _, _ => none

/-- Reads the items of a sequence that is not indented. -/
def readLooseItems? (handles : Handles) : Nat → List (Node (List Char)) → List Token →
    Option (List (Node (List Char)) × List Token)
  | 0, _, _ => none
  | fuel + 1, done, .blockEntry :: ts =>
    match readUnless? handles fuel false (.blockEntry :: entryEnds) ts with
    | none => none
    | some (v, ts) => readLooseItems? handles fuel (v :: done) ts
  | _ + 1, done, ts => some (done.reverse, ts)

/-- Reads the entries of a block mapping up to its end. -/
def readEntries? (handles : Handles) :
    Nat → List (Node (List Char) × Node (List Char)) → List Token →
    Option (List (Node (List Char) × Node (List Char)) × List Token)
  | 0, _, _ => none
  | fuel + 1, done, .key :: ts =>
    match readUnless? handles fuel true entryEnds ts with
    | none => none
    | some (k, ts) =>
      match readAfter? handles fuel true entryEnds ts with
      | none => none
      | some (v, ts) => readEntries? handles fuel ((k, v) :: done) ts
  | _ + 1, done, .blockEnd :: ts => some (done.reverse, ts)
  | _ + 1, _, _ => none

/-- Reads the items of a flow sequence up to its bracket; an item may be a single entry. -/
def readFlowItems? (handles : Handles) : Nat → Bool → List (Node (List Char)) → List Token →
    Option (List (Node (List Char)) × List Token)
  | 0, _, _, _ => none
  | _ + 1, _, done, .flowSequenceEnd :: ts => some (done.reverse, ts)
  | fuel + 1, false, done, .flowEntry :: ts => readFlowItems? handles fuel true done ts
  | _ + 1, false, _, _ => none
  | fuel + 1, true, done, .key :: ts =>
    let key :=
      if isOneOf [.value, .flowEntry, .flowSequenceEnd] ts then some (.blank .empty, ts.drop 1)
      else readNode? handles fuel false ts
    match key with
    | none => none
    | some (k, ts) =>
      match readAfter? handles fuel false [.flowEntry, .flowSequenceEnd] ts with
      | none => none
      | some (v, ts) => readFlowItems? handles fuel false (.mapping .empty [(k, v)] :: done) ts
  | fuel + 1, true, done, ts =>
    match readNode? handles fuel false ts with
    | none => none
    | some (v, ts) => readFlowItems? handles fuel false (v :: done) ts

/-- Reads the entries of a flow mapping up to its bracket; a key without a sign has no value. -/
def readFlowEntries? (handles : Handles) :
    Nat → Bool → List (Node (List Char) × Node (List Char)) → List Token →
    Option (List (Node (List Char) × Node (List Char)) × List Token)
  | 0, _, _, _ => none
  | _ + 1, _, done, .flowMappingEnd :: ts => some (done.reverse, ts)
  | fuel + 1, false, done, .flowEntry :: ts => readFlowEntries? handles fuel true done ts
  | _ + 1, false, _, _ => none
  | fuel + 1, true, done, .key :: ts =>
    match readUnless? handles fuel false [.value, .flowEntry, .flowMappingEnd] ts with
    | none => none
    | some (k, ts) =>
      match readAfter? handles fuel false [.flowEntry, .flowMappingEnd] ts with
      | none => none
      | some (v, ts) => readFlowEntries? handles fuel false ((k, v) :: done) ts
  | fuel + 1, true, done, ts =>
    match readNode? handles fuel false ts with
    | none => none
    | some (v, ts) => readFlowEntries? handles fuel false ((v, .blank .empty) :: done) ts

end

/-! ## Documents -/

/-- Reads the directives before a document: at most one version, which has to be 1.1 or 1.2, and
each short form of tags at most once. -/
def readDirectives? : Bool → Handles → List Token → Option (Handles × List Token)
  | versioned, handles, .version major minor :: ts =>
    if versioned || major ≠ 1 || (minor ≠ 1 && minor ≠ 2) then none
    else readDirectives? true handles ts
  | versioned, handles, .handle name meaning :: ts =>
    if (handles.lookup name).isSome then none
    else readDirectives? versioned ((name, meaning) :: handles) ts
  | _, handles, ts => some (handles, ts)

/-- A document has no value when one of these comes next. -/
def endsDocument : List Token → Bool
  | [] => true
  | t :: _ => t.isDirective || t == .documentStart || t == .documentEnd

/-- The steps that are enough to read the tokens, since of three steps one takes a token. -/
def stepsFor (ts : List Token) : Nat := 3 * ts.length + 3

/-- The value of the only document, and what follows it. -/
def readRoot? (ts : List Token) : Option (Node (List Char) × List Token) :=
  match ts with
  | [] => some (.blank .empty, [])
  | t :: _ =>
    if t.isDirective || t == .documentStart then
      match readDirectives? false [] ts with
      | some (handles, .documentStart :: ts) =>
        if endsDocument ts then some (.blank .empty, ts)
        else readNode? (handles ++ defaultHandles) (stepsFor ts) false ts
      | _ => none
    else readNode? defaultHandles (stepsFor ts) false ts

/-- The only document of a list of tokens. -/
def Document.ofTokens? (ts : List Token) : Option Document := do
  let (root, rest) ← readRoot? ts
  if !rest.all (· == .documentEnd) then none
  let (root, _) ← root.number? []
  some ⟨root⟩

/-- The only document of a text. -/
def Document.ofText? (text : List Char) : Option Document := do
  Document.ofTokens? (← tokens? text)

end Fleet.Yaml

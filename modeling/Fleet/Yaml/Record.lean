import Fleet.Yaml.Node
import Fleet.Yaml.Scalar.Core

/-!
# Reading typed values out of YAML

A record is a mapping with its fields by name, in any order; keys that name no field are ignored,
and a field named twice refuses the record.  A plain scalar without text stands for a record without
fields and for an empty list.  A text is given by any scalar, a number by a plain one.

## Main definitions

* `Document.fields?` — the values of a record's fields, none for those that are missing.
* `Document.text?`, `Document.word?`, `Document.list?`, `Document.optional?` — values of the basic
  types.
-/

namespace Fleet.Yaml

/-- The tag of null. -/
def nullTag : Bytes := Text.ascii "tag:yaml.org,2002:null"

/-- The tag of whole numbers. -/
def wholeTag : Bytes := Text.ascii "tag:yaml.org,2002:int"

namespace Document

/-- A text. -/
def text? (d : Document) (v : Node Nat) : Option String :=
  match d.follow? v with
  | some (.scalar _ _ cs) => some (String.ofList cs)
  | _ => none

/-- A scalar may be read as a number: it is plain, or literal with the tag of numbers. -/
def isNumeric (p : Properties Nat) (style : ScalarStyle) : Bool :=
  style == .plain || (style == .literal && p.tag == some wholeTag)

/-- A whole number of 64 bits. -/
def word? (d : Document) (v : Node Nat) : Option UInt64 :=
  match d.follow? v with
  | some (.scalar p style cs) =>
    if isNumeric p style then (natural? ((1 <<< 64) - 1) cs).map Nat.toUInt64 else none
  | _ => none

/-- A list of values of one type. -/
def list? {α : Type} (item? : Document → Node Nat → Option α) (d : Document) (v : Node Nat) :
    Option (List α) :=
  match d.follow? v with
  | some (.sequence _ items) => items.mapM (item? d)
  | some (.scalar _ .plain []) => some []
  | _ => none

/-- Whether a value is there at all: a plain scalar is none if it is empty or a word for null, and
one with the tag of null has to be such a word. -/
def isPresent? (p : Properties Nat) (style : ScalarStyle) (cs : List Char) : Option Bool :=
  if style ≠ .plain then some true
  else
    match p.tag with
    | none => some (!cs.isEmpty && !isNull cs)
    | some t => if t ≠ nullTag then some true else if isNull cs then some false else none

/-- A value that may be null. -/
def optional? {α : Type} (value? : Document → Node Nat → Option α) (d : Document) (v : Node Nat) :
    Option (Option α) :=
  match d.follow? v with
  | none => none
  | some (.scalar p style cs) => do
    if ← isPresent? p style cs then (value? d v).map some else some none
  | some _ => (value? d v).map some

/-- The keys of a mapping with their values. -/
def entries? (d : Document) (v : Node Nat) : Option (List (String × Node Nat)) :=
  match d.follow? v with
  | some (.mapping _ entries) => entries.mapM fun (k, v) => (d.text? k).map (·, v)
  | some (.scalar _ .plain []) => some []
  | _ => none

/-- The value of one field: none if it is missing, refused if it is given twice. -/
def field? (entries : List (String × Node Nat)) (name : String) : Option (Option (Node Nat)) :=
  match entries.filter (·.1 = name) with
  | [] => some none
  | [(_, v)] => some (some v)
  | _ => none

/-- The values of a record's fields, in the order of `names`. -/
def fields? (d : Document) (names : List String) (v : Node Nat) :
    Option (List (Option (Node Nat))) := do
  names.mapM (field? (← d.entries? v))

/-- A field that must be given. -/
def required? {α : Type} (value? : Document → Node Nat → Option α) (d : Document) :
    Option (Node Nat) → Option α
  | none => none
  | some v => value? d v

/-- A field that has a default. -/
def withDefault? {α : Type} (default : α) (value? : Document → Node Nat → Option α)
    (d : Document) : Option (Node Nat) → Option α
  | none => some default
  | some v => value? d v

end Document

end Fleet.Yaml

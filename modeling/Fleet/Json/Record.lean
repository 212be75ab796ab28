import Fleet.Json

/-!
# Reading typed values out of JSON

A record is given as an object with its fields by name, in any order, or as an array with its
fields in their order.  Keys that name no field are ignored, a field named twice refuses the
record, and what is missing is for the reader of the record to judge.

## Main definitions

* `Json.fields?` — the values of a record's fields, none for those that are missing.
* `Json.text?`, `Json.word?`, `Json.real?`, `Json.bool?`, `Json.list?`, `Json.symbol?` — values of
  the basic types.
-/

namespace Fleet.Json

/-- The values given for one field by the members of an object. -/
def given (name : String) (members : List (Option String × Json)) : List Json :=
  members.filterMap fun (k, v) => if k = some name then some v else none

/-- The value of one field: none if it is missing, refused if it is given twice. -/
def field? (members : List (Option String × Json)) (name : String) : Option (Option Json) :=
  match given name members with
  | [] => some none
  | [v] => some (some v)
  | _ => none

/-- The values of a record's fields by name. -/
def fieldsByName? (names : List String) (members : List (Option String × Json)) :
    Option (List (Option Json)) :=
  if members.all (·.1.isSome) then names.mapM (field? members) else none

/-- The values of a record's fields by position; an array longer than the record is refused. -/
def fieldsByPosition? : List String → List Json → Option (List (Option Json))
  | [], [] => some []
  | [], _ :: _ => none
  | _ :: names, [] => (fieldsByPosition? names []).map (none :: ·)
  | _ :: names, v :: items => (fieldsByPosition? names items).map (some v :: ·)

/-- The values of a record's fields, in the order of `names`. -/
def fields? (names : List String) : Json → Option (List (Option Json))
  | .object members => fieldsByName? names members
  | .array items => fieldsByPosition? names items
  | _ => none

/-- A text. -/
def text? : Json → Option String
  | .string s => s
  | _ => none

/-- A truth value. -/
def bool? : Json → Option Bool
  | .bool b => some b
  | _ => none

/-- A whole number of 64 bits without sign. -/
def word? : Json → Option UInt64
  | .number (.natural n) => some n
  | _ => none

/-- A whole number of 16 bits without sign. -/
def halfWord? (j : Json) : Option UInt16 := do
  let n ← j.word?
  if n.toNat < 0x10000 then some n.toUInt16 else none

/-- A binary64 number; whole numbers are rounded to one. -/
def real? : Json → Option Binary64
  | .number (.natural n) => some (.ofNat n.toNat)
  | .number (.negative n) => some (.ofInt n)
  | .number (.real x) => some x
  | _ => none

/-- A list of values of one type. -/
def list? {α : Type} (item? : Json → Option α) : Json → Option (List α)
  | .array items => items.mapM item?
  | _ => none

/-- A value that may be null. -/
def nullable? {α : Type} (value? : Json → Option α) : Json → Option (Option α)
  | .null => some none
  | j => (value? j).map some

/-- A symbol: its name, or an object whose only member is its name with null. -/
def symbol? : Json → Option String
  | .string s => s
  | .object [(k, .null)] => k
  | _ => none

/-- A field that must be given. -/
def required {α : Type} (value? : Json → Option α) : Option Json → Option α
  | none => none
  | some j => value? j

/-- A field that has a default. -/
def withDefault {α : Type} (default : α) (value? : Json → Option α) : Option Json → Option α
  | none => some default
  | some j => value? j

/-- A field that may be missing or null. -/
def optional {α : Type} (value? : Json → Option α) : Option Json → Option (Option α)
  | none => some none
  | some j => nullable? value? j

end Fleet.Json

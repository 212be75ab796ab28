import Fleet.Text.Utf8
import Fleet.Yaml.Scalar

/-!
# YAML values

A value is a scalar, a sequence, a mapping, or an alias of another value of the document.  An
anchor gives a value a name; the names are numbered when a document is complete.  A name has the
number of different names that were given before it, so a name given again gets a new number, and
two names may share one.  An alias stands for the last value with its number in the whole document,
also for one that comes after it.

## Main definitions

* `Node` — a value whose anchors are of one type: names, or numbers.
* `Node.number?` — numbers the names.
* `Document.target?` — the value that an alias stands for.
-/

namespace Fleet.Yaml

/-- The anchor and the tag of a value. -/
structure Properties (ι : Type) where
  anchor : Option ι
  tag : Option Bytes
deriving DecidableEq

/-- A value with anchors of type `ι`. -/
inductive Node (ι : Type) where
  | alias (target : ι)
  | scalar (properties : Properties ι) (style : ScalarStyle) (text : List Char)
  | sequence (properties : Properties ι) (items : List (Node ι))
  | mapping (properties : Properties ι) (entries : List (Node ι × Node ι))
deriving Inhabited

/-- Neither anchor nor tag. -/
def Properties.empty {ι : Type} : Properties ι := ⟨none, none⟩

/-- A plain scalar without text, which stands where a value is left out. -/
def Node.blank {ι : Type} (properties : Properties ι) : Node ι := .scalar properties .plain []

/-! ## Numbering -/

/-- The numbers of names. -/
abbrev Labels := List (List Char × Nat)

namespace Labels

/-- The number of a name. -/
def find? (labels : Labels) (name : List Char) : Option Nat := labels.lookup name

/-- Numbers a name. -/
def insert (labels : Labels) (name : List Char) : Labels :=
  (name, labels.length) :: labels.filter (·.1 ≠ name)

/-- Numbers the name of a value, if it has one. -/
def enter (labels : Labels) (p : Properties (List Char)) : Properties Nat × Labels :=
  match p.anchor with
  | none => (⟨none, p.tag⟩, labels)
  | some name => (⟨some labels.length, p.tag⟩, labels.insert name)

end Labels

mutual

/-- Numbers the names of a value, none if it has an alias of a name not given before. -/
def Node.number? (labels : Labels) : Node (List Char) → Option (Node Nat × Labels)
  | .alias name => (labels.find? name).map fun n => (.alias n, labels)
  | .scalar p style text =>
    let (p, labels) := labels.enter p
    some (.scalar p style text, labels)
  | .sequence p items =>
    let (p, labels) := labels.enter p
    match Node.numberItems? labels items with
    | none => none
    | some (items, labels) => some (.sequence p items, labels)
  | .mapping p entries =>
    let (p, labels) := labels.enter p
    match Node.numberEntries? labels entries with
    | none => none
    | some (entries, labels) => some (.mapping p entries, labels)

/-- Numbers the names of the items of a sequence. -/
def Node.numberItems? (labels : Labels) :
    List (Node (List Char)) → Option (List (Node Nat) × Labels)
  | [] => some ([], labels)
  | v :: rest =>
    match v.number? labels with
    | none => none
    | some (v, labels) =>
      match Node.numberItems? labels rest with
      | none => none
      | some (rest, labels) => some (v :: rest, labels)

/-- Numbers the names of the entries of a mapping. -/
def Node.numberEntries? (labels : Labels) :
    List (Node (List Char) × Node (List Char)) → Option (List (Node Nat × Node Nat) × Labels)
  | [] => some ([], labels)
  | (k, v) :: rest =>
    match k.number? labels with
    | none => none
    | some (k, labels) =>
      match v.number? labels with
      | none => none
      | some (v, labels) =>
        match Node.numberEntries? labels rest with
        | none => none
        | some (rest, labels) => some ((k, v) :: rest, labels)

end

/-! ## Aliases -/

/-- The value itself, if its anchor has this number. -/
def Properties.mark (n : Nat) (p : Properties Nat) (v : Node Nat) : List (Node Nat) :=
  if p.anchor = some n then [v] else []

mutual

/-- The values with an anchor of this number, in the order in which they start. -/
def Node.anchored (n : Nat) : Node Nat → List (Node Nat)
  | .alias _ => []
  | .scalar p style text => p.mark n (.scalar p style text)
  | .sequence p items => p.mark n (.sequence p items) ++ Node.anchoredItems n items
  | .mapping p entries => p.mark n (.mapping p entries) ++ Node.anchoredEntries n entries

/-- The values with an anchor of this number among the items of a sequence. -/
def Node.anchoredItems (n : Nat) : List (Node Nat) → List (Node Nat)
  | [] => []
  | v :: rest => v.anchored n ++ Node.anchoredItems n rest

/-- The values with an anchor of this number among the entries of a mapping. -/
def Node.anchoredEntries (n : Nat) : List (Node Nat × Node Nat) → List (Node Nat)
  | [] => []
  | (k, v) :: rest => k.anchored n ++ v.anchored n ++ Node.anchoredEntries n rest

end

/-- The only document of a text. -/
structure Document where
  root : Node Nat

/-- The value that an alias with this number stands for. -/
def Document.target? (d : Document) (n : Nat) : Option (Node Nat) := (d.root.anchored n).getLast?

/-- A value that is no alias: the value itself, or what it stands for. -/
def Document.follow? (d : Document) : Node Nat → Option (Node Nat)
  | .alias n => d.target? n
  | v => some v

end Fleet.Yaml

import Fleet.Number.Digit

/-!
# Socket addresses

An address to listen on is an IPv4 address and a port, `1.2.3.4:5`, or an IPv6 address in brackets,
with a zone if need be, and a port, `[fe80::1%3]:5`.  Names are not resolved.  An octet has no
leading zeros; groups, ports and zones may have them.

## Main definitions

* `SocketAddress` — an address.
* `SocketAddress.parse?` — reading one.
-/

namespace Fleet

/-- An internet address with a port. -/
inductive SocketAddress where
  | v4 (octets : List Nat) (port : Nat)
  | v6 (groups : List Nat) (zone : Nat) (port : Nat)
deriving DecidableEq

namespace SocketAddress

/-- A reader takes a value off the front of a text, or refuses and takes nothing. -/
abbrev Reader (α : Type) := List Char → Option (α × List Char)

/-- Takes one given character. -/
def char (c : Char) : Reader Unit
  | [] => none
  | d :: rest => if c = d then some ((), rest) else none

/-- Takes a run of digits: its number and its length. -/
def spanNumber (base : Nat) : List Char → Nat → Nat → Nat × Nat × List Char
  | [], n, len => (n, len, [])
  | c :: rest, n, len =>
    match Digit.value? base c with
    | some d => spanNumber base rest (base * n + d) (len + 1)
    | none => (n, len, c :: rest)

/-- Takes a number up to `most`; `width` bounds its digits if it is given. -/
def number (base most : Nat) (width : Option Nat) (leadingZeros : Bool) : Reader Nat := fun s =>
  let (n, len, rest) := spanNumber base s 0 0
  let tooLong := match width with
    | some w => w < len
    | none => false
  if len = 0 || tooLong || most < n || (!leadingZeros && s.head? == some '0' && 1 < len) then none
  else some (n, rest)

/-- Takes an octet of an IPv4 address. -/
def octet : Reader Nat := number 10 255 (some 3) false

/-- Takes an IPv4 address. -/
def ipv4 : Reader (List Nat) := fun s => do
  let (a, s) ← octet s
  let (_, s) ← char '.' s
  let (b, s) ← octet s
  let (_, s) ← char '.' s
  let (c, s) ← octet s
  let (_, s) ← char '.' s
  let (d, s) ← octet s
  some ([a, b, c, d], s)

/-- Takes a colon in front of every element but the first. -/
def separated {α : Type} (first : Bool) (p : Reader α) : Reader α := fun s =>
  if first then p s else do
    let (_, s) ← char ':' s
    p s

/-- Takes up to `room` groups of an IPv6 address; the last two may be an IPv4 address.  Gives the
groups and whether they end in one. -/
def groups : Nat → Bool → List Char → List Nat × Bool × List Char
  | 0, _, s => ([], false, s)
  | room + 1, first, s =>
    let embedded := if 0 < room then separated first ipv4 s else none
    match embedded with
    | some (o, s) =>
      ([256 * o.getD 0 0 + o.getD 1 0, 256 * o.getD 2 0 + o.getD 3 0], true, s)
    | none =>
      match separated first (number 16 0xFFFF (some 4) true) s with
      | some (g, s) =>
        let (gs, ended, s) := groups room false s
        (g :: gs, ended, s)
      | none => ([], false, s)

/-- Takes an IPv6 address: eight groups, or fewer with `::` for at least one group of zeros. -/
def ipv6 : Reader (List Nat) := fun s =>
  let (front, ended, s) := groups 8 true s
  if front.length = 8 then some (front, s)
  else if ended then none
  else do
    let (_, s) ← char ':' s
    let (_, s) ← char ':' s
    let (back, _, s) := groups (7 - front.length) true s
    some (front ++ List.replicate (8 - front.length - back.length) 0 ++ back, s)

/-- Takes a colon and a port. -/
def port : Reader Nat := fun s => do
  let (_, s) ← char ':' s
  number 10 65535 none true s

/-- Takes the zone of an IPv6 address, zero if there is none. -/
def zone : Reader Nat := fun s =>
  match char '%' s with
  | some (_, s) => number 10 0xFFFFFFFF none true s
  | none => some (0, s)

/-- Takes an IPv4 address with a port. -/
def socketV4 : Reader SocketAddress := fun s => do
  let (a, s) ← ipv4 s
  let (p, s) ← port s
  some (.v4 a p, s)

/-- Takes an IPv6 address in brackets with a port. -/
def socketV6 : Reader SocketAddress := fun s => do
  let (_, s) ← char '[' s
  let (a, s) ← ipv6 s
  let (z, s) ← zone s
  let (_, s) ← char ']' s
  let (p, s) ← port s
  some (.v6 a z p, s)

/-- Reads an address that is the whole text. -/
def parse? (s : String) : Option SocketAddress :=
  match (socketV4 s.toList).orElse fun _ => socketV6 s.toList with
  | some (a, []) => some a
  | _ => none

end SocketAddress

end Fleet

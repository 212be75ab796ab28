import Fleet.Config
import Fleet.Yaml.Scalar.Writer

/-!
# Writing configurations

A configuration is written as a YAML mapping in block style, with its fields in a fixed order.  The
peers follow their key without more indentation, and what has no value is left out.

## Main definitions

* `NodeConfig.yaml` — the text of a configuration.
-/

namespace Fleet

open Yaml

/-- How far the fields of the sections of a configuration are indented. -/
def fieldIndent : Nat := 2 * indentStep

/-- A field that is a text; `front` is what stands before its name. -/
def textField (front name value : String) : List Char :=
  front.toList ++ name.toList ++ [':', ' '] ++ writeText fieldIndent value.toList

/-- A field that is a whole number. -/
def wordField (name : String) (value : UInt64) : List Char :=
  name.toList ++ [':', ' '] ++ Decimal.digits value.toNat ++ ['\n']

/-- A peer as an item of a list. -/
def Identity.yaml (p : Identity) : List Char :=
  textField "- " "id" p.id ++ textField "  " "address" p.address

/-- The list of peers. -/
def peersYaml : List Identity → List Char
  | [] => "peers: []\n".toList
  | ps => "peers:\n".toList ++ ps.flatMap Identity.yaml

/-- The text of a configuration. -/
def NodeConfig.yaml (c : NodeConfig) : List Char :=
  "node:\n".toList ++ textField "  " "id" c.id ++ textField "  " "listen" c.listen ++
    (c.advertise.elim [] (textField "  " "advertise")) ++ peersYaml c.peers ++
    wordField "query_timeout_secs" c.queryTimeout ++
    wordField "snapshot_interval_secs" c.reportInterval ++
    (c.memory.elim [] (wordField "max_service_memory_mb"))

end Fleet

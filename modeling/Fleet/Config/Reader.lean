import Fleet.Config
import Fleet.Yaml.Node.Reader
import Fleet.Yaml.Record

/-!
# Reading configurations

A configuration is a YAML document.  Every field has a default, but a peer needs both of its fields.
A configuration that has been read has no mistake that would break the cluster.

## Main definitions

* `NodeConfig.ofDocument?` — the configuration that a document stands for.
* `NodeConfig.ofText` — a configuration read from its text and checked.
-/

namespace Fleet

open Yaml

/-- A peer. -/
def Identity.ofYaml? (d : Document) (v : Yaml.Node Nat) : Option Identity := do
  let [id, address] ← d.fields? ["id", "address"] v | none
  some ⟨← Document.required? Document.text? d id, ← Document.required? Document.text? d address⟩

namespace NodeConfig

/-- The section that describes the node itself, on top of the defaults. -/
def withSection? (c : NodeConfig) (d : Document) (v : Yaml.Node Nat) : Option NodeConfig := do
  let [id, listen, advertise] ← d.fields? ["id", "listen", "advertise"] v | none
  let id ← Document.withDefault? c.id Document.text? d id
  let listen ← Document.withDefault? c.listen Document.text? d listen
  let advertise ← Document.withDefault? c.advertise (Document.optional? Document.text?) d advertise
  some { c with id := id, listen := listen, advertise := advertise }

/-- The fields of a configuration. -/
def fieldNames : List String :=
  ["node", "peers", "query_timeout_secs", "snapshot_interval_secs", "max_service_memory_mb"]

/-- The configuration that a document stands for, on a machine with a host name. -/
def ofDocument? (host : String) (d : Document) : Option NodeConfig := do
  let [node, peers, timeout, interval, memory] ← d.fields? fieldNames d.root | none
  let c := NodeConfig.default host
  let c ← Document.withDefault? c (c.withSection? · ·) d node
  let peers ← Document.withDefault? c.peers (Document.list? Identity.ofYaml?) d peers
  let timeout ← Document.withDefault? c.queryTimeout Document.word? d timeout
  let interval ← Document.withDefault? c.reportInterval Document.word? d interval
  let memory ← Document.withDefault? c.memory (Document.optional? Document.word?) d memory
  some { c with peers, queryTimeout := timeout, reportInterval := interval, memory }

/-- The configuration that a text stands for, checked for mistakes. -/
def ofText (host text : String) : Except ConfigError NodeConfig :=
  match (Document.ofText? text.toList).bind (ofDocument? host) with
  | none => .error .unreadable
  | some c =>
    match c.fault? with
    | some fault => .error (.invalid fault)
    | none => .ok c

end NodeConfig

end Fleet

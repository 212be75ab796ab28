import Fleet.Config.Reader
import Fleet.Proofs.Config.Tokens
import Fleet.Proofs.Yaml.Node
import Fleet.Proofs.Yaml.Scalar.Core

/-!
# The document of a configuration

The tokens of a configuration read as one mapping without anchors and tags, and that mapping stands
for the configuration on any machine, since the fields that are left out are those without a value.

## Main definitions

* `NodeConfig.node` — the value that is the document of a configuration.

## Main statements

* `ofTokens?_tokens` — the tokens of a configuration are those of its document.
* `ofDocument?_node` — the document stands for the configuration.
-/

namespace Fleet

open Yaml

variable {ι : Type} {c : NodeConfig} {more rest : List Yaml.Token} {handles : Handles}
  {entries : List (Yaml.Node (List Char) × Yaml.Node (List Char))}

/-! ### Values -/

/-- A key. -/
def keyNode (name : String) : Yaml.Node ι := .scalar .empty .plain name.toList

/-- A text. -/
def textNode (value : String) : Yaml.Node ι :=
  .scalar .empty (scalarStyle value.toList) value.toList

/-- A whole number. -/
def wordNode (value : UInt64) : Yaml.Node ι := .scalar .empty .plain (Decimal.digits value.toNat)

/-- A peer. -/
def Identity.node (p : Identity) : Yaml.Node ι :=
  .mapping .empty [(keyNode "id", textNode p.id), (keyNode "address", textNode p.address)]

/-- The section of a configuration that describes the node itself. -/
def NodeConfig.sectionNode (c : NodeConfig) : Yaml.Node ι :=
  .mapping .empty ((keyNode "id", textNode c.id) :: (keyNode "listen", textNode c.listen) ::
    c.advertise.elim [] fun advertise => [(keyNode "advertise", textNode advertise)])

/-- A configuration. -/
def NodeConfig.node (c : NodeConfig) : Yaml.Node ι :=
  .mapping .empty ((keyNode "node", c.sectionNode) ::
    (keyNode "peers", .sequence .empty (c.peers.map Identity.node)) ::
    (keyNode "query_timeout_secs", wordNode c.queryTimeout) ::
    (keyNode "snapshot_interval_secs", wordNode c.reportInterval) ::
    c.memory.elim [] fun memory => [(keyNode "max_service_memory_mb", wordNode memory)])

/-! ### From tokens -/

theorem entriesReadAs_text (name value : String) (h : EntriesReadAs handles more entries rest) :
    EntriesReadAs handles (textTokens name value ++ more)
      ((keyNode name, textNode value) :: entries) rest :=
  h.cons (readsAs_scalar ..) rfl

theorem entriesReadAs_word (name : String) (value : UInt64)
    (h : EntriesReadAs handles more entries rest) :
    EntriesReadAs handles (wordTokens name value ++ more)
      ((keyNode name, wordNode value) :: entries) rest :=
  h.cons (readsAs_scalar ..) rfl

theorem readsAs_peer (p : Identity) :
    ReadsAs handles false (.blockMappingStart :: (textTokens "id" p.id ++
      (textTokens "address" p.address ++ .blockEnd :: more))) p.node more :=
  (entriesReadAs_text "id" p.id (entriesReadAs_text "address" p.address entriesReadAs_end)).mapping

theorem entriesReadAs_peers (ps : List Identity) (hmore : more.head? = some .key)
    (h : EntriesReadAs handles more entries rest) :
    EntriesReadAs handles (keyTokens "peers" ++ (peersTokens ps ++ more))
      ((keyNode "peers", .sequence .empty (ps.map Identity.node)) :: entries) rest := by
  have htokens : ∀ (p : Identity) (ts : List Yaml.Token), p.tokens ++ ts =
      .blockEntry :: .blockMappingStart :: (textTokens "id" p.id ++
        (textTokens "address" p.address ++ .blockEnd :: ts)) := fun p ts => by
    simp [Identity.tokens]
  have hitems : ∀ ps : List Identity, ItemsReadAs handles (ps.flatMap Identity.tokens ++ more)
      (ps.map Identity.node) more := by
    intro ps
    induction ps with
    | nil =>
      refine itemsReadAs_end ?_ ?_
      · rintro rfl
        cases hmore
      · cases more with
        | nil => rfl
        | cons t more =>
          cases hmore
          rfl
    | cons p ps ih =>
      rw [List.flatMap_cons, List.append_assoc, htokens]
      exact ih.cons (readsAs_peer p) rfl
  cases ps with
  | nil => exact h.cons readsAs_brackets rfl
  | cons p ps =>
    have hpeers : peersTokens (p :: ps) = (p :: ps).flatMap Identity.tokens := rfl
    rw [hpeers, List.flatMap_cons, List.append_assoc, htokens]
    exact h.cons ((hitems ps).sequence (readsAs_peer p) rfl) rfl

theorem readsAs_section (c : NodeConfig) :
    ReadsAs handles true (c.sectionTokens ++ more) c.sectionNode more := by
  have hadvertise : EntriesReadAs handles
      (c.advertise.elim [] (textTokens "advertise") ++ .blockEnd :: more)
      (c.advertise.elim [] fun advertise => [(keyNode "advertise", textNode advertise)]) more := by
    cases c.advertise with
    | none => exact entriesReadAs_end
    | some advertise => exact entriesReadAs_text "advertise" advertise entriesReadAs_end
  have hsection : ReadsAs handles true _ c.sectionNode more :=
    (entriesReadAs_text "id" c.id (entriesReadAs_text "listen" c.listen hadvertise)).mapping
  simpa [NodeConfig.sectionTokens, NodeConfig.sectionNode] using hsection

theorem readsAs_tokens (c : NodeConfig) : ReadsAs handles false c.tokens c.node [] := by
  have hmemory : EntriesReadAs handles
      (c.memory.elim [] (wordTokens "max_service_memory_mb") ++ [.blockEnd])
      (c.memory.elim [] fun memory => [(keyNode "max_service_memory_mb", wordNode memory)]) [] := by
    cases c.memory with
    | none => exact entriesReadAs_end
    | some memory => exact entriesReadAs_word "max_service_memory_mb" memory entriesReadAs_end
  have hpeers := entriesReadAs_peers c.peers rfl
    (entriesReadAs_word "query_timeout_secs" c.queryTimeout
      (entriesReadAs_word "snapshot_interval_secs" c.reportInterval hmemory))
  exact (hpeers.cons (readsAs_section c) rfl).mapping

theorem numberItems?_peers (ps : List Identity) (labels : Labels) :
    Yaml.Node.numberItems? labels (ps.map Identity.node) = some (ps.map Identity.node, labels) := by
  induction ps with
  | nil => rfl
  | cons p ps ih =>
    have hpeer : (p.node : Yaml.Node (List Char)).number? labels = some (p.node, labels) := rfl
    simp only [List.map_cons, Yaml.Node.numberItems?, hpeer, ih]

theorem number?_node (c : NodeConfig) (labels : Labels) :
    (c.node : Yaml.Node (List Char)).number? labels = some (c.node, labels) := by
  have hsection : (c.sectionNode : Yaml.Node (List Char)).number? labels =
      some (c.sectionNode, labels) := by
    unfold NodeConfig.sectionNode
    cases c.advertise <;> rfl
  have hmemory : Yaml.Node.numberEntries? labels (c.memory.elim [] fun memory =>
        [(keyNode "max_service_memory_mb", wordNode memory)]) =
      some (c.memory.elim [] fun memory =>
        [(keyNode "max_service_memory_mb", wordNode memory)], labels) := by
    cases c.memory <;> rfl
  have hkey : ∀ name, (keyNode name : Yaml.Node (List Char)).number? labels =
      some (keyNode name, labels) := fun _ => rfl
  have hword : ∀ value, (wordNode value : Yaml.Node (List Char)).number? labels =
      some (wordNode value, labels) := fun _ => rfl
  simp only [NodeConfig.node, Yaml.Node.number?, Labels.enter, Yaml.Properties.empty,
    Yaml.Node.numberEntries?, hkey, hword, hsection, numberItems?_peers, hmemory]

/-- The tokens of a configuration are those of its document. -/
theorem ofTokens?_tokens (c : NodeConfig) : Document.ofTokens? c.tokens = some ⟨c.node⟩ := by
  have hroot : readRoot? c.tokens = some (c.node, []) :=
    (readsAs_tokens c).reads (stepsFor c.tokens) (by rw [stepsFor]; omega)
  simp [Document.ofTokens?, hroot, number?_node]

/-! ### To the configuration -/

variable {d : Document}

theorem text?_keyNode (d : Document) (name : String) : d.text? (keyNode name) = some name := by
  simp [Document.text?, keyNode, Document.follow?]

theorem text?_textNode (d : Document) (value : String) : d.text? (textNode value) = some value := by
  simp [Document.text?, textNode, Document.follow?]

/-- A text that is written is never taken for null. -/
theorem isPresent?_scalarStyle (cs : List Char) :
    Document.isPresent? .empty (scalarStyle cs) cs = some true := by
  rw [scalarStyle]
  cases hstyle : styleOf cs with
  | single | double | literal => rfl
  | plain =>
    have hambiguous := (of_styleOf_plain hstyle).1
    simp only [isAmbiguous, Bool.or_eq_false_iff] at hambiguous
    obtain ⟨⟨⟨⟨⟨hempty, hnull⟩, -⟩, -⟩, -⟩, -⟩ := hambiguous
    simp [Document.isPresent?, Yaml.Properties.empty, hempty, hnull]

theorem optional?_textNode (d : Document) (value : String) :
    Document.optional? Document.text? d (textNode value) = some (some value) := by
  have htext := text?_textNode d value
  simp only [textNode] at htext ⊢
  simp [Document.optional?, Document.follow?, isPresent?_scalarStyle, htext]

theorem word?_wordNode (d : Document) (value : UInt64) : d.word? (wordNode value) = some value := by
  have hnatural : natural? ((1 <<< 64) - 1) (Decimal.digits value.toNat) = some value.toNat :=
    natural?_digits (Nat.le_of_lt_succ value.toNat_lt)
  simp only [Document.word?, wordNode, Document.follow?, Document.isNumeric, hnatural]
  simp

theorem optional?_wordNode (d : Document) (value : UInt64) :
    Document.optional? Document.word? d (wordNode value) = some (some value) := by
  have hword := word?_wordNode d value
  have hpresent : Document.isPresent? .empty .plain (Decimal.digits value.toNat) = some true := by
    simp [Document.isPresent?, Yaml.Properties.empty, Decimal.digits_ne_nil, isNull_digits]
  simp only [wordNode] at hword ⊢
  simp [Document.optional?, Document.follow?, hpresent, hword]

theorem ofYaml?_node (d : Document) (p : Identity) : Identity.ofYaml? d p.node = some p := by
  simp [Identity.ofYaml?, Identity.node, Document.fields?, Document.entries?, Document.follow?,
    Document.field?, Document.required?, text?_keyNode, text?_textNode]

theorem withSection?_node (d : Document) (c base : NodeConfig) (hbase : base.advertise = none) :
    base.withSection? d c.sectionNode =
      some { base with id := c.id, listen := c.listen, advertise := c.advertise } := by
  unfold NodeConfig.sectionNode
  cases c.advertise with
  | none =>
    simp [NodeConfig.withSection?, Document.fields?, Document.entries?, Document.follow?,
      Document.field?, Document.withDefault?, text?_keyNode, text?_textNode, hbase]
  | some advertise =>
    simp [NodeConfig.withSection?, Document.fields?, Document.entries?, Document.follow?,
      Document.field?, Document.withDefault?, text?_keyNode, text?_textNode, optional?_textNode]

theorem list?_peers (d : Document) (ps : List Identity) :
    Document.list? Identity.ofYaml? d (.sequence .empty (ps.map Identity.node)) = some ps := by
  have hitems : (ps.map Identity.node).mapM (Identity.ofYaml? d) = some ps := by
    induction ps with
    | nil => rfl
    | cons p ps ih => simp [ofYaml?_node, ih]
  exact hitems

/-- On any machine the document stands for the configuration. -/
theorem ofDocument?_node (host : String) (c : NodeConfig) :
    NodeConfig.ofDocument? host ⟨c.node⟩ = some c := by
  obtain ⟨id, listen, advertise, peers, timeout, interval, memory⟩ := c
  cases memory with
  | none =>
    simp [NodeConfig.node, NodeConfig.ofDocument?, NodeConfig.fieldNames, Document.fields?,
      Document.entries?, Document.follow?, Document.field?, Document.withDefault?, text?_keyNode,
      withSection?_node, list?_peers, word?_wordNode, NodeConfig.default]
  | some memory =>
    simp [NodeConfig.node, NodeConfig.ofDocument?, NodeConfig.fieldNames, Document.fields?,
      Document.entries?, Document.follow?, Document.field?, Document.withDefault?, text?_keyNode,
      withSection?_node, list?_peers, word?_wordNode, optional?_wordNode, NodeConfig.default]

end Fleet

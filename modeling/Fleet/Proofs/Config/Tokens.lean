import Fleet.Config.Writer
import Fleet.Proofs.Yaml.Token.Sequence

/-!
# The tokens of a configuration

The text of a configuration reads as one mapping with the section of the node, the peers and the
numbers.  The peers are items without a collection of their own, and what has no value has no tokens
either.

## Main definitions

* `NodeConfig.tokens` — the tokens of a configuration.

## Main statements

* `tokens?_yaml` — the text of a configuration has these tokens.
-/

namespace Fleet

open Yaml Yaml.Reading

variable {more : List Char} {out : List Yaml.Token}

/-! ### Tokens -/

/-- The tokens of a key. -/
def keyTokens (name : String) : List Yaml.Token := [.key, .scalar .plain name.toList, .value]

/-- The tokens of a field that is a text. -/
def textTokens (name value : String) : List Yaml.Token :=
  keyTokens name ++ [.scalar (scalarStyle value.toList) value.toList]

/-- The tokens of a field that is a whole number. -/
def wordTokens (name : String) (value : UInt64) : List Yaml.Token :=
  keyTokens name ++ [.scalar .plain (Decimal.digits value.toNat)]

/-- The tokens of a peer. -/
def Identity.tokens (p : Identity) : List Yaml.Token :=
  .blockEntry :: .blockMappingStart :: (textTokens "id" p.id ++
    (textTokens "address" p.address ++ [.blockEnd]))

/-- The tokens of a list of peers. -/
def peersTokens : List Identity → List Yaml.Token
  | [] => [.flowSequenceStart, .flowSequenceEnd]
  | ps => ps.flatMap Identity.tokens

/-- The tokens of a node's section. -/
def NodeConfig.sectionTokens (c : NodeConfig) : List Yaml.Token :=
  .blockMappingStart :: (textTokens "id" c.id ++ (textTokens "listen" c.listen ++
    (c.advertise.elim [] (textTokens "advertise") ++ [.blockEnd])))

/-- The tokens of a configuration. -/
def NodeConfig.tokens (c : NodeConfig) : List Yaml.Token :=
  .blockMappingStart :: (keyTokens "node" ++ (c.sectionTokens ++ (keyTokens "peers" ++
    (peersTokens c.peers ++ (wordTokens "query_timeout_secs" c.queryTimeout ++
      (wordTokens "snapshot_interval_secs" c.reportInterval ++
        (c.memory.elim [] (wordTokens "max_service_memory_mb") ++ [.blockEnd])))))))

/-! ### Sections -/

theorem startsNext_name {name : String} {width m : Nat} (hname : isFieldName name.toList = true)
    (hm : m < width) (more : List Char) : StartsNext width (margin m ++ (name.toList ++ more)) := by
  obtain ⟨c, rest, heq, hword⟩ := exists_fieldName hname
  rw [heq]
  exact .line hm (by simp [startsLine, hword.lower])

/-- Inside of a section, the rest of a text adds these tokens. -/
structure InSection (text : List Char) (out : List Yaml.Token) : Prop where
  starts : StartsNext (indentStep + 1) text
  yields : Yields true 0 text [indentStep, 0] out

/-- At the margin, the rest of a text adds these tokens after the end of the section before it. -/
structure AtMargin (text : List Char) (out : List Yaml.Token) : Prop where
  starts : StartsNext 1 text
  yields : ∀ closed : List Nat, (∀ n ∈ closed, 0 < n) →
    Yields true 0 text (closed ++ [0]) (List.replicate closed.length .blockEnd ++ out)

theorem AtMargin.yields_open (h : AtMargin more out) : Yields true 0 more [0] out :=
  h.yields [] (by simp)

theorem AtMargin.inSection (h : AtMargin more out) : InSection more (.blockEnd :: out) :=
  ⟨h.starts.mono (Nat.le_add_left ..), h.yields [indentStep] (by simp [indentStep])⟩

/-- A text as the value of a key of the section. -/
theorem InSection.value {column : Nat} (h : InSection more out) (value : String)
    (hcolumn : indentStep ≤ column) :
    Yields false column (' ' :: (writeText fieldIndent value.toList ++ more)) [indentStep, 0]
      (.scalar (scalarStyle value.toList) value.toList :: out) :=
  Yields.text hcolumn h.starts h.yields

/-- A field of the section. -/
theorem InSection.text (h : InSection more out) (name value : String)
    (hname : isFieldName name.toList = true) :
    InSection (textField "  " name value ++ more) (textTokens name value ++ out) := by
  have htext : textField "  " name value ++ more =
      margin indentStep ++ (name.toList ++ ':' :: ' ' ::
        (writeText fieldIndent value.toList ++ more)) := by
    simp [textField, margin, indentStep, List.replicate]
  rw [htext]
  have hcolumns : [indentStep, 0] = [] ++ [indentStep, 0] := rfl
  exact ⟨startsNext_name hname (Nat.lt_succ_self _) _, Yields.nextKey hname (.inl rfl) hcolumns
    (by simp) (by simp) (h.value value (by omega))⟩

/-- The first field of the section, which opens it. -/
theorem InSection.firstText (h : InSection more out) (name value : String) {column m : Nat}
    (hname : isFieldName name.toList = true) (hcolumn : column + m = indentStep) :
    Yields true column
      (margin m ++ (name.toList ++ ':' :: ' ' :: (writeText fieldIndent value.toList ++ more))) [0]
      (.blockMappingStart :: (textTokens name value ++ out)) := by
  have hinside : indentStep ≤ column + m + name.toList.length + 1 := by omega
  have hvalue := h.value value hinside
  rw [← hcolumn] at hvalue
  exact Yields.firstKey hname (.inl rfl) (by simp [hcolumn, indentStep]) hvalue

/-! ### The margin -/

theorem atMargin_nil : AtMargin [] [.blockEnd] := by
  refine ⟨.done, fun closed _ => ?_⟩
  have h := yields_nil true 0 (closed ++ [0])
  rwa [List.length_append, ← List.replicate_append_replicate] at h

/-- A key of the whole configuration. -/
theorem atMargin_key (name : String) (hname : isFieldName name.toList = true)
    (hmore : more.head? = some ' ' ∨ more.head? = some '\n')
    (h : ∀ column, Yields false column more [0] out) :
    AtMargin (name.toList ++ ':' :: more) (keyTokens name ++ out) :=
  ⟨startsNext_name (m := 0) hname (Nat.lt_succ_self _) _, fun closed hclosed =>
    Yields.nextKey (m := 0) hname hmore rfl (by simpa using hclosed) rfl (h _)⟩

/-- A field that is a whole number. -/
theorem AtMargin.word (h : AtMargin more out) (name : String) (value : UInt64)
    (hname : isFieldName name.toList = true) :
    AtMargin (wordField name value ++ more) (wordTokens name value ++ out) := by
  have hdigits : PlainText (Decimal.digits value.toNat) :=
    .of_digits fun _ => Decimal.isDigit_of_mem_digits
  have hkey := atMargin_key name hname (.inl rfl) fun column =>
    Yields.plain hdigits (Decimal.digits_ne_nil _) (Nat.zero_le column) h.starts h.yields_open
  simpa [wordField, wordTokens] using hkey

/-- A peer. -/
theorem AtMargin.peer (p : Identity) (h : AtMargin more out) :
    AtMargin (p.yaml ++ more) (p.tokens ++ out) := by
  have haddress := h.inSection.text "address" p.address rfl
  have hcolumn : 1 + 1 = indentStep := rfl
  have hid := haddress.firstText "id" p.id rfl hcolumn
  have htext : p.yaml ++ more = '-' :: ' ' :: ("id".toList ++ ':' :: ' ' ::
      (writeText fieldIndent p.id.toList ++ (textField "  " "address" p.address ++ more))) := by
    simp [Identity.yaml, textField]
  have htokens : p.tokens ++ out = .blockEntry :: .blockMappingStart :: (textTokens "id" p.id ++
      (textTokens "address" p.address ++ .blockEnd :: out)) := by
    simp [Identity.tokens]
  rw [htext, htokens]
  exact ⟨.line (k := 0) (Nat.lt_succ_self _) rfl, fun closed hclosed =>
    Yields.dash (m := 0) rfl (by simpa using hclosed) rfl hid⟩

/-- The list of peers. -/
theorem AtMargin.peers (ps : List Identity) (h : AtMargin more out) :
    AtMargin (peersYaml ps ++ more) (keyTokens "peers" ++ (peersTokens ps ++ out)) := by
  have hitems : ∀ ps : List Identity,
      AtMargin (ps.flatMap Identity.yaml ++ more) (ps.flatMap Identity.tokens ++ out) := by
    intro ps
    induction ps with
    | nil => exact h
    | cons p ps ih => simpa using ih.peer p
  cases ps with
  | nil =>
    have htext : peersYaml [] = "peers".toList ++ ':' :: ' ' :: '[' :: ']' :: ['\n'] := rfl
    have hkey := atMargin_key "peers" rfl (.inl rfl) fun column =>
      Yields.brackets (Nat.zero_le column) h.yields_open
    rw [htext, List.append_assoc]
    exact hkey
  | cons p ps =>
    have htext : peersYaml (p :: ps) =
        "peers".toList ++ ':' :: ['\n'] ++ (p :: ps).flatMap Identity.yaml := rfl
    have hkey := atMargin_key "peers" rfl (.inr rfl) fun column =>
      (hitems (p :: ps)).yields_open.newline column false
    rw [htext, List.append_assoc, List.append_assoc]
    exact hkey

/-! ### The whole text -/

/-- The text, with its first line and its first field taken apart. -/
theorem yaml_eq (c : NodeConfig) :
    c.yaml = "node".toList ++ ':' :: '\n' :: (margin indentStep ++ ("id".toList ++
      ':' :: ' ' :: (writeText fieldIndent c.id.toList ++ (textField "  " "listen" c.listen ++
        (c.advertise.elim [] (textField "  " "advertise") ++ (peersYaml c.peers ++
          (wordField "query_timeout_secs" c.queryTimeout ++
            (wordField "snapshot_interval_secs" c.reportInterval ++
              c.memory.elim [] (wordField "max_service_memory_mb"))))))))) := by
  have hfields : c.yaml = "node".toList ++ [':', '\n'] ++ (margin indentStep ++ "id".toList ++
      [':', ' '] ++ writeText fieldIndent c.id.toList) ++ textField "  " "listen" c.listen ++
        c.advertise.elim [] (textField "  " "advertise") ++ peersYaml c.peers ++
          wordField "query_timeout_secs" c.queryTimeout ++
            wordField "snapshot_interval_secs" c.reportInterval ++
              c.memory.elim [] (wordField "max_service_memory_mb") := rfl
  simp only [hfields, List.append_assoc, List.cons_append, List.nil_append]

theorem yields_yaml (c : NodeConfig) : Yields true 0 c.yaml [] c.tokens := by
  have hmemory : AtMargin (c.memory.elim [] (wordField "max_service_memory_mb"))
      (c.memory.elim [] (wordTokens "max_service_memory_mb") ++ [.blockEnd]) := by
    cases c.memory with
    | none => exact atMargin_nil
    | some memory => simpa using atMargin_nil.word "max_service_memory_mb" memory rfl
  have hpeers := ((hmemory.word "snapshot_interval_secs" c.reportInterval rfl).word
    "query_timeout_secs" c.queryTimeout rfl).peers c.peers
  have hadvertise : InSection
      (c.advertise.elim [] (textField "  " "advertise") ++ (peersYaml c.peers ++
        (wordField "query_timeout_secs" c.queryTimeout ++
          (wordField "snapshot_interval_secs" c.reportInterval ++
            c.memory.elim [] (wordField "max_service_memory_mb")))))
      (c.advertise.elim [] (textTokens "advertise") ++ .blockEnd :: (keyTokens "peers" ++
        (peersTokens c.peers ++ (wordTokens "query_timeout_secs" c.queryTimeout ++
          (wordTokens "snapshot_interval_secs" c.reportInterval ++
            (c.memory.elim [] (wordTokens "max_service_memory_mb") ++ [.blockEnd])))))) := by
    cases c.advertise with
    | none => exact hpeers.inSection
    | some advertise => exact hpeers.inSection.text "advertise" advertise rfl
  have hcolumn : 0 + 2 = indentStep := rfl
  have hid := (hadvertise.text "listen" c.listen rfl).firstText "id" c.id rfl hcolumn
  have hname : isFieldName "node".toList = true := rfl
  have hnode := Yields.firstKey (m := 0) hname (.inr rfl) (by simp) (hid.newline 5 false)
  have htokens : c.tokens = .blockMappingStart :: .key :: .scalar .plain "node".toList :: .value ::
      .blockMappingStart :: (textTokens "id" c.id ++ (textTokens "listen" c.listen ++
        (c.advertise.elim [] (textTokens "advertise") ++ .blockEnd :: (keyTokens "peers" ++
          (peersTokens c.peers ++ (wordTokens "query_timeout_secs" c.queryTimeout ++
            (wordTokens "snapshot_interval_secs" c.reportInterval ++
              (c.memory.elim [] (wordTokens "max_service_memory_mb") ++ [.blockEnd])))))))) := by
    have hkey : keyTokens "node" = [.key, .scalar .plain "node".toList, .value] := rfl
    simp only [NodeConfig.tokens, NodeConfig.sectionTokens, hkey, List.cons_append,
      List.append_assoc, List.nil_append]
  rw [yaml_eq, htokens]
  exact hnode

/-! ### Its places -/

theorem allPrintable_textField {front name : String} (value : String)
    (hfront : front.toList.all isPrintable = true) (hname : name.toList.all isPrintable = true) :
    (textField front name value).all isPrintable = true := by
  have hsigns : [':', ' '].all isPrintable = true := by decide
  simp only [textField, List.all_append, hfront, hname, hsigns, allPrintable_writeText,
    Bool.and_self]

theorem allPrintable_wordField {name : String} (value : UInt64)
    (hname : name.toList.all isPrintable = true) :
    (wordField name value).all isPrintable = true := by
  have hsigns : [':', ' '].all isPrintable = true := by decide
  have hbreak : ['\n'].all isPrintable = true := by decide
  simp only [wordField, List.all_append, hname, hsigns, hbreak, allPrintable_digits, Bool.and_self]

theorem allPrintable_peersYaml (ps : List Identity) : (peersYaml ps).all isPrintable = true := by
  have hpeer : ∀ p : Identity, p.yaml.all isPrintable = true := fun p => by
    rw [Identity.yaml, List.all_append, allPrintable_textField _ (by decide) (by decide),
      allPrintable_textField _ (by decide) (by decide), Bool.and_self]
  cases ps with
  | nil => decide
  | cons p ps =>
    have htext : peersYaml (p :: ps) = "peers:\n".toList ++ (p :: ps).flatMap Identity.yaml := rfl
    have hkey : "peers:\n".toList.all isPrintable = true := by decide
    rw [htext, List.all_append, hkey, List.all_flatMap, Bool.true_and]
    exact List.all_eq_true.2 fun p _ => hpeer p

theorem allPrintable_yaml (c : NodeConfig) : c.yaml.all isPrintable = true := by
  have hnode : "node".toList.all isPrintable = true := by decide
  have hname : "id".toList.all isPrintable = true := by decide
  have hcolon : isPrintable ':' = true := by decide
  have hbreak : isPrintable '\n' = true := by decide
  have hspace : isPrintable ' ' = true := by decide
  have hadvertise : (c.advertise.elim [] (textField "  " "advertise")).all isPrintable = true := by
    cases c.advertise with
    | none => rfl
    | some advertise => exact allPrintable_textField advertise (by decide) (by decide)
  have hmemory : (c.memory.elim [] (wordField "max_service_memory_mb")).all isPrintable = true := by
    cases c.memory with
    | none => rfl
    | some memory => exact allPrintable_wordField memory (by decide)
  have hlisten : (textField "  " "listen" c.listen).all isPrintable = true :=
    allPrintable_textField _ (by decide) (by decide)
  have htimeout : (wordField "query_timeout_secs" c.queryTimeout).all isPrintable = true :=
    allPrintable_wordField _ (by decide)
  have hinterval : (wordField "snapshot_interval_secs" c.reportInterval).all isPrintable = true :=
    allPrintable_wordField _ (by decide)
  simp only [yaml_eq, List.all_append, List.all_cons, hnode, hname, hcolon, hbreak, hspace,
    allPrintable_margin, allPrintable_writeText, hlisten, hadvertise, allPrintable_peersYaml,
    htimeout, hinterval, hmemory, Bool.and_self]

/-- The text of a configuration has its tokens. -/
theorem tokens?_yaml (c : NodeConfig) : tokens? c.yaml = some c.tokens := by
  have hprintable := List.all_eq_true.1 (allPrintable_yaml c)
  rw [tokens?, places?_eq hprintable]
  simp only [Option.bind_eq_bind, Option.bind_some, length_layOut hprintable]
  exact yields_yaml c 0 0 _ [] (Nat.lt_succ_self _)

end Fleet

import Fleet.Config.Files
import Fleet.Proofs.Config.Document
import Fleet.Proofs.Disk

/-!
# Configurations come back

A sound configuration is read back from its text as it was, whatever its ids and addresses look
like, and so it is from the file that it was put into.

## Main statements

* `NodeConfig.ofText_yaml` — the text of a sound configuration reads as the configuration.
* `NodeConfig.saved_loads` — the same through a file.
-/

namespace Fleet.NodeConfig

open Yaml

variable {c : NodeConfig}

/-- The text of a sound configuration reads as the configuration, on any machine. -/
theorem ofText_yaml (host : String) (h : c.fault? = none) :
    ofText host (String.ofList c.yaml) = .ok c := by
  have hdocument : Document.ofText? c.yaml = some ⟨c.node⟩ := by
    simp only [Document.ofText?, tokens?_yaml, Option.bind_eq_bind, Option.bind_some,
      ofTokens?_tokens]
  simp only [ofText, String.toList_ofList, hdocument, Option.bind_some, ofDocument?_node, h]

/-- What saving does to the files. -/
theorem save_eq (c : NodeConfig) (path : String) (files : FileTree) :
    save (m := StateM FileTree) c path files =
      match files.makeParents path with
      | (false, files) => (.error .io, files)
      | (true, files) =>
        match files.write? path (Text.utf8 (String.ofList c.yaml)) with
        | some files => (.ok (), files)
        | none => (.error .io, files) := by
  have hmake : Disk.makeParents (m := StateM FileTree) path files = files.makeParents path := rfl
  simp only [save, bind, StateT.bind, hmake]
  rcases files.makeParents path with ⟨_ | _, files⟩
  · rfl
  · have hwrite : Disk.write (m := StateM FileTree) path (Text.utf8 (String.ofList c.yaml)) files =
        match files.write? path (Text.utf8 (String.ofList c.yaml)) with
        | some files => (true, files)
        | none => (false, files) := rfl
    dsimp only
    rw [if_neg (by simp)]
    simp only [StateT.bind, bind, hwrite]
    cases files.write? path (Text.utf8 (String.ofList c.yaml)) <;> rfl

/-- Loading changes no file. -/
theorem load_eq (host path : String) (files : FileTree) :
    load (m := StateM FileTree) host path files =
      (if !files.present path then .error (.notFound path)
      else
        match (files.read? path).bind Text.ofUtf8? with
        | none => .error .io
        | some text => ofText host text, files) := by
  have hpresent : Disk.present (m := StateM FileTree) path files = (files.present path, files) :=
    rfl
  have hread : Disk.read (m := StateM FileTree) path files = (files.read? path, files) := rfl
  simp only [load, bind, StateT.bind, hpresent]
  cases files.present path with
  | false => rfl
  | true =>
    rw [if_neg (by simp), if_neg (by simp)]
    simp only [StateT.bind, bind, hread]
    cases (files.read? path).bind Text.ofUtf8? <;> rfl

/-- The file that a sound configuration was put into reads as the configuration, as its text
does. -/
theorem saved_loads (h : c.fault? = none) (host path : String) :
    ofText host (String.ofList c.yaml) = .ok c ∧
      ∀ files files' : FileTree, save (m := StateM FileTree) c path files = (.ok (), files') →
        load (m := StateM FileTree) host path files' = (.ok c, files') := by
  refine ⟨ofText_yaml host h, fun files files' hsave => ?_⟩
  have hwritten : ∃ files₁ : FileTree,
      files₁.write? path (Text.utf8 (String.ofList c.yaml)) = some files' := by
    rw [save_eq] at hsave
    split at hsave
    · cases hsave
    · next files₁ _ =>
      split at hsave
      · next heq =>
        cases hsave
        exact ⟨files₁, heq⟩
      · cases hsave
  obtain ⟨files₁, hwrite⟩ := hwritten
  obtain ⟨hpresent, hread⟩ := FileTree.read?_of_write? hwrite
  simp [load_eq, hpresent, hread, ofText_yaml host h]

/-- A configuration whose texts look like something else than texts, or need escapes. -/
def misleading : NodeConfig :=
  { id := "null", listen := "127.0.0.1:4300", advertise := some "- one\n two: # \n\n",
    peers := [⟨"1e3", " [::1]:4300 "⟩, ⟨"b\u2028", "'\\x07"⟩], queryTimeout := 5,
    reportInterval := 18446744073709551615, memory := none }

theorem misleading_loads :
    misleading.fault? = none ∧
      ofText "host" (String.ofList misleading.yaml) = .ok misleading ∧
      ∃ files, save (m := StateM FileTree) misleading "etc/fleet.yaml" (.empty ["home"]) =
          (.ok (), files) ∧
        load (m := StateM FileTree) "host" "etc/fleet.yaml" files = (.ok misleading, files) := by
  have hsound : misleading.fault? = none := by decide
  obtain ⟨files, hsave⟩ : ∃ files, save (m := StateM FileTree) misleading "etc/fleet.yaml"
      (.empty ["home"]) = (.ok (), files) := ⟨_, rfl⟩
  obtain ⟨htext, hfile⟩ := saved_loads hsound "host" "etc/fleet.yaml"
  exact ⟨hsound, htext, files, hsave, hfile _ _ hsave⟩

end Fleet.NodeConfig

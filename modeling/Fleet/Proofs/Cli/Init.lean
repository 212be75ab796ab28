import Fleet.Cli.Run
import Fleet.Proofs.Config.RoundTrip

/-!
# Writing a first configuration

The command that writes the first configuration of a node refuses what it can before it touches any
file: a path that is taken, an argument that gives no peer, a configuration that would be refused
later. After that either one file has been written, which reads as the configuration that the
arguments stand for, or the folders or the file could not be made and all files are as they were.

Without force a file that is there is kept, with one exception. A path such as `conf/../node.yaml`
leads nowhere while the folder `conf` is missing, so it does not count as taken. Then the folder is
made, the path leads to a file next to it, and that file is replaced.

## Main definitions

* `Identity.GivenBy` — an argument gives a peer.
* `InitOptions.config` — the configuration that the options ask for.
* `InitOptions.Ends` — how the command ends.

## Main statements

* `peersOfArguments_eq_ok_iff` — the peers of some arguments.
* `writeConfig_ends` — all that the command can do.
* `InitOptions.written_or_refused` — what is written, what is refused and what is kept.
* `InitOptions.kept_replaced` — a file that is replaced without force.
-/

namespace Fleet

/-! ### Peers that are given as arguments -/

theorem splitAtEquals?_eq_some_iff {cs before after : List Char} :
    splitAtEquals? cs = some (before, after) ↔ cs = before ++ '=' :: after ∧ '=' ∉ before := by
  induction cs generalizing before with
  | nil => simp [splitAtEquals?]
  | cons c rest ih =>
    by_cases hc : c = '='
    · subst hc
      rw [splitAtEquals?, if_pos rfl]
      cases before with
      | nil => simp [eq_comm]
      | cons d before =>
        simp only [reduceCtorEq, List.cons_append, List.cons.injEq, List.mem_cons, not_or,
          Option.some.injEq, Prod.mk.injEq, false_and, false_iff, not_and, not_not]
        rintro ⟨rfl, -⟩ hne
        exact absurd rfl hne
    · rw [splitAtEquals?, if_neg hc]
      cases before with
      | nil => simp [hc]
      | cons d before =>
        have hrest := @ih before
        simp only [Option.map_eq_some_iff, Prod.exists, Prod.mk.injEq, List.cons_append,
          List.cons.injEq, List.mem_cons, not_or]
        constructor
        · rintro ⟨b, a, hsplit, ⟨rfl, rfl⟩, rfl⟩
          obtain ⟨heq, hmem⟩ := hrest.1 hsplit
          exact ⟨⟨rfl, heq⟩, Ne.symm hc, hmem⟩
        · rintro ⟨⟨rfl, heq⟩, -, hmem⟩
          exact ⟨before, after, hrest.2 ⟨heq, hmem⟩, ⟨rfl, rfl⟩, rfl⟩

/-- An argument gives a peer: its id is what comes before the first equals sign and its address what
comes after it, both without the blank characters around them, and neither is empty. -/
structure Identity.GivenBy (arg : String) (p : Identity) : Prop where
  parts : ∃ before after, arg.toList = before ++ '=' :: after ∧ '=' ∉ before ∧
    p.id = Text.trim (String.ofList before) ∧ p.address = Text.trim (String.ofList after)
  id_ne : p.id ≠ ""
  address_ne : p.address ≠ ""

theorem Identity.ofArgument?_eq_some_iff {arg : String} {p : Identity} :
    ofArgument? arg = some p ↔ GivenBy arg p := by
  simp only [ofArgument?, Option.bind_eq_bind, Option.bind_eq_some_iff, Prod.exists,
    splitAtEquals?_eq_some_iff]
  constructor
  · rintro ⟨before, after, ⟨harg, hmem⟩, hp⟩
    split at hp
    · cases hp
    · next hcomplete =>
      cases hp
      obtain ⟨hid, haddress⟩ := not_or.1 hcomplete
      exact ⟨⟨before, after, harg, hmem, rfl, rfl⟩, hid, haddress⟩
  · rintro ⟨⟨before, after, harg, hmem, hid, haddress⟩, hid', haddress'⟩
    refine ⟨before, after, ⟨harg, hmem⟩, ?_⟩
    rw [← hid, ← haddress, if_neg (not_or.2 ⟨hid', haddress'⟩)]

/-- The peers are those that the arguments give, in their order. -/
theorem peersOfArguments_eq_ok_iff {args : List String} {peers : List Identity} :
    peersOfArguments args = .ok peers ↔ List.Forall₂ Identity.GivenBy args peers := by
  induction args generalizing peers with
  | nil => simp [peersOfArguments, eq_comm]
  | cons arg rest ih =>
    rw [peersOfArguments, List.forall₂_cons_left_iff]
    simp only [← Identity.ofArgument?_eq_some_iff, ← ih]
    cases Identity.ofArgument? arg with
    | none => simp
    | some p =>
      cases peersOfArguments rest with
      | error e => simp [Except.map]
      | ok ps => simp [Except.map, eq_comm]

/-- An argument is refused only if it gives no peer. -/
theorem exists_of_peersOfArguments_eq_error {args : List String} {e : CommandError}
    (h : peersOfArguments args = .error e) :
    ∃ arg ∈ args, e = .badPeer arg ∧ ∀ p, ¬ Identity.GivenBy arg p := by
  induction args with
  | nil => cases h
  | cons arg rest ih =>
    rw [peersOfArguments] at h
    cases hp : Identity.ofArgument? arg with
    | none =>
      rw [hp] at h
      cases h
      refine ⟨arg, .head _, rfl, fun p hgiven => ?_⟩
      rw [Identity.ofArgument?_eq_some_iff.2 hgiven] at hp
      cases hp
    | some p =>
      rw [hp] at h
      cases hrest : peersOfArguments rest with
      | error e' =>
        rw [hrest] at h
        cases h
        obtain ⟨arg', hmem, hbad⟩ := ih hrest
        exact ⟨arg', .tail _ hmem, hbad⟩
      | ok ps =>
        rw [hrest] at h
        cases h

namespace InitOptions

variable {o : InitOptions} {host path : String} {t t' : FileTree}

/-! ### The configuration -/

/-- The default configuration with the id that is asked for and some peers. -/
def config (o : InitOptions) (host : String) (peers : List Identity) : NodeConfig :=
  { NodeConfig.default host with id := o.nodeId.getD host, peers := peers }

theorem firstConfig_eq (o : InitOptions) (host : String) :
    firstConfig host o =
      match peersOfArguments o.peers with
      | .error e => .error e
      | .ok peers =>
        match (o.config host peers).fault? with
        | some fault => .error (.invalid fault)
        | none => .ok (o.config host peers) := by
  rw [firstConfig]
  cases peersOfArguments o.peers <;> rfl

/-- There is a configuration if the arguments give peers and it is sound. -/
theorem firstConfig_eq_ok_iff {c : NodeConfig} :
    firstConfig host o = .ok c ↔
      ∃ peers, List.Forall₂ Identity.GivenBy o.peers peers ∧ c = o.config host peers ∧
        c.fault? = none := by
  simp only [← peersOfArguments_eq_ok_iff, firstConfig_eq]
  cases peersOfArguments o.peers with
  | error e => simp
  | ok peers =>
    simp only [Except.ok.injEq, exists_eq_left']
    split
    · next fault hfault =>
      constructor
      · intro h
        cases h
      · rintro ⟨rfl, hsound⟩
        rw [hfault] at hsound
        cases hsound
    · next hfault =>
      rw [Except.ok.injEq]
      constructor
      · rintro rfl
        exact ⟨rfl, hfault⟩
      · rintro ⟨rfl, -⟩
        rfl

/-- Why a configuration is refused. -/
inductive Refuses (o : InitOptions) (host : String) : CommandError → Prop
  | badPeer {arg : String} (hmem : arg ∈ o.peers) (hbad : ∀ p, ¬ Identity.GivenBy arg p) :
      Refuses o host (.badPeer arg)
  | invalid {peers : List Identity} {fault : ConfigFault}
      (hpeers : List.Forall₂ Identity.GivenBy o.peers peers)
      (hfault : (o.config host peers).fault? = some fault) : Refuses o host (.invalid fault)

theorem refuses_of_firstConfig {e : CommandError} (h : firstConfig host o = .error e) :
    o.Refuses host e := by
  rw [firstConfig_eq] at h
  cases hpeers : peersOfArguments o.peers with
  | error e' =>
    rw [hpeers] at h
    cases h
    obtain ⟨arg, hmem, rfl, hbad⟩ := exists_of_peersOfArguments_eq_error hpeers
    exact .badPeer hmem hbad
  | ok peers =>
    rw [hpeers] at h
    dsimp only at h
    split at h
    · next fault hfault =>
      cases h
      exact .invalid (peersOfArguments_eq_ok_iff.1 hpeers) hfault
    · cases h

/-! ### Saving -/

/-- Saving a configuration writes one file, where its path leads once the folders are made. -/
theorem exists_of_save {c : NodeConfig}
    (h : NodeConfig.save (m := StateM FileTree) c path t = (.ok (), t')) :
    ∃ trail, (t.makeParents path).2.locate? path = some trail ∧
      (t.makeParents path).2.isFolder trail = false ∧
      t'.files = t.files.insert trail (Text.utf8 (String.ofList c.yaml)) := by
  have hfiles := (t.grows_makeParents path).files
  rw [NodeConfig.save_eq] at h
  split at h
  · cases h
  · next made hmade =>
    rw [hmade] at hfiles ⊢
    split at h
    · next written hwrite =>
      cases h
      obtain ⟨trail, hlocate, hplain, rfl⟩ := FileTree.exists_of_write? hwrite
      exact ⟨trail, hlocate, hplain, by rw [← hfiles]⟩
    · cases h

/-- Where saving fails there are more folders at most. -/
theorem grows_of_save {c : NodeConfig} {e : ConfigError}
    (h : NodeConfig.save (m := StateM FileTree) c path t = (.error e, t')) :
    e = .io ∧ t.Grows t' := by
  have hgrows := t.grows_makeParents path
  rw [NodeConfig.save_eq] at h
  split at h
  · next made hmade =>
    rw [hmade] at hgrows
    cases h
    exact ⟨rfl, hgrows⟩
  · next made hmade =>
    rw [hmade] at hgrows
    split at h
    · cases h
    · cases h
      exact ⟨rfl, hgrows⟩

/-! ### The command -/

/-- The ways in which the command ends, with what it leaves of the files. -/
inductive Ends (o : InitOptions) (host path : String) (t : FileTree) :
    Except CommandError String → FileTree → Prop
  | taken (hpresent : t.present path = true) (hforce : o.force = false) :
      Ends o host path t (.error (.taken path)) t
  | refused {e : CommandError} (hfree : t.present path = true → o.force = true)
      (hrefused : firstConfig host o = .error e) : Ends o host path t (.error e) t
  | unwritten {c : NodeConfig} {e : ConfigError} {t' : FileTree}
      (hfree : t.present path = true → o.force = true) (hc : firstConfig host o = .ok c)
      (hsave : c.save (m := StateM FileTree) path t = (.error e, t')) :
      Ends o host path t (.error (.write path e)) t'
  | written {c : NodeConfig} {t' : FileTree} (hfree : t.present path = true → o.force = true)
      (hc : firstConfig host o = .ok c)
      (hsave : c.save (m := StateM FileTree) path t = (.ok (), t')) :
      Ends o host path t (.ok s!"Wrote node config for {c.id} to {path}\n") t'

end InitOptions

theorem writeConfig_ends (machine : Machine) (config : Option String) (o : InitOptions)
    (t : FileTree) : let run := writeConfig (m := StateM FileTree) machine config o t
      o.Ends machine.host (config.getD machine.defaultConfig) t run.1 run.2 := by
  intro run
  have hpresent : Disk.present (m := StateM FileTree) (config.getD machine.defaultConfig) t =
      (t.present (config.getD machine.defaultConfig), t) := rfl
  have hrun : run = writeConfig (m := StateM FileTree) machine config o t := rfl
  simp only [writeConfig, bind, StateT.bind, hpresent] at hrun
  by_cases htaken : t.present (config.getD machine.defaultConfig) && !o.force
  · rw [if_pos htaken] at hrun
    rw [hrun]
    simp only [Bool.and_eq_true, Bool.not_eq_true'] at htaken
    exact .taken htaken.1 htaken.2
  · rw [if_neg htaken] at hrun
    have hfree : t.present (config.getD machine.defaultConfig) = true → o.force = true := by
      simpa using htaken
    cases hc : firstConfig machine.host o with
    | error e =>
      rw [hc] at hrun
      rw [hrun]
      exact .refused hfree hc
    | ok c =>
      rw [hc] at hrun
      simp only [StateT.bind, bind] at hrun
      cases hsave : c.save (m := StateM FileTree) (config.getD machine.defaultConfig) t with
      | mk result t' =>
        rw [hsave] at hrun
        cases result with
        | error e =>
          rw [hrun]
          exact .unwritten hfree hc hsave
        | ok =>
          rw [hrun]
          exact .written hfree hc hsave

namespace InitOptions

variable {o : InitOptions} {host path : String} {t t' : FileTree}
  {result : Except CommandError String} {trail : Trail}

/-- The command succeeds if the path is free, the arguments give a sound configuration, and it can
be saved. -/
theorem Ends.ok_iff (h : o.Ends host path t result t') : (∃ text, result = .ok text) ↔
    (t.present path = true → o.force = true) ∧ ∃ peers,
      List.Forall₂ Identity.GivenBy o.peers peers ∧ (o.config host peers).fault? = none ∧
      ∃ t', (o.config host peers).save (m := StateM FileTree) path t = (.ok (), t') := by
  constructor
  · rintro ⟨text, rfl⟩
    cases h with
    | written hfree hc hsave =>
      obtain ⟨peers, hpeers, rfl, hsound⟩ := firstConfig_eq_ok_iff.1 hc
      exact ⟨hfree, peers, hpeers, hsound, t', hsave⟩
  · rintro ⟨hfree, peers, hpeers, hsound, t'', hsave⟩
    have hc : firstConfig host o = .ok (o.config host peers) :=
      firstConfig_eq_ok_iff.2 ⟨peers, hpeers, rfl, hsound⟩
    cases h with
    | taken hpresent hforce =>
      rw [hfree hpresent] at hforce
      cases hforce
    | refused _ hrefused =>
      rw [hc] at hrefused
      cases hrefused
    | unwritten _ hc' hsave' =>
      rw [hc] at hc'
      cases hc'
      rw [hsave] at hsave'
      cases hsave'
    | written => exact ⟨_, rfl⟩

/-- What was written reads as the configuration that the options ask for. -/
theorem Ends.loads {text : String} (h : o.Ends host path t (.ok text) t') :
    ∃ peers, List.Forall₂ Identity.GivenBy o.peers peers ∧
      (∀ other, NodeConfig.load (m := StateM FileTree) other path t' =
        (.ok (o.config host peers), t')) ∧
      ∃ trail, (t.makeParents path).2.locate? path = some trail ∧
        t'.files = t.files.insert trail
          (Text.utf8 (String.ofList (o.config host peers).yaml)) := by
  cases h with
  | written hfree hc hsave =>
    obtain ⟨peers, hpeers, rfl, hsound⟩ := firstConfig_eq_ok_iff.1 hc
    obtain ⟨trail, hlocate, -, hfiles⟩ := exists_of_save hsave
    refine ⟨peers, hpeers, fun other => ?_, trail, hlocate, hfiles⟩
    exact (NodeConfig.saved_loads hsound other path).2 t t' hsave

/-- What is refused changes nothing, and what fails later makes folders at most. -/
theorem Ends.of_error {e : CommandError} (h : o.Ends host path t (.error e) t') :
    t' = t ∧ (e = .taken path ∧ t.present path = true ∧ o.force = false ∨ o.Refuses host e) ∨
      e = .write path .io ∧ t.Grows t' := by
  cases h with
  | taken hpresent hforce => exact .inl ⟨rfl, .inl ⟨rfl, hpresent, hforce⟩⟩
  | refused _ hrefused => exact .inl ⟨rfl, .inr (refuses_of_firstConfig hrefused)⟩
  | unwritten _ _ hsave =>
    obtain ⟨rfl, hgrows⟩ := grows_of_save hsave
    exact .inr ⟨rfl, hgrows⟩

/-- Without force a file is replaced only if the path leads to it once its folders are made, and
nowhere before. -/
theorem Ends.opens_of_ne (h : o.Ends host path t result t') (hforce : o.force = false)
    (hfile : t.files.contains trail = true) (hne : t'.files.get? trail ≠ t.files.get? trail) :
    t.Opens path trail ∧ (t.makeParents path).2.isFolder trail = false := by
  cases h with
  | taken => exact absurd rfl hne
  | refused => exact absurd rfl hne
  | unwritten _ _ hsave =>
    rw [(grows_of_save hsave).2.files] at hne
    exact absurd rfl hne
  | written hfree _ hsave =>
    obtain ⟨written, hlocate, hplain, hfiles⟩ := exists_of_save hsave
    obtain rfl : trail = written := by
      by_contra hother
      rw [hfiles, Table.get?_insert, if_neg hother] at hne
      exact hne rfl
    refine ⟨⟨?_, hlocate⟩, hplain⟩
    cases hbefore : t.locate? path with
    | none => rfl
    | some there =>
      -- It leads there still, so the file was there to be seen and the path was taken.
      have hsame := (t.grows_makeParents path).locate? hbefore
      rw [hlocate] at hsame
      cases hsame
      have hpresent : t.present path = true := by
        simp [FileTree.present, hbefore, hfile]
      rw [hfree hpresent] at hforce
      cases hforce

/-- **Written as asked or refused.** The command succeeds exactly if the path is free, the arguments
give peers, the configuration is sound and it can be saved. Then one file is written, and it reads
as the default configuration with the id that was asked for, or the name of the machine, and with
one peer for each argument. If the command fails for another reason than writing, everything is as
before, and if writing fails there are more folders at most. Without force a file that was there is
kept unless the path led nowhere before its folders were made and leads to the file now; for a path
without two dots that does not happen. -/
theorem written_or_refused (machine : Machine) (config : Option String) (o : InitOptions)
    (t : FileTree) :
    let path := config.getD machine.defaultConfig
    let run := writeConfig (m := StateM FileTree) machine config o t
    ((∃ text, run.1 = .ok text) ↔
      (t.present path = true → o.force = true) ∧ ∃ peers,
        List.Forall₂ Identity.GivenBy o.peers peers ∧
        (o.config machine.host peers).fault? = none ∧ ∃ t',
          (o.config machine.host peers).save (m := StateM FileTree) path t = (.ok (), t')) ∧
    (∀ text, run.1 = .ok text → ∃ peers, List.Forall₂ Identity.GivenBy o.peers peers ∧
      (∀ host, NodeConfig.load (m := StateM FileTree) host path run.2 =
        (.ok (o.config machine.host peers), run.2)) ∧
      ∃ trail, (t.makeParents path).2.locate? path = some trail ∧
        run.2.files = t.files.insert trail
          (Text.utf8 (String.ofList (o.config machine.host peers).yaml))) ∧
    (∀ e, run.1 = .error e →
      run.2 = t ∧ (e = .taken path ∧ t.present path = true ∧ o.force = false ∨
        o.Refuses machine.host e) ∨
      e = .write path .io ∧ t.Grows run.2) ∧
    (o.force = false → ∀ trail, t.files.contains trail = true → ¬ t.Opens path trail →
      run.2.files.get? trail = t.files.get? trail) ∧
    (o.force = false → t.Nested → (∀ p ∈ FilePath.ofText? path, ".." ∉ p.names) →
      ∀ trail, t.files.contains trail = true →
        run.2.files.get? trail = t.files.get? trail) := by
  intro path run
  have hends : o.Ends machine.host path t run.1 run.2 := writeConfig_ends machine config o t
  refine ⟨hends.ok_iff, fun text hok => ?_, fun e herror => ?_,
    fun hforce trail hfile hopens => ?_, fun hforce hnested hnames trail hfile => ?_⟩
  · rw [hok] at hends
    exact hends.loads
  · rw [herror] at hends
    exact hends.of_error
  · by_contra hne
    exact hopens (hends.opens_of_ne hforce hfile hne).1
  · by_contra hne
    obtain ⟨hopens, hplain⟩ := hends.opens_of_ne hforce hfile hne
    exact hnested.not_opens hfile hnames hplain hopens

/-- The machine "m". -/
def plainMachine : Machine where
  host := "m"
  memory := 8192
  home := "/home/u"
  configVariable := none
  canListen := fun _ => true

/-- A folder to work in, with a file in it. -/
def workplace : FileTree :=
  { FileTree.empty ["work"] with
    files := Table.empty.insert ["work", "node.yaml"] (Text.utf8 "kept") }

theorem nested_workplace : workplace.Nested := by
  constructor
  · intro p hp
    have hp' : p = [] ∨ p = ["work"] := by
      simpa [FileTree.isFolder, workplace, FileTree.empty] using hp
    rcases hp' with rfl | rfl <;> rfl
  · intro p hp
    have hp' : p = ["work", "node.yaml"] := by
      by_contra hne
      simp [workplace, Table.contains, Table.get?_insert, hne] at hp
    subst hp'
    rfl

/-- Two peers, one of them with blank characters and a second equals sign. -/
def twoPeers : InitOptions := ⟨none, [" b = h:1=x ", "a=h:2"], false⟩

theorem twoPeers_written :
    let path := "/home/u/.cloudmesh/node.yaml"
    let run := writeConfig (m := StateM FileTree) plainMachine none twoPeers workplace
    (∃ text, run.1 = .ok text) ∧ twoPeers.force = false ∧ workplace.Nested ∧
      (∀ p ∈ FilePath.ofText? path, ".." ∉ p.names) ∧
      (∀ host, NodeConfig.load (m := StateM FileTree) host path run.2 =
        (.ok { NodeConfig.default "m" with peers := [⟨"b", "h:1=x"⟩, ⟨"a", "h:2"⟩] }, run.2)) ∧
      workplace.files.contains ["work", "node.yaml"] = true ∧
      run.2.files.get? ["work", "node.yaml"] = some (Text.utf8 "kept") := by
  intro path run
  have hpeers : List.Forall₂ Identity.GivenBy twoPeers.peers [⟨"b", "h:1=x"⟩, ⟨"a", "h:2"⟩] :=
    peersOfArguments_eq_ok_iff.1 rfl
  have hnames : ∀ p ∈ FilePath.ofText? path, ".." ∉ p.names := by decide +kernel
  obtain ⟨hok, hloads, -, -, hkept⟩ := written_or_refused plainMachine none twoPeers workplace
  have hfree : ¬ workplace.present plainMachine.defaultConfig = true := by decide +kernel
  have hsound : (twoPeers.config "m" [⟨"b", "h:1=x"⟩, ⟨"a", "h:2"⟩]).fault? = none := by
    decide +kernel
  obtain ⟨text, htext⟩ := hok.2 ⟨fun h => absurd h hfree, _, hpeers, hsound, _, rfl⟩
  obtain ⟨peers, hgiven, hload, -⟩ := hloads text htext
  cases (peersOfArguments_eq_ok_iff.2 hgiven).symm.trans (peersOfArguments_eq_ok_iff.2 hpeers)
  have hfile : workplace.files.contains ["work", "node.yaml"] = true := by decide
  exact ⟨⟨text, htext⟩, rfl, nested_workplace, hnames, hload, hfile,
    (hkept rfl nested_workplace hnames _ hfile).trans (by decide)⟩

/-- A file that is there is replaced, although the command is not forced: the path to it goes
through a folder that is missing. -/
theorem kept_replaced :
    let run := writeConfig (m := StateM FileTree) plainMachine (some "conf/../node.yaml")
      ⟨some "n", [], false⟩ workplace
    workplace.read? "node.yaml" = some (Text.utf8 "kept") ∧
      run.1.isOk = true ∧ run.2.read? "node.yaml" ≠ some (Text.utf8 "kept") := by
  decide +kernel

end InitOptions

end Fleet

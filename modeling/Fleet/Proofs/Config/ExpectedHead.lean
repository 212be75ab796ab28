import Fleet.Proofs.Node.Acquaintance
import Fleet.Proofs.Member.Succession
import Fleet.Proofs.Member.Placement
import Fleet.Report.DryRun
import Fleet.Transport.Scripted

/-!
# The head that a dry run announces

A dry run picks the smallest of the ids that a configuration names, while a node that runs takes its
head from a roster, after all that it has heard of its connections. Both have the same answer once
the peers are there: then the available members are the node itself and its peers, so the head is
the least of these ids. It depends on them as a set, so all nodes that name the same ids announce
the same head, each in its own order.

## Main definitions

* `NodeConfig.ids` — the ids that a configuration names.
* `NodeConfig.AllUp` — the peers of a configuration are there after some inputs.
* `NodeConfig.AllConnect` — they have connected, in any order and any number of times.

## Main statements

* `NodeConfig.isLeast_expectedHead` — what a dry run announces.
* `Site.Follows.up_eq_ids` — the available members once all peers are there.
* `NodeConfig.announced_is_head` — the two agree, on all nodes that name the same ids.
-/

namespace Fleet

/-! ### What is announced -/

/-- The search for the smallest text finds the least one of a list. -/
theorem isLeast_of_firstLeast {l : List String} {least : String}
    (h : firstLeast compare l = some least) : IsLeast {id | id ∈ l} least := by
  cases l with
  | nil => cases h
  | cons best rest =>
    have hfirst : FirstBy (fun id : String => id) (best :: rest) least := by
      refine firstBy_of_firstLeast h fun x _ y _ => ⟨lt_of_compare_eq_gt, fun hlt => ?_⟩
      by_contra hne
      exact not_lt_of_ge (le_of_compare_ne_gt hne) hlt
    exact ⟨hfirst.mem, fun x hx => hfirst.le hx⟩

namespace NodeConfig

/-- The ids that a configuration names: the node's own and those of its peers. -/
def ids (c : NodeConfig) : Set String := {id | id = c.id ∨ ∃ p ∈ c.peers, p.id = id}

theorem isLeast_expectedHead (c : NodeConfig) : IsLeast c.ids c.expectedHead := by
  have hids : c.ids = {id | id ∈ c.peers.map (·.id) ++ [c.id]} := by
    ext id
    simp [ids, or_comm]
  obtain ⟨least, hleast⟩ : ∃ least,
      firstLeast compare (c.peers.map (·.id) ++ [c.id]) = some least := by
    refine Option.ne_none_iff_exists'.1 fun hnone => ?_
    simp [firstLeast_eq_none_iff] at hnone
  rw [expectedHead, hleast, hids]
  exact isLeast_of_firstLeast hleast

/-- The head that is announced depends on nothing but the set of ids. -/
theorem expectedHead_eq_of_ids_eq {c d : NodeConfig} (h : d.ids = c.ids) :
    d.expectedHead = c.expectedHead := by
  have hleast := d.isLeast_expectedHead
  rw [h] at hleast
  exact hleast.unique c.isLeast_expectedHead

/-! ### When all peers are there -/

/-- After some inputs the peers of a configuration are there, as far as their connections were last
heard of, and nobody else has been introduced. -/
structure AllUp (c : NodeConfig) (log : List Node.Input) : Prop where
  only : ∀ i ∈ log.flatMap (·.introduced), i.id ∈ c.ids
  each : ∀ p ∈ c.peers, (log.filterMap (·.signal? p.id)).getLast? = some true

/-- The peers of a configuration connect, each of them once or several times, in any order and
whatever address they give; besides, messages may come. -/
structure AllConnect (c : NodeConfig) (log : List Node.Input) : Prop where
  only : ∀ x ∈ log, (∃ m, x = .event (.message m)) ∨
    ∃ i, x = .event (.connected i) ∧ ∃ p ∈ c.peers, p.id = i.id
  each : ∀ p ∈ c.peers, ∃ i, i.id = p.id ∧ Node.Input.event (.connected i) ∈ log

/-- As long as nobody goes away, a peer that has connected is there. -/
theorem AllConnect.allUp {c : NodeConfig} {log : List Node.Input} (h : c.AllConnect log) :
    c.AllUp log := by
  refine ⟨fun i hi => ?_, fun p hp => ?_⟩
  · obtain ⟨x, hx, hi⟩ := List.mem_flatMap.1 hi
    rcases h.only x hx with ⟨m, rfl⟩ | ⟨j, rfl, hpeer⟩
    · cases hi
    · cases List.mem_singleton.1 hi
      exact .inr hpeer
  · obtain ⟨i, hid, hi⟩ := h.each p hp
    -- Nobody goes away, so all that was heard of a connection is that it is there.
    have htrue : ∀ b ∈ log.filterMap (·.signal? p.id), b = true := by
      intro b hb
      obtain ⟨x, hx, hsignal⟩ := List.mem_filterMap.1 hb
      rcases h.only x hx with ⟨m, rfl⟩ | ⟨j, rfl, -⟩
      · cases hsignal
      · simp only [Node.Input.signal?, TransportEvent.signal?] at hsignal
        split at hsignal
        · exact (Option.some.inj hsignal).symm
        · cases hsignal
    have hne : log.filterMap (·.signal? p.id) ≠ [] :=
      List.ne_nil_of_mem (a := true) (List.mem_filterMap.2 ⟨_, hi, if_pos hid⟩)
    rw [List.getLast?_eq_some_getLast hne, htrue _ (List.getLast_mem hne)]

end NodeConfig

/-! ### The head of a node that runs -/

namespace Site

variable {σ : Type} [Transport σ] {start s : Site σ} {log : List Node.Input} {c : NodeConfig}
  {memory : UInt64}

/-- The node of a configuration is one that knew nobody and has been told of its peers. -/
theorem Follows.exists_newcomer (hstart : start.node = Node.ofConfig c memory)
    (h : start.Follows log s) : ∃ newcomer : Site σ, newcomer.node.roster = .new c.identity ∧
      newcomer.Follows (.peers c.peers :: log) s := by
  let newcomer : Site σ := { start with
    node := (Node.new c.identity memory (c.queryTimeout.toNat * 1000)).withListeners }
  have htold : newcomer.accept (.peers c.peers) = start := by
    change { start with node := Node.ofConfig c memory } = start
    rw [← hstart]
  exact ⟨newcomer, rfl, (Follows.start.accepts (.peers c.peers)).trans (htold ▸ h)⟩

/-- Once all peers of a configuration are there, its ids are those that the node counts as
available. -/
theorem Follows.up_eq_ids (hstart : start.node = Node.ofConfig c memory)
    (h : start.Follows log s) (hup : c.AllUp log) : s.node.roster.up = c.ids := by
  obtain ⟨newcomer, hnew, hfollows⟩ := h.exists_newcomer hstart
  have hknown := hfollows.acquainted hnew
  -- The node lists itself, the peers that it was told of, and those that connected.
  have hlisted : ∀ id, (∃ m ∈ s.node.roster.members, m.id = id) ↔
      id = c.id ∨ (∃ p ∈ c.peers, p.id = id) ∨ ∃ i ∈ log.flatMap (·.introduced), i.id = id := by
    intro id
    have hmem := congrArg (fun l : List Identity => id ∈ l.map (·.id)) hknown.listed
    rw [mem_ids_firsts, List.map_map] at hmem
    simpa [Member.id, NodeConfig.identity, Node.Input.introduced, eq_comm] using hmem
  ext id
  simp only [Roster.up, Set.mem_ofPred_eq, Roster.mem_available]
  constructor
  · rintro ⟨m, ⟨hm, -⟩, rfl⟩
    rcases (hlisted m.id).1 ⟨m, hm, rfl⟩ with hself | hpeer | ⟨i, hi, hid⟩
    · exact .inl hself
    · exact .inr hpeer
    · exact hid ▸ hup.only i hi
  · intro hid
    obtain ⟨m, hm, rfl⟩ := (hlisted id).2 (hid.imp_right .inl)
    refine ⟨m, ⟨hm, (hknown.available m hm).2 ?_⟩, rfl⟩
    rcases hid with hself | ⟨p, hp, hid⟩
    · exact .inl hself
    · right
      rw [← hid]
      exact hup.each p hp

/-- Then the node has the head that a dry run announces. -/
theorem Follows.head_eq_expectedHead (hstart : start.node = Node.ofConfig c memory)
    (h : start.Follows log s) (hup : c.AllUp log) : s.node.roster.head.id = c.expectedHead := by
  obtain ⟨newcomer, hnew, hfollows⟩ := h.exists_newcomer hstart
  have hhead := (hfollows.roster hnew).1.isLeast_head
  rw [h.up_eq_ids hstart hup] at hhead
  exact hhead.unique c.isLeast_expectedHead

end Site

namespace NodeConfig

/-- **The announced head is the head.** For every configuration, accepted or not, the last line of a
dry run names the least id of the node and its peers. Take any node whose configuration names the
same ids, such as this one: its dry run announces the same head, and once all its peers have
connected, in any order and any number of times, this is the head that it has. -/
theorem announced_is_head (c : NodeConfig) :
    IsLeast c.ids c.expectedHead ∧
    (∀ path memory, ∃ front, Report.dryRun c path memory =
      front ++ ("\nHead when all peers are up: " ++ c.expectedHead ++ "\n")) ∧
    ∀ d : NodeConfig, d.ids = c.ids →
      d.expectedHead = c.expectedHead ∧
      ∀ {σ : Type} [Transport σ] (memory : UInt64) (start s : Site σ) (log : List Node.Input),
        start.node = Node.ofConfig d memory → start.Follows log s → d.AllConnect log →
          s.node.roster.head.id = c.expectedHead := by
  refine ⟨c.isLeast_expectedHead, fun path memory => ⟨_, rfl⟩, fun d hids => ?_⟩
  have hsame : d.expectedHead = c.expectedHead := expectedHead_eq_of_ids_eq hids
  refine ⟨hsame, fun memory start s log hstart hfollows hconnect => ?_⟩
  rw [hfollows.head_eq_expectedHead hstart hconnect.allUp, hsame]

/-- The configuration of the node "c" with the peers "b" and "a". -/
def trioAtC : NodeConfig := { default "c" with peers := [⟨"b", "b:1"⟩, ⟨"a", "a:1"⟩] }

/-- The configuration of the node "a" of the same cluster. -/
def trioAtA : NodeConfig := { default "a" with peers := [⟨"c", "c:1"⟩, ⟨"b", "b:1"⟩] }

/-- The node "c" when it starts. -/
def trioStart : Site Network where
  node := Node.ofConfig trioAtC 64
  links := .empty
  drawn := 0
  calls := []
  clock := 0
  noticed := 0
  now := .epoch

/-- The peer "b" connects twice, the second time with another address, and "a" in between. -/
def trioConnects : List Node.Input :=
  [.event (.connected ⟨"b", "b:1"⟩), .event (.connected ⟨"a", "a:1"⟩),
    .event (.connected ⟨"b", "b:2"⟩)]

theorem trio_head :
    let s := ((trioConnects.foldl Site.accept trioStart).publish Load.unknownCpu).2
    trioAtC.fault? = none ∧ trioAtA.fault? = none ∧ trioAtC.ids = trioAtA.ids ∧
      trioAtA.expectedHead = "a" ∧ trioAtC.expectedHead = "a" ∧
      trioStart.Follows trioConnects s ∧ trioAtC.AllConnect trioConnects ∧
      s.node.roster.head.id = "a" := by
  intro s
  have hids : trioAtC.ids = trioAtA.ids := by
    ext id
    simp [ids, trioAtC, trioAtA, default]
    tauto
  have hfollows : trioStart.Follows trioConnects s :=
    (Site.Follows.start.foldl trioConnects).acts (.publish Load.unknownCpu)
  have hconnect : trioAtC.AllConnect trioConnects := by
    constructor
    · simp [trioConnects, trioAtC]
    · simp only [trioConnects, trioAtC, List.forall_mem_cons]
      exact ⟨⟨⟨"b", "b:1"⟩, rfl, by simp⟩, ⟨⟨"a", "a:1"⟩, rfl, by simp⟩, by simp⟩
  have hexpected : trioAtA.expectedHead = "a" := by decide
  obtain ⟨hsame, hhead⟩ := trioAtA.announced_is_head.2.2 trioAtC hids
  exact ⟨by decide +kernel, by decide +kernel, hids, hexpected, hsame.trans hexpected, hfollows,
    hconnect, (hhead 64 trioStart s trioConnects rfl hfollows hconnect).trans hexpected⟩

end NodeConfig

end Fleet

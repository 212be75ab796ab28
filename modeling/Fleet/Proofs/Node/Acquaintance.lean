import Fleet.Proofs.Messenger.Outcomes
import Fleet.Proofs.Node.Hearing

/-!
# Whom a node knows

A node learns of peers in two ways: some it is told of at any time, and some connect.  Its roster
lists the node itself and after it all of them, each once, where it was first learned of and as it
was described then.  A peer that is listed is available exactly if the last thing heard of its
connection is that it is there.  When a peer goes away, the queries that wait for it end and no
others.

None of this depends on what the node does in between: its queries, its services and the messages of
its peers change loads at most.

## Main definitions

* `Node.Input` — a list of peers that a node is told of, or an event of its connections.
* `firsts` — the identities of a list, each id where it first occurs.
* `Site.Acts` — what a node does of its own accord.
* `Site.Follows` — a node has come from one state to another, given some inputs.
* `Site.Acquainted` — what is known of the peers after these inputs.

## Main statements

* `Roster.identities_run_register` — what registering adds to the members.
* `Site.Follows.acquainted` — a node that knew nobody is acquainted with its peers in this way.
-/

namespace Fleet

/-! ### The order in which peers are learned of -/

/-- The identities of a list, each id once: where it first occurs, and as it is there. -/
def firsts : List Identity → List Identity
  | [] => []
  | i :: rest => i :: (firsts rest).filter (·.id ≠ i.id)

theorem mem_ids_firsts {l : List Identity} {id : String} :
    id ∈ (firsts l).map (·.id) ↔ id ∈ l.map (·.id) := by
  induction l with
  | nil => rfl
  | cons i rest ih =>
    rw [firsts, List.map_cons, List.mem_cons, List.map_cons, List.mem_cons, ← ih]
    refine or_congr_right' fun hid => ?_
    simp only [List.mem_map, List.mem_filter, decide_eq_true_eq]
    exact ⟨fun ⟨j, hj, heq⟩ => ⟨j, hj.1, heq⟩,
      fun ⟨j, hj, heq⟩ => ⟨j, ⟨hj, fun h => hid (heq.symm.trans h)⟩, heq⟩⟩

/-- An identity that comes last counts only if its id is new. -/
theorem firsts_concat (l : List Identity) (i : Identity) :
    firsts (l ++ [i]) = if i.id ∈ l.map (·.id) then firsts l else firsts l ++ [i] := by
  induction l with
  | nil => rfl
  | cons j rest ih =>
    have hmem : i.id ∈ (j :: rest).map (·.id) ↔ i.id = j.id ∨ i.id ∈ rest.map (·.id) :=
      List.mem_cons
    rw [List.cons_append, firsts, ih, firsts]
    by_cases hj : i.id = j.id
    · rw [if_pos (hmem.2 (.inl hj))]
      split
      · rfl
      · rw [List.filter_append, List.filter_cons_of_neg (by simp [hj]), List.filter_nil,
          List.append_nil]
    · by_cases hrest : i.id ∈ rest.map (·.id)
      · rw [if_pos hrest, if_pos (hmem.2 (.inr hrest))]
      · rw [if_neg hrest, if_neg (mt hmem.1 (not_or.2 ⟨hj, hrest⟩)), List.filter_append,
          List.filter_cons_of_pos (by simp [hj]), List.filter_nil, List.cons_append]

namespace Roster

variable {r r' : Roster} {me : Identity}

/-- The members, as they are known, in their order. -/
def identities (r : Roster) : List Identity := r.members.map (·.identity)

theorem Sorted.identities_eq (h : r.Sorted me) : r.identities = r.roll.map (·.identity) := by
  rw [identities, h.shows.members]

theorem Sorted.ids_identities (h : r.Sorted me) : r.identities.map (·.id) = r.roll.ids := by
  rw [h.identities_eq, List.map_map]
  rfl

theorem Sorted.identities_perform (h : r.Sorted me) (op : Op) :
    (r.perform op).2.identities = (r.roll.perform me.id op).2.map (·.identity) := by
  obtain ⟨hsorted, heq⟩ := h.perform op
  rw [hsorted.identities_eq, heq]

theorem identities_amend (roll : Roll) (id : String) {f : Member → Member}
    (hf : ∀ m, (f m).identity = m.identity) :
    (roll.amend id f).map (·.identity) = roll.map (·.identity) := by
  rw [Roll.amend, List.map_map]
  refine List.map_congr_left fun m _ => ?_
  simp only [Function.comp]
  split
  · exact hf m
  · rfl

/-- Registering adds an identity at the end unless its id is listed. -/
theorem Sorted.identities_register (h : r.Sorted me) (i : Identity) :
    (r.perform (.register i)).2.identities =
      if i.id ∈ r.identities.map (·.id) then r.identities else r.identities ++ [i] := by
  rw [h.identities_perform, h.ids_identities, h.identities_eq, Roll.perform]
  split
  · rfl
  · rw [List.map_append]
    rfl

theorem Sorted.identities_report (h : r.Sorted me) (id : String) (load : Load) :
    (r.perform (.report id load)).2.identities = r.identities := by
  rw [h.identities_perform, h.identities_eq, Roll.perform]
  split
  · refine identities_amend _ _ fun m => ?_
    rw [← Roll.report_eq]
    exact Member.identity_report m load
  · rfl

theorem Sorted.identities_markConnected (h : r.Sorted me) (id : String) (connected : Bool) :
    (r.perform (.markConnected id connected)).2.identities = r.identities := by
  rw [h.identities_perform, h.identities_eq, Roll.perform]
  split
  · rfl
  · split
    · exact identities_amend _ _ fun _ => rfl
    · rfl

/-- Registering several peers adds those whose ids are new, in their order. -/
theorem identities_run_register {known : List Identity} (h : r.Sorted me)
    (hknown : r.identities = firsts known) (peers : List Identity) :
    (r.run (peers.map .register)).identities = firsts (known ++ peers) := by
  induction peers generalizing r known with
  | nil => rw [List.append_nil]; exact hknown
  | cons i rest ih =>
    have hnext : (r.perform (.register i)).2.identities = firsts (known ++ [i]) := by
      rw [h.identities_register, hknown, firsts_concat]
      simp only [mem_ids_firsts]
    rw [List.append_cons]
    exact ih (h.perform (.register i)).1 hnext

/-- Reports change neither who is listed nor who is available. -/
theorem Sorted.reports (h : r.Sorted me) (hreports : r.Leads Op.Reporting r') :
    r'.Sorted me ∧ r'.identities = r.identities ∧ ∀ p, r'.holds p = r.holds p := by
  refine hreports.keeps (fun r' => r'.Sorted me ∧ r'.identities = r.identities ∧
    ∀ p, r'.holds p = r.holds p) ⟨h, rfl, fun _ => rfl⟩ fun r op hop hr => ?_
  obtain ⟨hsorted, hidentities, hholds⟩ := hr
  cases op with
  | report id load =>
    exact ⟨(hsorted.perform _).1, (hsorted.identities_report id load).trans hidentities,
      fun p => (r.holds_perform_report id load p).trans (hholds p)⟩
  | register | unregister | markConnected => exact hop.elim

/-- An id that is not listed cannot be noted as gone. -/
theorem Sorted.perform_unlisted (h : r.Sorted me) {id : String} (hout : id ∉ r.roll.ids) :
    (r.perform (.markConnected id false)).2 = r := by
  have hself : id ≠ me.id := fun heq =>
    hout ((h.mem_ids_roll id).2 (.inl (heq.trans h.selfId.symm)))
  have hanswer := congrArg Prod.fst (h.perform (.markConnected id false)).2
  rw [Roll.perform, if_neg hself, if_neg hout] at hanswer
  exact perform_of_error hanswer.symm

end Roster

/-! ### Inputs -/

/-- What comes to a node: peers that it is told of, or an event of its connections. -/
inductive Node.Input where
  | peers (l : List Identity)
  | event (e : TransportEvent)

namespace Node.Input

/-- The identities that an input describes. -/
def introduced : Input → List Identity
  | .peers l => l
  | .event (.connected peer) => [peer]
  | .event (.disconnected _) | .event (.message _) => []

/-- What an input says about the connection to a peer. -/
def signal? (p : String) : Input → Option Bool
  | .peers _ => none
  | .event e => e.signal? p

end Node.Input

variable {σ : Type}

/-- The node takes an input in. -/
def Site.accept (s : Site σ) : Node.Input → Site σ
  | .peers l => { s with node := s.node.addPeers l }
  | .event e => s.handle e

theorem Site.holds_accept {s : Site σ} {p : String} (hp : p ≠ s.node.id) (x : Node.Input) :
    (s.accept x).node.roster.holds p = (x.signal? p).getD (s.node.roster.holds p) := by
  cases x with
  | peers l =>
    refine (s.node.leads_addPeers l).keeps (·.holds p = s.node.roster.holds p) rfl ?_
    rintro r op ⟨i, rfl⟩ hr
    exact (r.holds_perform_register i p).trans hr
  | event e => exact holds_handle hp e

/-- What an input does to the members: it adds those that are new. -/
theorem Site.identities_accept {s : Site σ} {me : Identity} {known : List Identity}
    (h : s.node.roster.Sorted me) (hknown : s.node.roster.identities = firsts known)
    (x : Node.Input) : (s.accept x).node.roster.Sorted me ∧
      (s.accept x).node.roster.identities = firsts (known ++ x.introduced) := by
  cases x with
  | peers l =>
    refine ⟨h.leads (s.node.leads_addPeers l), ?_⟩
    change (s.node.addPeers l).roster.identities = _
    rw [Node.roster_addPeers]
    exact Roster.identities_run_register h hknown l
  | event e =>
    cases e with
    | connected peer =>
      change (s.node.connected peer).roster.Sorted me ∧
        (s.node.connected peer).roster.identities = _
      rw [Node.roster_connected]
      have hregister := (h.perform (.register peer)).1
      have hlisted := Roster.identities_run_register h hknown [peer]
      exact ⟨(hregister.perform _).1, (hregister.identities_markConnected _ _).trans hlisted⟩
    | disconnected id =>
      change (s.node.disconnected id).roster.Sorted me ∧
        (s.node.disconnected id).roster.identities = _
      rw [Node.roster_disconnected, Node.Input.introduced, List.append_nil]
      exact ⟨(h.perform _).1, (h.identities_markConnected _ _).trans hknown⟩
    | message m =>
      change (s.receive m).node.roster.Sorted me ∧ (s.receive m).node.roster.identities = _
      rw [roster_receive, Node.Input.introduced, List.append_nil]
      exact ⟨h, hknown⟩

variable [Transport σ]

/-- What a node does of its own accord: its activities take their steps, it reports its load, and
whatever else leaves its roster alone. -/
inductive Site.Acts (s : Site σ) : Site σ → Prop
  | query (q : Query) : Acts s (q.step s).2
  | creation (c : Creation) : Acts s (c.step s).2
  | dispatch (d : Dispatch) : Acts s (d.step s).2
  | publish (cpu : Binary64) : Acts s (s.publish cpu).2
  | other {s' : Site σ} (h : s'.node.roster = s.node.roster) : Acts s s'

theorem Site.Acts.reports {s s' : Site σ} (h : s.Acts s') :
    s.node.roster.Leads Roster.Op.Reporting s'.node.roster := by
  cases h with
  | query q =>
    rw [(Query.move_step s q).roster]
    exact .refl _
  | creation c => exact (Creation.move_step s c).restates.reports
  | dispatch d => exact (Dispatch.move_step s d).learns.reports
  | publish cpu => exact (s.restates_publish cpu).reports
  | other h =>
    rw [h]
    exact .refl _

/-- A node has come from one state to another, with some inputs on the way. -/
inductive Site.Follows (start : Site σ) : List Node.Input → Site σ → Prop
  | start : Follows start [] start
  | accepts {log : List Node.Input} {s : Site σ} (h : Follows start log s) (x : Node.Input) :
      Follows start (log ++ [x]) (s.accept x)
  | acts {log : List Node.Input} {s s' : Site σ} (h : Follows start log s) (hacts : s.Acts s') :
      Follows start log s'

/-- What a node has of its peers after some inputs. -/
structure Site.Acquainted (me : Identity) (log : List Node.Input) (s : Site σ) : Prop where
  /-- The node itself and all that it has learned of, each once and as it was described first. -/
  listed : s.node.roster.members.map (·.identity) = firsts (me :: log.flatMap (·.introduced))
  once : (s.node.roster.members.map Member.id).Nodup
  /-- A peer is available if it was there when its connection was last heard of. -/
  available : ∀ m ∈ s.node.roster.members, m.available = true ↔
    m.id = me.id ∨ (log.filterMap (·.signal? m.id)).getLast? = some true
  /-- That an unknown peer is gone does not concern the roster. -/
  unlisted : ∀ p, (∀ m ∈ s.node.roster.members, m.id ≠ p) →
    (s.accept (.event (.disconnected p))).node.roster = s.node.roster
  /-- When a peer goes away the queries that wait for it end. -/
  ended : ∀ p id, (s.accept (.event (.disconnected p))).node.messenger.pending.get? id =
    if s.node.messenger.pending.get? id = some p then none else s.node.messenger.pending.get? id
  /-- No other query is given an outcome then. -/
  spared : ∀ p id, s.node.messenger.pending.get? id ≠ some p →
    (s.accept (.event (.disconnected p))).node.messenger.replies.get? id =
      s.node.messenger.replies.get? id

/-- After some inputs a roster is in order, lists those that they describe, and shows as available
those whose connection is there. -/
theorem Site.Follows.roster {start s : Site σ} {log : List Node.Input} {me : Identity}
    (h : start.Follows log s) (hstart : start.node.roster = .new me) :
    s.node.roster.Sorted me ∧
      s.node.roster.identities = firsts (me :: log.flatMap (·.introduced)) ∧
        ∀ p, p ≠ me.id →
          s.node.roster.holds p = (log.filterMap (·.signal? p)).getLast?.getD false := by
  induction h with
  | start =>
    rw [hstart]
    refine ⟨.new me, (Roster.Sorted.new me).identities_eq, fun p hp => ?_⟩
    have hnone : (Roster.new me).find? p = none := if_neg hp
    rw [Roster.holds, hnone]
    rfl
  | @accepts log s h x ih =>
    obtain ⟨hsorted, hlisted, hholds⟩ := ih
    obtain ⟨hsorted', hlisted'⟩ := identities_accept hsorted hlisted x
    refine ⟨hsorted', ?_, fun p hp => ?_⟩
    · rw [hlisted', List.cons_append, List.flatMap_append, List.flatMap_singleton]
    · have hself : s.node.id = me.id := hsorted.selfId
      rw [holds_accept (hself ▸ hp), hholds p hp, List.filterMap_append]
      cases hsignal : x.signal? p <;> simp [List.filterMap, hsignal]
  | acts h hacts ih =>
    obtain ⟨hsorted, hlisted, hholds⟩ := ih
    obtain ⟨hsorted', hlisted', hholds'⟩ := hsorted.reports hacts.reports
    exact ⟨hsorted', hlisted'.trans hlisted, fun p hp => (hholds' p).trans (hholds p hp)⟩

/-- A node that knew nobody is acquainted with its peers by its inputs alone. -/
theorem Site.Follows.acquainted {start s : Site σ} {log : List Node.Input} {me : Identity}
    (h : start.Follows log s) (hstart : start.node.roster = .new me) : s.Acquainted me log := by
  obtain ⟨hsorted, hlisted, hholds⟩ := h.roster hstart
  have hshows := hsorted.shows
  refine ⟨hlisted, hshows.members ▸ hshows.distinct, fun m hm => ?_, fun p hp => ?_,
    fun p id => ?_, fun p id hid => ?_⟩
  · by_cases hself : m.id = me.id
    · refine iff_of_true ?_ (.inl hself)
      have hfind : s.node.roster.find? m.id = some s.node.roster.self :=
        if_pos (hself.trans hsorted.selfId.symm)
      rw [← hsorted.holds_of_mem hm, Roster.holds, hfind]
      exact hsorted.available
    · rw [← hsorted.holds_of_mem hm, hholds m.id hself, or_iff_right hself]
      cases (log.filterMap (·.signal? m.id)).getLast? <;> simp
  · have hout : p ∉ s.node.roster.roll.ids := fun hin => by
      obtain ⟨m, hm, heq⟩ := List.mem_map.1 hin
      exact hp m (hshows.members ▸ hm) heq
    exact (s.node.roster_disconnected p).trans (hsorted.perform_unlisted hout)
  · exact ((s.node.messenger.failPending_spec p).2 id).1
  · exact (((s.node.messenger.failPending_spec p).2 id).2).trans (if_neg hid)

namespace Site

theorem Follows.trans {start s s' : Site σ} {log log' : List Node.Input}
    (h : start.Follows log s) (h' : s.Follows log' s') : start.Follows (log ++ log') s' := by
  induction h' with
  | start => simpa using h
  | accepts _ x ih =>
    rw [← List.append_assoc]
    exact ih.accepts x
  | acts _ hacts ih => exact ih.acts hacts

theorem Follows.foldl {start s : Site σ} {log : List Node.Input} (h : start.Follows log s)
    (inputs : List Node.Input) : start.Follows (log ++ inputs) (inputs.foldl accept s) := by
  induction inputs generalizing log s with
  | nil =>
    rw [List.append_nil]
    exact h
  | cons x rest ih =>
    rw [List.append_cons]
    exact ih (h.accepts x)

/-- The node "a", which knows nobody, with a query to "b" and one to "c". -/
def newcomer : Site Network where
  node := { Node.new ⟨"a", "a:1"⟩ 64 defaultQueryMillis with
    messenger := ((Messenger.new defaultQueryMillis).openQuery (.fresh 0) "b").openQuery (.fresh 1)
      "c" }
  links := .empty
  drawn := 2
  calls := []
  clock := 0
  noticed := 0
  now := .epoch

/-- It is told of "b" and "d" and of itself; then peers come and go, "b" under another address, and
also itself and the unknown "e" are reported. -/
def meetings : List Node.Input :=
  [.peers [⟨"b", "b:1"⟩, ⟨"a", "a:2"⟩, ⟨"d", "d:1"⟩], .event (.connected ⟨"c", "c:1"⟩),
    .event (.disconnected "d"), .event (.connected ⟨"b", "b:2"⟩), .event (.connected ⟨"d", "d:1"⟩),
    .event (.disconnected "c"), .event (.disconnected "a"), .event (.disconnected "e")]

theorem newcomer_acquainted :
    let met := ((meetings.foldl accept newcomer).publish Load.unknownCpu).2
    newcomer.Follows meetings met ∧ newcomer.node.roster = .new ⟨"a", "a:1"⟩ ∧
      met.node.roster.members.map (fun m => (m.identity, m.available)) =
        [(⟨"a", "a:1"⟩, true), (⟨"b", "b:1"⟩, true), (⟨"d", "d:1"⟩, true),
          (⟨"c", "c:1"⟩, false)] ∧
      met.Acquainted ⟨"a", "a:1"⟩ meetings := by
  have hfollows : newcomer.Follows meetings
      ((meetings.foldl accept newcomer).publish Load.unknownCpu).2 :=
    (Follows.start.foldl meetings).acts (.publish Load.unknownCpu)
  refine ⟨hfollows, rfl, ?_, hfollows.acquainted rfl⟩
  rw [(hfollows.roster rfl).1.shows.members]
  decide +kernel

end Site

end Fleet

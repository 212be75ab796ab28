import Fleet.Proofs.Cluster.Sound
import Fleet.Proofs.Node.Hearing
import Fleet.Proofs.Transport.Joining

/-!
# Nodes have the newest loads they have heard of

Nodes report their loads to each other, and a listener stores what comes in.  Messages may come in
any order, and much else happens in between; yet what a node has stored for a peer is always the
newest of the loads that have come to it from that peer.

A journal is a cluster with a log of these loads.  It goes on when a task takes its step, or when
anything else happens: callers give jobs, time goes by, messages are lost or come in again, nodes
join.  All that is asked of this is that loads of peers are stored by the listener alone and that no
peer is taken out.

## Main definitions

* `Cluster.news` — the load of a peer that a task is about to store.
* `Cluster.Interlude` — what may happen between the steps of tasks.
* `Journal` — a cluster and the loads that have come to its nodes.

## Main statements

* `Cluster.Move.hears` — what the step of a task does to every roster.
* `Journal.newest_kept` — the newest loads are kept, on every roster and in every journal.
-/

namespace Fleet

variable {σ : Type}

/-- The load that a job is about to store, and its sender. -/
def Work.storing? : Work → Option (String × Load)
  | .dispatch d => d.storing?
  | _ => none

theorem Work.Move.learns [Transport σ] {s s' : Site σ} {work work' : Work}
    (h : Work.Move s work work' s') : s.node.roster.Learns s'.node.roster work.storing? := by
  cases h with
  | query hmove =>
    rw [hmove.roster]
    exact .refl _
  | creation hmove => exact hmove.restates
  | dispatch hmove => exact hmove.learns

namespace Cluster

/-- The load that a task is about to store at a place, and its sender. -/
def storing? (w : Cluster σ) (place : Nat) : Task → Option (String × Load)
  | .job n => (w.jobs.get? n).bind fun j => if j.station = place then j.work.storing? else none
  | .drain at_ queue => if at_ = place then
      (w.stations[place]?).bind fun s => (s.node.current? queue).bind Dispatch.storing? else none
  | .follow _ | .publish .. => none

/-- The load of a peer that a task is about to store at a place. -/
def news (w : Cluster σ) (t : Task) (place : Nat) (id : String) : List Load :=
  match w.stations[place]? with
  | none => []
  | some s => s.node.roster.news id (w.storing? place t)

/-- The load that the node at a place has of a peer. -/
def load? (w : Cluster σ) (place : Nat) (id : String) : Option Load :=
  (w.stations[place]?).bind fun s => if id = s.node.id then none else s.node.roster.load? id

/-- The rosters of a cluster change by what is heard at each place. -/
def Hears (w w' : Cluster σ) (heard : Nat → Option (String × Load)) : Prop :=
  ∀ place, Option.Rel (fun s s' : Station => s.node.roster.Hears s'.node.roster (heard place))
    w.stations[place]? w'.stations[place]?

variable {w w' : Cluster σ}

theorem hears_of_set {place : Nat} {station station' : Station}
    {heard : Nat → Option (String × Load)} (hplace : w.stations[place]? = some station)
    (hstations : w'.stations = w.stations.set place station')
    (hhears : station.node.roster.Hears station'.node.roster (heard place))
    (hothers : ∀ i, i ≠ place → heard i = none) : w.Hears w' heard := by
  intro i
  by_cases hi : i = place
  · subst hi
    have hlt : i < w.stations.length := (List.getElem?_eq_some_iff.1 hplace).1
    rw [hstations, List.getElem?_set_self hlt, hplace]
    exact .some hhears
  · rw [hstations, List.getElem?_set_ne (Ne.symm hi), hothers i hi]
    cases w.stations[i]? with
    | none => exact .none
    | some s => exact .some (.refl _)

theorem drifts_of_set {place : Nat} {station station' : Station}
    (hplace : w.stations[place]? = some station)
    (hstations : w'.stations = w.stations.set place station')
    (hdrifts : station.node.roster.Drifts station'.node.roster) : w.Hears w' fun _ => none :=
  hears_of_set hplace hstations hdrifts fun _ _ => rfl

theorem storing?_drain {place queue : Nat} {s : Station} (hplace : w.stations[place]? = some s)
    (i : Nat) : w.storing? i (.drain place queue) =
      if place = i then (s.node.current? queue).bind Dispatch.storing? else none := by
  rw [storing?]
  split
  · next heq => rw [← heq, hplace, Option.bind_some]
  · rfl

/-- What may happen between the steps of tasks: anything that leaves the nodes where they are and
their rosters without a report of a peer's load, and nodes that come in without one. -/
structure Interlude (w w' : Cluster σ) : Prop where
  stays : ∀ (place : Nat) (s : Station), w.stations[place]? = some s →
    ∃ s', w'.stations[place]? = some s' ∧ s.node.roster.Drifts s'.node.roster
  joins : ∀ (place : Nat) (s' : Station), w.stations[place]? = none →
    w'.stations[place]? = some s' → ∃ me, (Roster.new me).Drifts s'.node.roster

/-- Clocks, connections and jobs are free to change. -/
theorem Interlude.of_stations (h : w'.stations = w.stations) : w.Interlude w' where
  stays place s hplace := ⟨s, h ▸ hplace, .refl _⟩
  joins place s' hnone hplace := by
    rw [h, hnone] at hplace
    cases hplace

theorem Interlude.load? (h : w.Interlude w') (place : Nat) (id : String) :
    w'.load? place id = w.load? place id := by
  cases hplace : w.stations[place]? with
  | some s =>
    obtain ⟨s', hplace', hdrifts⟩ := h.stays place s hplace
    have hself : s'.node.id = s.node.id := hdrifts.selfId
    rw [Cluster.load?, Cluster.load?, hplace, hplace', Option.bind_some, Option.bind_some, hself]
    split
    · rfl
    · next hid => exact hdrifts.load? hid
  | none =>
    rw [Cluster.load?, Cluster.load?, hplace]
    cases hplace' : w'.stations[place]? with
    | none => rfl
    | some s' =>
      obtain ⟨me, hdrifts⟩ := h.joins place s' hplace hplace'
      have hself : s'.node.id = me.id := hdrifts.selfId
      rw [Option.bind_some, hself]
      split
      · rfl
      · next hid =>
        rw [hdrifts.load? hid, Roster.load?_new]
        rfl

variable [Transport σ]

/-- A task that is about to store a load may go on. -/
theorem canStep_of_storing? {t : Task} {place : Nat} {s : Station} {p : String × Load}
    (hplace : w.stations[place]? = some s) (h : w.storing? place t = some p) :
    w.canStep t = true := by
  cases t with
  | job n =>
    obtain ⟨j, hjob, hstoring⟩ := Option.bind_eq_some_iff.1 h
    split at hstoring
    · next heq =>
      subst heq
      obtain ⟨station, work⟩ := j
      cases work with
      | dispatch d =>
        simp only [canStep, hjob, hplace]
        exact d.canStep_of_storing? hstoring _ _
      | query | creation => cases hstoring
    · cases hstoring
  | drain at_ queue =>
    rw [storing?] at h
    split at h
    · next heq =>
      subst heq
      rw [hplace] at h
      obtain ⟨d, hcurrent, hstoring⟩ :
          ∃ d, s.node.current? queue = some d ∧ d.storing? = some p := Option.bind_eq_some_iff.1 h
      obtain ⟨q, hqueue, hd⟩ := Option.bind_eq_some_iff.1 hcurrent
      have hstep := Dispatch.canStep_of_storing? hstoring s.node w.noticed
      simp only [canStep, hplace, Node.canDrain, hqueue, hd]
      cases d with
      | firing => exact hstep
      | opening | placing | answering | done => cases hstoring
    · cases h
  | follow | publish => cases h

theorem Move.hears {t : Task} (h : Move w t w') :
    w.Hears w' fun place => w.storing? place t := by
  cases h with
  | @job n j station work s hjob hplace hmove =>
    have hroster : (retire j.work work s).node.roster = s.node.roster := by
      obtain ⟨creations, heq⟩ := retire_eq s j.work work
      rw [heq]
    have hhears : station.node.roster.Hears s.node.roster j.work.storing? := hmove.learns.hears
    refine hears_of_set hplace rfl ?_ fun i hi => ?_
    · simpa [storing?, hjob, hroster] using hhears
    · simp [storing?, hjob, Ne.symm hi]
  | @works place queue station q d d' s hplace hqueue hcurrent hmove =>
    have hhears : station.node.roster.Hears (s.setCurrent queue (some d')).node.roster
      d.storing? := hmove.learns.hears
    refine hears_of_set hplace rfl ?_ fun i hi => ?_
    · simpa [storing?_drain hplace, Node.current?, hqueue, hcurrent] using hhears
    · simp [storing?_drain hplace, Ne.symm hi]
  | @closes place queue station q hplace hqueue hcurrent =>
    have hnone : (fun i => w.storing? i (.drain place queue)) = fun _ => none := by
      funext i
      simp [storing?_drain hplace, Node.current?, hqueue, hcurrent, Dispatch.storing?]
    rw [hnone]
    exact drifts_of_set hplace rfl (.refl _)
  | @takes place queue station sender d rest hplace hqueue =>
    have hnone : (fun i => w.storing? i (.drain place queue)) = fun _ => none := by
      funext i
      simp [storing?_drain hplace, Node.current?, hqueue]
    rw [hnone]
    exact drifts_of_set hplace rfl (.refl _)
  | @follows place station f e links hplace =>
    exact drifts_of_set hplace rfl ((({ w with links } : Cluster σ).site station).drifts_handle e)
  | looks hplace => exact drifts_of_set hplace rfl (.refl _)
  | @reports place k station publishers hplace =>
    exact drifts_of_set hplace rfl ((w.site station).restates_publish w.cpu).drifts
  | waits publishers hplace => exact drifts_of_set hplace rfl (.refl _)
  | rests hstep =>
    intro place
    cases hplace : w.stations[place]? with
    | none => exact .none
    | some s =>
      cases hstoring : w.storing? place t with
      | none =>
        refine .some ?_
        dsimp only
        rw [hstoring]
        exact .refl _
      | some p =>
        rw [canStep_of_storing? hplace hstoring] at hstep
        cases hstep

/-- A caller that has a node report its load is no news to that node. -/
theorem Interlude.of_publish {place n : Nat} {cpu : Binary64}
    (hact : w.act place (·.publish cpu) = some (n, w')) : w.Interlude w' := by
  obtain ⟨station, hplace, heq⟩ := Option.map_eq_some_iff.1 hact
  cases heq
  have hlt : place < w.stations.length := (List.getElem?_eq_some_iff.1 hplace).1
  refine ⟨fun i s hs => ?_, fun i s' hnone hs' => ?_⟩
  · by_cases hi : i = place
    · subst hi
      cases hplace.symm.trans hs
      exact ⟨_, List.getElem?_set_self hlt, ((w.site station).restates_publish cpu).drifts⟩
    · exact ⟨s, (List.getElem?_set_ne (Ne.symm hi)).trans hs, .refl _⟩
  · have hlen : i < w.stations.length := by
      simpa [put] using (List.getElem?_eq_some_iff.1 hs').1
    rw [List.getElem?_eq_getElem hlen] at hnone
    cases hnone

/-- The step of a task adds its news to the loads of peers. -/
theorem load?_step (w : Cluster σ) (t : Task) (place : Nat) (id : String) :
    (w.step t).load? place id = (w.news t place id).foldl newer (w.load? place id) := by
  have hhears := (w.move_step t).hears place
  rw [load?, news, load?]
  generalize w.stations[place]? = before at hhears ⊢
  generalize (w.step t).stations[place]? = after at hhears ⊢
  cases hhears with
  | none => rfl
  | @some s s' hhears =>
    have hself : s'.node.id = s.node.id := hhears.selfId
    simp only [Option.bind_some, hself]
    split
    · next hid =>
      have hnone : s.node.roster.news s.node.id (w.storing? place t) = [] :=
        s.node.roster.news_self _
      rw [hid, hnone]
      rfl
    · next hid => exact hhears.load? hid

end Cluster

/-- A cluster and the loads that have come to its nodes: to the node at a place from a peer, in the
order in which the listener took them. -/
structure Journal (σ : Type) where
  cluster : Cluster σ
  heard : Nat → String → List Load

namespace Journal

/-- The journals of clusters that start without nodes. -/
inductive Reachable [Transport σ] : Journal σ → Prop
  | empty (w : Cluster σ) (hstations : w.stations = []) : Reachable ⟨w, fun _ _ => []⟩
  /-- A task takes its step. -/
  | task {j : Journal σ} (hr : Reachable j) (t : Task) : Reachable ⟨j.cluster.step t,
      fun place id => j.heard place id ++ j.cluster.news t place id⟩
  /-- Anything else happens. -/
  | interlude {j : Journal σ} (hr : Reachable j) {w : Cluster σ}
      (hbetween : j.cluster.Interlude w) : Reachable ⟨w, j.heard⟩

variable [Transport σ] {j : Journal σ}

/-- A journal in which tasks take their steps one after another. -/
def run (j : Journal σ) (tasks : List Task) : Journal σ :=
  tasks.foldl (fun j t => ⟨j.cluster.step t,
    fun place id => j.heard place id ++ j.cluster.news t place id⟩) j

theorem Reachable.run (hr : j.Reachable) (tasks : List Task) : (j.run tasks).Reachable := by
  induction tasks generalizing j with
  | nil => exact hr
  | cons t rest ih => exact ih (.task hr t)

theorem Reachable.load? (hr : j.Reachable) (place : Nat) (id : String) :
    j.cluster.load? place id = (j.heard place id).foldl newer none := by
  induction hr with
  | empty w hstations => simp [Cluster.load?, hstations]
  | task hr t ih => rw [Cluster.load?_step, ih, List.foldl_append]
  | interlude hr hbetween ih => exact (hbetween.load? place id).trans ih

/-- The newest loads are kept. In every run of a roster the load of every member is the newest of
those given for it since it was registered; and in every journal of a cluster the load that a node
has of a peer is the newest of those that have come to it from that peer. -/
theorem newest_kept (σ : Type) [Transport σ] :
    (∀ me ops id, Roster.KeepsNewest me ops id) ∧
      ∀ j : Journal σ, j.Reachable → ∀ place station id m,
        j.cluster.stations[place]? = some station → id ≠ station.node.id →
          station.node.roster.find? id = some m → Newest (j.heard place id) m.load := by
  refine ⟨Roster.keepsNewest, fun j hr place station id m hplace hid hm => ?_⟩
  have hload : j.cluster.load? place id = m.load := by
    rw [Cluster.load?, hplace, Option.bind_some, if_neg hid, Roster.load?, hm, Option.bind_some]
  rw [← hload, hr.load?]
  exact newest_foldl _

/-- A journal in which a caller has a node report its load at a time of day. -/
def report (j : Journal σ) (place : Nat) (now : Instant) : Journal σ :=
  match ({ j.cluster with now }).act place (·.publish j.cluster.cpu) with
  | some (_, w) => ⟨w, j.heard⟩
  | none => j

theorem Reachable.report (hr : j.Reachable) (place : Nat) (now : Instant) :
    (j.report place now).Reachable := by
  rw [Journal.report]
  split
  · next hact =>
    have hlater : Reachable ⟨{ j.cluster with now }, j.heard⟩ := .interlude hr (.of_stations rfl)
    exact .interlude hlater (.of_publish hact)
  · exact hr

/-- Two nodes, "a" and "b". -/
def pair : Cluster Network :=
  Cluster.gathering (["b", "a"].map fun id =>
    (id, 64, (Node.new ⟨id, ""⟩ 64 0).withListeners.messenger.listeners))

theorem reachable_pair : Reachable ⟨pair, fun _ _ => []⟩ := by
  refine .interlude (.empty (Cluster.gathering []) rfl)
    ⟨fun place s h => ?_, fun place s' _ h => ?_⟩
  · cases h
  · rcases place with - | - | place
    · cases h
      exact ⟨⟨"a", ""⟩, .refl _⟩
    · cases h
      exact ⟨⟨"b", ""⟩, .refl _⟩
    · cases h

/-- The second before the year 1970. -/
def eve : Instant := Instant.epoch.shift (-1)

/-- A report of "b", and the steps in which "a" stores it. -/
def told (j : Journal Network) (now : Instant) : Journal Network :=
  (j.report 1 now).run ([.follow 0] ++ .replicate 5 (.drain 0 0))

/-- The node "b" has reported its load twice, the second time with its clock set back. -/
def reported : Journal Network := told (told (run ⟨pair, fun _ _ => []⟩ [.follow 0]) .epoch) eve

theorem Reachable.told {j : Journal Network} (hr : j.Reachable) (now : Instant) :
    (j.told now).Reachable := (hr.report 1 now).run _

/-- Two reports of the load of "b". -/
def early : Roster.Op := .report "b" ⟨16, 64, Load.unknownCpu, eve⟩

def late : Roster.Op := .report "b" ⟨32, 64, Load.unknownCpu, .epoch⟩

theorem reported_kept :
    (∃ m m', ((Roster.new ⟨"a", ""⟩).run [.register ⟨"b", ""⟩, early, late]).find? "b" = some m ∧
      ((Roster.new ⟨"a", ""⟩).run [.register ⟨"b", ""⟩, late, early]).find? "b" = some m' ∧
        m.load = m'.load) ∧
      reported.Reachable ∧ (reported.heard 0 "b").map (·.at_) = [.epoch, eve] ∧
        ∃ station m, reported.cluster.stations[0]? = some station ∧ "b" ≠ station.node.id ∧
          station.node.roster.find? "b" = some m ∧ m.load.map (·.at_) = some .epoch ∧
            Newest (reported.heard 0 "b") m.load := by
  have hstays : ∀ ops, ops = [early, late] ∨ ops = [late, early] → Roster.Stays "a" "b" ops := by
    rintro ops (rfl | rfl) op hop rfl <;> simp [early, late] at hop
  have hdiffer : (Roster.reports "b" [early, late]).Pairwise (·.at_ ≠ ·.at_) := by decide +kernel
  have hswap := ((newest_kept Network).1 ⟨"a", ""⟩ [.register ⟨"b", ""⟩] "b").unordered
    (.new ⟨"b", ""⟩) [early, late] [late, early] (by decide +kernel) (hstays _ (.inl rfl))
    (hstays _ (.inr rfl)) (.swap ..) hdiffer
  have hr : reported.Reachable := ((reachable_pair.run _).told .epoch).told eve
  have hheard : (reported.heard 0 "b").map (·.at_) = [.epoch, eve] := by decide +kernel
  have hnode : (reported.cluster.stations[0]?.map (·.node.id)) = some "a" := by decide +kernel
  have hload : ((reported.cluster.stations[0]?.bind (·.node.roster.find? "b")).map
      (·.load.map (·.at_))) = some (some .epoch) := by decide +kernel
  obtain ⟨station, hplace, hid⟩ := Option.map_eq_some_iff.1 hnode
  rw [hplace, Option.bind_some] at hload
  obtain ⟨m, hm, hstored⟩ := Option.map_eq_some_iff.1 hload
  have hne : "b" ≠ station.node.id := by rw [hid]; decide
  exact ⟨hswap, hr, hheard, station, m, hplace, hne, hm, hstored,
    (newest_kept Network).2 _ hr 0 station "b" m hplace hne hm⟩

end Journal

end Fleet

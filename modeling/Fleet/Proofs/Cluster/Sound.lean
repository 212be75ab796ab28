import Fleet.Proofs.Cluster.Moves
import Fleet.Proofs.Node.Keeps
import Fleet.Proofs.Table

/-!
# Sound clusters

In a sound cluster every job has a node, every node is an available member of its own view and
enters services under its own id, and messages written for an id go to the mailbox of the node with
that id if they go to the mailbox of any node. Every history keeps its cluster sound.

What a step does is said twice here, for all later modules: `Cluster.Touches` and `Cluster.Called`
say what it leaves as it is, `History.Next.kinds` which kinds of steps there are.
-/

namespace Fleet

variable {σ : Type} [FaithfulTransport σ]

theorem Work.Move.keeps {s s' : Site σ} {work work' : Work} (h : Work.Move s work work' s') :
    s.Keeps s' := by
  cases h with
  | query hmove | creation hmove | dispatch hmove => exact hmove.keeps

/-- No mailbox of a node is written to for another id. -/
def Kept (boxes : Nat → String → Prop) (links : σ) : Prop :=
  ∀ k b, boxes k b → ∀ id, FaithfulTransport.box? links id = some k → id = b

/-- What holds of a node, given how many identifiers have been drawn. -/
structure Node.Sound (P : Listeners Handler → Prop) (drawn : Nat) (n : Node) : Prop where
  self : n.roster.self.available = true
  host : n.ledger.node = n.id
  listeners : P n.messenger.listeners
  services : ∀ id x, n.ledger.services.get? id = some x → ∃ k < drawn, id = .fresh k
  tidy : n.inbound.Tidy

/-- A mailbox is that of a node. -/
def Cluster.boxes (w : Cluster σ) (k : Nat) (id : String) : Prop :=
  ∃ s ∈ w.stations, s.follower.map (·.mailbox) = some k ∧ s.node.id = id

/-- A job has been given to a node, and is no work on a message. -/
structure Job.Sound (w : Cluster σ) (n : Nat) (j : Job) : Prop where
  number : n < w.nextJob
  station : j.station < w.stations.length
  work : ∀ d, j.work ≠ .dispatch d

/-- What holds of every cluster. -/
structure Cluster.Sound (P : Listeners Handler → Prop) (w : Cluster σ) : Prop where
  jobs : ∀ n j, w.jobs.get? n = some j → j.Sound w n
  kept : Kept w.boxes w.links
  stations : ∀ s ∈ w.stations, s.node.Sound P w.drawn
  now : w.now.Regular

theorem Node.Sound.mono {P : Listeners Handler → Prop} {drawn drawn' : Nat} {n : Node}
    (h : n.Sound P drawn) (hle : drawn ≤ drawn') : n.Sound P drawn' := by
  refine ⟨h.self, h.host, h.listeners, fun id x hx => ?_, h.tidy⟩
  obtain ⟨k, hk, heq⟩ := h.services id x hx
  exact ⟨k, by omega, heq⟩

/-- A node that does something stays sound. -/
theorem Node.Sound.keeps {P : Listeners Handler → Prop} {s s' : Site σ}
    (h : s.node.Sound P s.drawn) (hkeeps : s.Keeps s') : s'.node.Sound P s'.drawn := by
  refine ⟨hkeeps.self.trans h.self, ?_, hkeeps.listeners ▸ h.listeners, fun id x hx => ?_,
    hkeeps.tidy h.tidy⟩
  · rw [hkeeps.host, hkeeps.id]
    exact h.host
  · rcases hkeeps.services with heq | ⟨y, hy, hlt, heq⟩
    · rw [heq] at hx
      exact (h.mono hkeeps.drawn).services id x hx
    · rw [heq, Table.get?_insert] at hx
      split at hx
      · next hid => exact ⟨s.drawn, hlt, hid.trans hy⟩
      · exact (h.mono hkeeps.drawn).services id x hx

namespace Cluster

/-- A step touches one node, and the connections. -/
structure Touches (w w' : Cluster σ) (place : Nat) (station station' : Station) (s' : Site σ) :
    Prop where
  found : w.stations[place]? = some station
  stations : w'.stations = w.stations.set place station'
  keeps : (w.site station).Keeps s'
  node : station'.node = s'.node
  mailbox : station'.follower.map (·.mailbox) = station.follower.map (·.mailbox)
  links : w'.links = s'.links
  drawn : w'.drawn = s'.drawn
  now : w'.now = w.now
  nextJob : w.nextJob ≤ w'.nextJob

/-- A caller lets one node do something, which leaves its queues and its queries alone. -/
structure Called (w w' : Cluster σ) (place : Nat) (station station' : Station) (s' : Site σ) :
    Prop extends Touches w w' place station station' s' where
  inbound : s'.node.inbound = station.node.inbound
  messenger : s'.node.messenger = station.node.messenger
  jobs : ∀ n < w.nextJob, w'.jobs.get? n = w.jobs.get? n

omit [FaithfulTransport σ] in
theorem retire_eq (s : Site σ) (work work' : Work) :
    ∃ creations, retire work work' s = { s with node := { s.node with creations } } := by
  simp only [retire]
  split
  · split
    · exact ⟨s.node.creations, rfl⟩
    · exact ⟨_, rfl⟩
  · exact ⟨s.node.creations, rfl⟩

theorem keeps_retire (s : Site σ) (work work' : Work) : s.Keeps (retire work work' s) := by
  obtain ⟨creations, heq⟩ := retire_eq s work work'
  rw [heq]
  exact ⟨rfl, rfl, rfl, rfl, rfl, le_refl _, .inl rfl, fun h => h⟩

theorem keeps_setCurrent (s : Site σ) (queue : Nat) (d : Option Dispatch) :
    s.Keeps (s.setCurrent queue d) :=
  ⟨rfl, rfl, rfl, rfl, rfl, le_refl _, .inl rfl, fun h => h.modify _ _⟩

theorem keeps_takeUp (s : Site σ) (queue : Nat) : s.Keeps (s.takeUp queue) :=
  ⟨rfl, rfl, rfl, rfl, rfl, le_refl _, .inl rfl, fun h => h.modify _ _⟩

variable {w w' : Cluster σ} {t : Task}

/-- A job that takes its step touches its node. -/
theorem touches_job {n : Nat} {j : Job} {station : Station} {work : Work} {s : Site σ}
    (hplace : w.stations[j.station]? = some station)
    (hmove : Work.Move (w.site station) j.work work s) :
    Touches w { w.put j.station station (retire j.work work s) with
        jobs := w.jobs.insert n { j with work } } j.station station
      { station with node := (retire j.work work s).node } (retire j.work work s) := by
  obtain ⟨creations, heq⟩ := retire_eq s j.work work
  have hsame : (retire j.work work s).node.ledger.services = s.node.ledger.services := by rw [heq]
  exact ⟨hplace, rfl, hmove.keeps.trans (keeps_retire s j.work work) hsame, rfl, rfl, rfl, rfl, rfl,
    le_refl _⟩

/-- The work in a queue that takes its step touches its node. -/
theorem touches_works {place queue : Nat} {station : Station} {d d' : Dispatch} {s : Site σ}
    (hplace : w.stations[place]? = some station) (hmove : Dispatch.Move (w.site station) d d' s) :
    Touches w (w.put place station (s.setCurrent queue (some d'))) place station
      { station with node := (s.setCurrent queue (some d')).node } (s.setCurrent queue (some d')) :=
  ⟨hplace, rfl, hmove.keeps.trans (keeps_setCurrent _ _ _) rfl, rfl, rfl, rfl, rfl, rfl, le_refl _⟩

/-- A queue that puts its message away touches its node. -/
theorem touches_closes {place : Nat} {station : Station} (queue : Nat)
    (hplace : w.stations[place]? = some station) :
    Touches w (w.put place station ((w.site station).setCurrent queue none)) place station
      { station with node := ((w.site station).setCurrent queue none).node }
      ((w.site station).setCurrent queue none) :=
  ⟨hplace, rfl, keeps_setCurrent _ _ _, rfl, rfl, rfl, rfl, rfl, le_refl _⟩

/-- A queue that takes up its next message touches its node. -/
theorem touches_takes {place : Nat} {station : Station} (queue : Nat)
    (hplace : w.stations[place]? = some station) :
    Touches w (w.put place station ((w.site station).takeUp queue)) place station
      { station with node := ((w.site station).takeUp queue).node }
      ((w.site station).takeUp queue) :=
  ⟨hplace, rfl, keeps_takeUp _ _, rfl, rfl, rfl, rfl, rfl, le_refl _⟩

/-- A follower that takes an event touches its node. -/
theorem touches_follows {place mailbox : Nat} {station : Station} {e : TransportEvent} {links : σ}
    (hplace : w.stations[place]? = some station)
    (htake : Transport.take? w.links mailbox = some (e, links)) :
    Touches w (({ w with links }).put place station ((({ w with links }).site station).handle e))
      place station { station with node := ((({ w with links }).site station).handle e).node }
      ((({ w with links }).site station).handle e) := by
  have hkeeps := (({ w with links } : Cluster σ).site station).keeps_handle e
  have hbox : FaithfulTransport.box? links = FaithfulTransport.box? w.links :=
    FaithfulTransport.box?_take htake
  exact ⟨hplace, rfl, ⟨hkeeps.id, hkeeps.self, hkeeps.host, hkeeps.listeners,
    hkeeps.boxes.trans hbox, hkeeps.drawn, hkeeps.services, hkeeps.tidy⟩, rfl, rfl, rfl, rfl, rfl,
    le_refl _⟩

/-- A follower that looks at a signal touches no more than its own memory and its mailbox. -/
theorem touches_looks {place : Nat} {station : Station} {f f' : Follower} {links : σ}
    (hplace : w.stations[place]? = some station) (hfollower : station.follower = some f)
    (hmailbox : f'.mailbox = f.mailbox)
    (hlinks : links = w.links ∨ links = Transport.hangUp w.links f.mailbox) :
    Touches w { w with
        links, stations := w.stations.set place { station with follower := some f' } } place
      station { station with follower := some f' } { w.site station with links } := by
  have hbox : FaithfulTransport.box? links = FaithfulTransport.box? w.links := by
    rcases hlinks with rfl | rfl
    · rfl
    · exact FaithfulTransport.box?_hangUp _ _
  refine ⟨hplace, rfl, ⟨rfl, rfl, rfl, rfl, hbox, le_refl _, .inl rfl, fun h => h⟩, rfl, ?_, rfl,
    rfl, rfl, le_refl _⟩
  rw [hfollower]
  exact congrArg some hmailbox

/-- A publisher that reports touches its node. -/
theorem touches_reports {place : Nat} {station : Station} (publishers : List Publisher)
    (hplace : w.stations[place]? = some station) :
    Touches w (w.put place { station with publishers } ((w.site station).publish w.cpu).2) place
      station { station with publishers, node := ((w.site station).publish w.cpu).2.node }
      ((w.site station).publish w.cpu).2 :=
  ⟨hplace, rfl, Site.keeps_publish _ _, rfl, rfl, rfl, rfl, rfl, le_refl _⟩

/-- A publisher that waits touches no more than its own memory. -/
theorem touches_waits {place : Nat} {station : Station} (publishers : List Publisher)
    (hplace : w.stations[place]? = some station) :
    Touches w { w with stations := w.stations.set place { station with publishers } } place station
      { station with publishers } (w.site station) :=
  ⟨hplace, rfl, .refl _, rfl, rfl, rfl, rfl, rfl, le_refl _⟩

/-- Every step of a task touches one node at most. -/
theorem Move.touches (h : Move w t w') :
    w' = w ∨ ∃ place station station' s', Touches w w' place station station' s' := by
  cases h with
  | job hjob hplace hmove => exact .inr ⟨_, _, _, _, touches_job hplace hmove⟩
  | works hplace hqueue hcurrent hmove => exact .inr ⟨_, _, _, _, touches_works hplace hmove⟩
  | closes hplace => exact .inr ⟨_, _, _, _, touches_closes _ hplace⟩
  | takes hplace => exact .inr ⟨_, _, _, _, touches_takes _ hplace⟩
  | follows hplace hfollower htake => exact .inr ⟨_, _, _, _, touches_follows hplace htake⟩
  | looks hplace hfollower hmailbox hlinks =>
    exact .inr ⟨_, _, _, _, touches_looks hplace hfollower hmailbox hlinks⟩
  | reports publishers hplace => exact .inr ⟨_, _, _, _, touches_reports publishers hplace⟩
  | waits publishers hplace => exact .inr ⟨_, _, _, _, touches_waits publishers hplace⟩
  | rests => exact .inl rfl

/-- A node that is touched stays where it is, with its id and its mailbox. -/
theorem Touches.boxes {place : Nat} {station station' : Station} {s' : Site σ}
    (h : Touches w w' place station station' s') {k : Nat} {b : String} (hbox : w'.boxes k b) :
    w.boxes k b := by
  obtain ⟨s, hs, hmailbox, hid⟩ := hbox
  rw [h.stations] at hs
  rcases List.mem_or_eq_of_mem_set hs with hold | rfl
  · exact ⟨s, hold, hmailbox, hid⟩
  · refine ⟨station, List.mem_of_getElem? h.found, h.mailbox ▸ hmailbox, ?_⟩
    rw [← hid, h.node]
    exact h.keeps.id.symm

theorem Touches.sound {P : Listeners Handler → Prop} {place : Nat} {station station' : Station}
    {s' : Site σ} (h : Touches w w' place station station' s') (hw : w.Sound P)
    (hjobs : ∀ n j, w'.jobs.get? n = some j →
      n < w'.nextJob ∧ j.station < w.stations.length ∧ ∀ d, j.work ≠ .dispatch d) : w'.Sound P := by
  refine ⟨fun n j hj => ?_, fun k b hbox id hid => ?_, fun s hs => ?_, h.now ▸ hw.now⟩
  · obtain ⟨hnumber, hstation, hwork⟩ := hjobs n j hj
    refine ⟨hnumber, ?_, hwork⟩
    rw [h.stations, List.length_set]
    exact hstation
  · rw [h.links, h.keeps.boxes] at hid
    exact hw.kept k b (h.boxes hbox) id hid
  · rw [h.stations] at hs
    rw [h.drawn]
    rcases List.mem_or_eq_of_mem_set hs with hold | rfl
    · exact (hw.stations s hold).mono h.keeps.drawn
    · rw [h.node]
      exact (hw.stations station (List.mem_of_getElem? h.found)).keeps h.keeps

/-- A step leaves every job with its node. -/
theorem Move.jobs {P : Listeners Handler → Prop} (h : Move w t w') (hw : w.Sound P) (n : Nat)
    (j : Job) (hj : w'.jobs.get? n = some j) :
    n < w'.nextJob ∧ j.station < w.stations.length ∧ ∀ d, j.work ≠ .dispatch d := by
  have hkeep : ∀ j, w.jobs.get? n = some j →
      n < w.nextJob ∧ j.station < w.stations.length ∧ ∀ d, j.work ≠ .dispatch d := fun j hj =>
    ⟨(hw.jobs n j hj).number, (hw.jobs n j hj).station, (hw.jobs n j hj).work⟩
  cases h with
  | @job m i station work s hjob hplace hmove =>
    dsimp only at hj
    rw [Table.get?_insert] at hj
    split at hj
    · next hnm =>
      cases hj
      obtain ⟨hnumber, hstation, hwork⟩ := hw.jobs m i hjob
      refine ⟨hnm ▸ hnumber, hstation, fun d heq => ?_⟩
      dsimp only at heq
      subst heq
      cases hi : i.work with
      | dispatch d' => exact hwork d' hi
      | query | creation =>
        rw [hi] at hmove
        cases hmove
    · exact hkeep j hj
  | works | closes | takes | follows | reports | looks | waits | rests => exact hkeep j hj

theorem Move.sound {P : Listeners Handler → Prop} (h : Move w t w') (hw : w.Sound P) :
    w'.Sound P := by
  rcases h.touches with rfl | ⟨place, station, station', s', htouches⟩
  · exact hw
  · exact htouches.sound hw (h.jobs hw)

/-- Whoever lets a node do something touches it and the connections. -/
theorem touches_act {α : Type} {place : Nat} {station : Station} {f : Site σ → α × Site σ} {a : α}
    (hplace : w.stations[place]? = some station) (hact : w.act place f = some (a, w'))
    (hkeeps : (w.site station).Keeps (f (w.site station)).2) :
    a = (f (w.site station)).1 ∧ w' = w.put place station (f (w.site station)).2 ∧
      Touches w w' place station { station with node := (f (w.site station)).2.node }
        (f (w.site station)).2 := by
  rw [act, hplace] at hact
  simp only [Option.map_some, Option.some.injEq, Prod.mk.injEq] at hact
  obtain ⟨rfl, rfl⟩ := hact
  exact ⟨rfl, rfl, hplace, rfl, hkeeps, rfl, rfl, rfl, rfl, rfl, le_refl _⟩

private theorem modify_eq_set {α : Type} {l : List α} {p : Nat} {a : α} (f : α → α)
    (h : l[p]? = some a) : l.modify p f = l.set p (f a) := by
  refine List.ext_getElem? fun i => ?_
  rw [List.getElem?_modify, List.getElem?_set]
  by_cases hi : p = i
  · subst hi
    obtain ⟨hlt, hget⟩ := List.getElem?_eq_some_iff.1 h
    simp [hlt, hget]
  · simp [hi]

/-- A node that is given a job keeps all but the number of its creations. -/
theorem touches_spawn {place : Nat} {station : Station} (work : Work)
    (hplace : w.stations[place]? = some station) :
    ∃ creations, Touches w (w.spawn place work).2 place station
      { station with node := { station.node with creations } }
      { w.site station with node := { station.node with creations } } := by
  have hkeeps : ∀ creations,
      (w.site station).Keeps { w.site station with node := { station.node with creations } } :=
    fun creations => ⟨rfl, rfl, rfl, rfl, rfl, le_refl _, .inl rfl, fun h => h⟩
  have hself : w.stations = w.stations.set place station := by
    rw [← modify_eq_set (fun s => s) hplace]
    exact (List.modify_id place w.stations).symm
  cases work with
  | creation c =>
    exact ⟨_, hplace, modify_eq_set _ hplace, hkeeps (station.node.creations + 1), rfl, rfl, rfl,
      rfl, rfl, Nat.le_succ _⟩
  | query | dispatch =>
    exact ⟨_, hplace, hself, hkeeps station.node.creations, rfl, rfl, rfl, rfl, rfl, Nat.le_succ _⟩

theorem called_spawn {place : Nat} {station : Station} (work : Work)
    (hplace : w.stations[place]? = some station) :
    ∃ station' s', Called w (w.spawn place work).2 place station station' s' := by
  obtain ⟨creations, htouches⟩ := touches_spawn work hplace
  refine ⟨_, _, htouches, rfl, rfl, fun n hn => ?_⟩
  exact (Table.get?_insert ..).trans (if_neg (Nat.ne_of_lt hn))

theorem jobs_spawn {P : Listeners Handler → Prop} {place : Nat} {station : Station} {work : Work}
    (hw : w.Sound P) (hplace : w.stations[place]? = some station) (hwork : ∀ d, work ≠ .dispatch d)
    (n : Nat) (j : Job) (hj : (w.spawn place work).2.jobs.get? n = some j) :
    n < (w.spawn place work).2.nextJob ∧ j.station < w.stations.length ∧
      ∀ d, j.work ≠ .dispatch d := by
  change (w.jobs.insert w.nextJob ⟨place, work⟩).get? n = some j at hj
  change n < w.nextJob + 1 ∧ _
  rw [Table.get?_insert] at hj
  split at hj
  · next hn =>
    cases hj
    exact ⟨by omega, (List.getElem?_eq_some_iff.1 hplace).1, hwork⟩
  · obtain ⟨hnumber, hstation, hold⟩ := hw.jobs n j hj
    exact ⟨by omega, hstation, hold⟩

/-- What may change between the steps of a cluster leaves its mailboxes where they are. -/
theorem Drift.exists_station {P : Listeners Handler → Prop} (h : w.Drift P w') {s' : Station}
    (hs' : s' ∈ w'.stations) : ∃ s ∈ w.stations, s.Drift P s' := by
  obtain ⟨i, hi⟩ := List.getElem?_of_mem hs'
  have hlength := h.stations.length_eq
  obtain ⟨hlt, hget⟩ := List.getElem?_eq_some_iff.1 hi
  have hlt' : i < w.stations.length := by omega
  refine ⟨w.stations[i], List.getElem_mem hlt', ?_⟩
  rw [← hget]
  exact h.stations.get hlt' hlt

theorem Drift.boxes {P : Listeners Handler → Prop} (h : w.Drift P w') {k : Nat} {b : String}
    (hbox : w'.boxes k b) : w.boxes k b := by
  obtain ⟨s', hs', hmailbox, hid⟩ := hbox
  obtain ⟨s, hs, hdrift⟩ := h.exists_station hs'
  exact ⟨s, hs, hdrift.mailbox ▸ hmailbox, hdrift.id ▸ hid⟩

theorem Drift.sound {P : Listeners Handler → Prop} (h : w.Drift P w') (hw : w.Sound P) :
    w'.Sound P := by
  refine ⟨fun n j hj => ?_, fun k b hbox id hid => ?_, fun s' hs' => ?_, h.now⟩
  · rw [h.jobs] at hj
    obtain ⟨hnumber, hstation, hwork⟩ := hw.jobs n j hj
    exact ⟨h.nextJob ▸ hnumber, h.stations.length_eq ▸ hstation, hwork⟩
  · exact hw.kept k b (h.boxes hbox) id (h.links.boxes id k hid)
  · obtain ⟨s, hs, hdrift⟩ := h.exists_station hs'
    have hsound := hw.stations s hs
    refine ⟨hdrift.self, ?_, hdrift.listeners, fun id x hx => ?_, hdrift.inbound ▸ hsound.tidy⟩
    · rw [hdrift.host, hdrift.id]
      exact hsound.host
    · rw [h.drawn]
      rw [Table.get?_eq_some_iff] at hx
      exact hsound.services id x (Table.get?_eq_some_iff.2 (hdrift.services _ hx))

end Cluster

namespace History

variable {P : Listeners Handler → Prop} {h h' : History σ}

/-- A step of a history: a task takes its step, a caller lets a node do something, a job that has
ended is put away, the rest of the world moves, or a node joins. -/
theorem Next.kinds (hnext : Next P h h') :
    (∃ t, h' = h.run [t]) ∨
    (∃ place station station' s', h.cluster.Called h'.cluster place station station' s') ∨
    (∃ n, (∀ j, h.cluster.jobs.get? n = some j → j.work.ended = true) ∧
      h'.cluster = { h.cluster with jobs := h.cluster.jobs.erase n }) ∨
    h.cluster.Drift P h'.cluster ∨
    ∃ links s, s.Fresh P h.cluster links ∧
      h'.cluster = { h.cluster with links, stations := h.cluster.stations ++ [s] } := by
  cases hnext with
  | task t => exact .inl ⟨t, rfl⟩
  | create place station hplace spec =>
    exact .inr (.inl ⟨_, _, Cluster.called_spawn (.creation (.routing spec)) hplace⟩)
  | ask place station hplace m timeout =>
    exact .inr (.inl ⟨_, _, Cluster.called_spawn (.query (.opening m timeout)) hplace⟩)
  | tell place station hplace m hquery hplain delivered w hact =>
    obtain ⟨-, rfl, htouches⟩ := Cluster.touches_act hplace hact (Site.keeps_send _ m)
    have hnode := (h.cluster.site station).node_send m
    exact .inr (.inl ⟨_, _, _, _, htouches, congrArg (·.inbound) hnode,
      congrArg (·.messenger) hnode, fun _ _ => rfl⟩)
  | start place spec station r w hplace hact =>
    obtain ⟨-, rfl, htouches⟩ := Cluster.touches_act hplace hact (Site.keeps_start _ spec)
    exact .inr (.inl ⟨_, _, _, _, htouches, rfl, rfl, fun _ _ => rfl⟩)
  | collect n hended => exact .inr (.inr (.inl ⟨n, hended, rfl⟩))
  | drift w hdrift => exact .inr (.inr (.inr (.inl hdrift)))
  | join links s hfresh => exact .inr (.inr (.inr (.inr ⟨links, s, hfresh, rfl⟩)))

/-- As a history goes on, a mailbox is that of a node only if it was so before or is empty. -/
theorem Next.boxes (hnext : Next P h h') {k : Nat} {b : String} (hbox : h'.cluster.boxes k b) :
    h.cluster.boxes k b ∨ ∀ m, (k, m) ∉ FaithfulTransport.transit h'.cluster.links := by
  rcases hnext.kinds with ⟨t, rfl⟩ | ⟨_, _, _, _, hcalled⟩ | ⟨n, -, heq⟩ | hdrift |
    ⟨links, s, hfresh, heq⟩
  · rcases (Cluster.move_step h.cluster t).touches with heq | ⟨_, _, _, _, htouches⟩
    · exact .inl (heq ▸ hbox)
    · exact .inl (htouches.boxes hbox)
  · exact .inl (hcalled.boxes hbox)
  · rw [heq] at hbox
    exact .inl hbox
  · exact .inl (hdrift.boxes hbox)
  · rw [heq] at hbox ⊢
    obtain ⟨s', hs', hmailbox, hid⟩ := hbox
    rcases List.mem_append.1 hs' with hold | hnew
    · exact .inl ⟨s', hold, hmailbox, hid⟩
    · obtain rfl := List.mem_singleton.1 hnew
      obtain ⟨f, hf, rfl⟩ := Option.map_eq_some_iff.1 hmailbox
      exact .inr (hfresh.mailbox f hf).1

/-- Every step of a history keeps its cluster sound. -/
theorem Next.sound (hnext : Next P h h') (hs : h.cluster.Sound P) : h'.cluster.Sound P := by
  cases hnext with
  | task t => exact (Cluster.move_step h.cluster t).sound hs
  | create place station hplace spec =>
    obtain ⟨_, htouches⟩ := Cluster.touches_spawn (.creation (.routing spec)) hplace
    exact htouches.sound hs (Cluster.jobs_spawn hs hplace (by simp))
  | ask place station hplace m timeout =>
    obtain ⟨_, htouches⟩ := Cluster.touches_spawn (.query (.opening m timeout)) hplace
    exact htouches.sound hs (Cluster.jobs_spawn hs hplace (by simp))
  | tell place station hplace m hquery hplain delivered w hact =>
    obtain ⟨-, hw, htouches⟩ := Cluster.touches_act hplace hact (Site.keeps_send _ m)
    refine htouches.sound hs fun n j hj => ?_
    rw [hw] at hj ⊢
    exact ⟨(hs.jobs n j hj).number, (hs.jobs n j hj).station, (hs.jobs n j hj).work⟩
  | start place spec station r w hplace hact =>
    obtain ⟨-, hw, htouches⟩ := Cluster.touches_act hplace hact (Site.keeps_start _ spec)
    refine htouches.sound hs fun n j hj => ?_
    rw [hw] at hj ⊢
    exact ⟨(hs.jobs n j hj).number, (hs.jobs n j hj).station, (hs.jobs n j hj).work⟩
  | collect n hended =>
    refine ⟨fun m j hj => ?_, hs.kept, hs.stations, hs.now⟩
    dsimp only at hj
    rw [Table.get?_erase] at hj
    split at hj
    · cases hj
    · exact ⟨(hs.jobs m j hj).number, (hs.jobs m j hj).station, (hs.jobs m j hj).work⟩
  | drift w hdrift => exact hdrift.sound hs
  | join links s hfresh =>
    refine ⟨fun n j hj => ?_, fun k b hbox id hid => ?_, fun s' hs' => ?_, hs.now⟩
    · obtain ⟨hnumber, hstation, hwork⟩ := hs.jobs n j hj
      refine ⟨hnumber, ?_, hwork⟩
      dsimp only
      rw [List.length_append]
      omega
    · obtain ⟨s', hs', hmailbox, rfl⟩ := hbox
      obtain ⟨f, hf, rfl⟩ := Option.map_eq_some_iff.1 hmailbox
      rcases List.mem_append.1 hs' with hold | hnew
      · exact hs.kept _ _ ⟨s', hold, hmailbox, rfl⟩ id (hfresh.others s' hold f hf id hid)
      · obtain rfl := List.mem_singleton.1 hnew
        exact (hfresh.mailbox f hf).2 id hid
    · rcases List.mem_append.1 hs' with hold | hnew
      · exact hs.stations s' hold
      · obtain rfl := List.mem_singleton.1 hnew
        refine ⟨hfresh.self, hfresh.host, hfresh.listeners, fun id x hx => ?_, fun n q hq => ?_⟩
        · rw [hfresh.services] at hx
          cases hx
        · rw [hfresh.inbound] at hq
          cases hq

theorem Reachable.sound (hr : Reachable P h) : h.cluster.Sound P := by
  induction hr with
  | empty w hstations hjobs htransit hnow =>
    refine ⟨fun n j hj => ?_, fun k b hbox => ?_, fun s hs => ?_, hnow⟩
    · dsimp only at hj
      rw [hjobs] at hj
      cases hj
    · obtain ⟨s, hs, -⟩ := hbox
      dsimp only at hs
      rw [hstations] at hs
      cases hs
    · dsimp only at hs
      rw [hstations] at hs
      cases hs
  | next hr hnext ih => exact hnext.sound ih

/-- A history in which the nodes are changed by themselves. -/
def revise (h : History σ) (f : Node → Node) : History σ :=
  ⟨{ h.cluster with stations := h.cluster.stations.map fun s => { s with node := f s.node } },
    h.notes⟩

theorem Reachable.revise {f : Node → Node} (hr : Reachable P h)
    (hself : ∀ n, (f n).roster.self = n.roster.self) (hledger : ∀ n, (f n).ledger = n.ledger)
    (hmessenger : ∀ n, (f n).messenger = n.messenger) (hinbound : ∀ n, (f n).inbound = n.inbound) :
    Reachable P (h.revise f) := by
  refine .next hr (.drift h _ ⟨?_, ⟨le_refl _, fun _ _ h => h⟩, rfl, rfl, rfl, hr.sound.now⟩)
  refine List.forall₂_map_right_iff.2 (List.forall₂_same.2 fun s hs => ?_)
  have hsound := hr.sound.stations s hs
  refine ⟨congrArg Member.id (hself s.node), ?_, congrArg Ledger.node (hledger s.node),
    fun e he => hledger s.node ▸ he, hmessenger s.node ▸ hsound.listeners,
    congrArg Messenger.pending (hmessenger s.node), congrArg Messenger.replies (hmessenger s.node),
    hinbound s.node, rfl⟩
  rw [hself]
  exact hsound.self

/-- A history in which every node knows of other peers from now on. -/
def look (h : History σ) (peers : String → Table String Roster.Entry) : History σ :=
  h.revise fun n => { n with roster := { n.roster with peers := peers n.id } }

theorem Reachable.look (hr : Reachable P h) (peers : String → Table String Roster.Entry) :
    Reachable P (h.look peers) :=
  hr.revise (fun _ => rfl) (fun _ => rfl) (fun _ => rfl) fun _ => rfl

/-- A history in which every node meets properties in another order from now on. -/
def rearrange (h : History σ) (order : Properties.Order) : History σ :=
  h.revise fun n => { n with order }

theorem Reachable.rearrange (hr : Reachable P h) (order : Properties.Order) :
    Reachable P (h.rearrange order) :=
  hr.revise (fun _ => rfl) (fun _ => rfl) (fun _ => rfl) fun _ => rfl

/-- A peer that is connected and has reported a load. -/
def loaded (id : String) : Table String Roster.Entry :=
  .insert .empty id ⟨0, ⟨⟨id, ""⟩, some ⟨0, 64, Load.unknownCpu, .epoch⟩, true⟩⟩

end History

end Fleet

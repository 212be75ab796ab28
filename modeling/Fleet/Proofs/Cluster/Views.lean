import Fleet.Proofs.Cluster.Calm
import Fleet.Proofs.Cluster.News
import Fleet.Proofs.Member.Head
import Fleet.Proofs.Transport.Links

/-!
# What the nodes of a network know of each other

Nodes join a network one after another, each with a follower for its mailbox; they leave again, and
links between them are cut and restored.  Followers lag behind, and in between nodes do whatever
they do.  A node that has caught up with its mailbox counts a peer as available exactly if it is
connected to it, or if the link between the two is overlooked.

So nodes agree on their head as soon as all have caught up and no link between two of them is cut:
it is the one with the smallest id, and it alone takes itself for the head.

## Main definitions

* `Cluster.runtime?` — the node that follows the mailbox of a member.
* `Cluster.Course` — a network with nodes that some operations have led to.
* `Cluster.Elsewhere` — what may happen besides operations and followed events.
* `Cluster.CaughtUp` — nothing waits for a member.

## Main statements

* `Cluster.Course.aware` — what a node knows and what waits for it agree with the links.
* `Cluster.Course.available_iff` — whom a node that has caught up counts as available.
* `Cluster.Course.heads_agree` — nodes that have caught up agree on their head.
-/

namespace Fleet

open Relation (ReflTransGen)

namespace Roster

/-- An operation on a roster makes nobody available or unavailable. -/
def Op.Steady : Op → Prop
  | .register _ | .report .. => True
  | .unregister _ | .markConnected .. => False

theorem Leads.steady {r r' : Roster} (h : r.Leads Op.Reporting r') : r.Leads Op.Steady r' :=
  h.mono fun op hop => by
    cases op with
    | report => trivial
    | register | unregister | markConnected => exact hop.elim

theorem Leads.holds {r r' : Roster} (h : r.Leads Op.Steady r') (p : String) :
    r'.holds p = r.holds p := by
  refine h.keeps (·.holds p = r.holds p) rfl fun r op hop hr => ?_
  cases op with
  | register i => exact (r.holds_perform_register i p).trans hr
  | report id load => exact (r.holds_perform_report id load p).trans hr
  | unregister | markConnected => exact hop.elim

end Roster

/-- What may happen to a station while it follows no event: loads are stored, and peers that are
known in advance are registered. -/
structure Station.Rests (s s' : Station) : Prop where
  follower : s'.follower = s.follower
  signals : s'.signals = s.signals
  roster : s.node.roster.Leads Roster.Op.Steady s'.node.roster

theorem Station.Rests.refl (s : Station) : s.Rests s := ⟨rfl, rfl, .refl _⟩

namespace Cluster

/-- The station at a place has a follower. -/
def Attends (w : Cluster Network) (place : Nat) (s : Station) (f : Follower) : Prop :=
  w.stations[place]? = some s ∧ s.follower = some f

/-- The node that follows the mailbox of a member. -/
def runtime? (w : Cluster Network) (a : String) : Option Station :=
  (w.links.box? a).bind fun k => w.stations.find? fun s => s.follower.any (·.mailbox = k)

/-- Nothing waits in the mailbox of a member. -/
def CaughtUp (w : Cluster Network) (a : String) : Prop :=
  ∀ k, w.links.box? a = some k → w.links.take? k = none

/-- What may happen besides operations on the network and events that are followed: messages are
written, and stations rest.  Jobs and clocks are free to change. -/
structure Elsewhere (w w' : Cluster Network) : Prop where
  links : ReflTransGen Network.Written w.links w'.links
  stations : ∀ place : Nat, Option.Rel Station.Rests w.stations[place]? w'.stations[place]?

/-- A network with nodes that some operations have led to. -/
inductive Course : List Network.Op → Cluster Network → Prop
  | empty (w : Cluster Network) (hlinks : w.links = .empty) (hstations : w.stations = []) :
      Course [] w
  /-- A node joins; it knows nobody yet, but some peers may be registered in advance. -/
  | join {ops : List Network.Op} {w : Cluster Network} (h : Course ops w) {i : Identity}
      {links : Network} (hchange : w.links.Change (.join i) links) (s : Station)
      (hroster : (Roster.new i).Leads Roster.Op.Steady s.node.roster)
      (hfollower : s.follower = some { mailbox := w.links.next }) (hsignals : s.signals = 0) :
      Course (ops ++ [.join i]) { w with links, stations := w.stations ++ [s] }
  | change {ops : List Network.Op} {w : Cluster Network} (h : Course ops w) {op : Network.Op}
      {links : Network} (hchange : w.links.Change op links) (hop : ∀ i, op ≠ .join i) :
      Course (ops ++ [op]) { w with links }
  | task {ops : List Network.Op} {w : Cluster Network} (h : Course ops w) (t : Task) :
      Course ops (w.step t)
  | other {ops : List Network.Op} {w w' : Cluster Network} (h : Course ops w)
      (helse : w.Elsewhere w') : Course ops w'

/-- What the nodes know and what waits for them agree with the links: every member has a node that
follows its mailbox, and every such node is informed. -/
structure Aware (ops : List Network.Op) (w : Cluster Network) : Prop where
  recalls : w.links.Recalls ops
  followers : ∀ place s f, w.Attends place s f → f.mailbox < w.links.next ∧ f.seen = s.signals
  apart : ∀ i j s t f g, w.Attends i s f → w.Attends j t g → f.mailbox = g.mailbox → i = j
  staffed : ∀ a k, w.links.box? a = some k → ∃ place s f, w.Attends place s f ∧ f.mailbox = k
  informed : ∀ a place s f, w.Attends place s f → w.links.box? a = some f.mailbox →
    (∃ i : Identity, i.id = a ∧ s.node.roster.Sorted i) ∧
      w.links.Informs ops a f.mailbox s.node.roster.holds

variable {w w' : Cluster Network} {ops : List Network.Op} {a p : String} {k place : Nat}
  {s : Station}

theorem aware_empty (hlinks : w.links = .empty) (hstations : w.stations = []) : w.Aware [] := by
  have hnobody : ∀ place s f, ¬ w.Attends place s f := by
    rintro place s f ⟨hs, -⟩
    simp [hstations] at hs
  refine ⟨hlinks ▸ Network.recalls_empty, fun place s f hf => absurd hf (hnobody place s f),
    fun i j s t f g hf => absurd hf (hnobody i s f), fun a k ha => ?_,
    fun a place s f hf => absurd hf (hnobody place s f)⟩
  rw [hlinks] at ha
  cases ha

/-! ### Nodes that join -/

/-- The stations of a cluster after one has come in. -/
theorem getElem?_concat {l : List Station} {s t : Station}
    (h : (l ++ [s])[place]? = some t) : l[place]? = some t ∨ place = l.length ∧ t = s := by
  rcases Nat.lt_or_ge place l.length with hlt | hge
  · rw [List.getElem?_append_left hlt] at h
    exact .inl h
  · rw [List.getElem?_append_right hge, List.getElem?_singleton] at h
    split at h
    · exact .inr ⟨by omega, (Option.some.inj h).symm⟩
    · cases h

/-- Once a node has joined, the others attend to what they did before, and it to its own mailbox. -/
theorem attends_concat_cases {links : Network} {t : Station} {f g : Follower}
    (hfollower : s.follower = some g)
    (h : Attends { w with links, stations := w.stations ++ [s] } place t f) :
    w.Attends place t f ∨ place = w.stations.length ∧ t = s ∧ f = g := by
  obtain ⟨ht, hf⟩ := h
  rcases getElem?_concat ht with ht | ⟨hplace, rfl⟩
  · exact .inl ⟨ht, hf⟩
  · exact .inr ⟨hplace, rfl, Option.some.inj (hf.symm.trans hfollower)⟩

/-- A node that joins is informed, and so are the others about it. -/
theorem Aware.join (h : w.Aware ops) {i : Identity} {links : Network}
    (hchange : w.links.Change (.join i) links)
    (hroster : (Roster.new i).Leads Roster.Op.Steady s.node.roster)
    (hfollower : s.follower = some { mailbox := w.links.next }) (hsignals : s.signals = 0) :
    Aware (ops ++ [.join i]) { w with links, stations := w.stations ++ [s] } := by
  have hrecalls := h.recalls.change hchange
  have hlt : w.links.next < links.next := by
    cases hchange with
    | join i order =>
      rw [Network.introduce_eq, (Network.postAll_spec _ _).2.2.1]
      exact Nat.lt_succ_self _
  refine ⟨hrecalls, fun place t f hf => ?_, fun i j t u f g hf hg heq => ?_, fun a k ha => ?_,
    fun a place t f hf ha => ?_⟩
  · rcases attends_concat_cases hfollower hf with hold | ⟨-, rfl, rfl⟩
    · obtain ⟨hk, hseen⟩ := h.followers place t f hold
      exact ⟨hk.trans hlt, hseen⟩
    · exact ⟨hlt, hsignals.symm⟩
  · rcases attends_concat_cases hfollower hf with hold | ⟨hi, -, rfl⟩ <;>
      rcases attends_concat_cases hfollower hg with hold' | ⟨hj, -, rfl⟩
    · exact h.apart i j t u f g hold hold' heq
    · exact absurd heq (h.followers i t f hold).1.ne
    · exact absurd heq.symm (h.followers j u g hold').1.ne
    · exact hi.trans hj.symm
  · rcases hchange.box? ha with ⟨ha, -⟩ | ⟨-, -, -, rfl⟩
    · obtain ⟨place, t, f, ⟨ht, hf⟩, hk⟩ := h.staffed a k ha
      refine ⟨place, t, f, ⟨?_, hf⟩, hk⟩
      exact (List.getElem?_append_left (List.getElem?_eq_some_iff.1 ht).1).trans ht
    · exact ⟨w.stations.length, s, _, ⟨List.getElem?_concat_length, hfollower⟩, rfl⟩
  · rcases hchange.box? ha with ⟨hbox, hstays⟩ | ⟨i', heq, rfl, hk⟩
    · rcases attends_concat_cases hfollower hf with hold | ⟨-, -, rfl⟩
      · obtain ⟨hme, hinforms⟩ := h.informed a place t f hold hbox
        exact ⟨hme, hinforms.change h.recalls hchange hbox hstays⟩
      · exact absurd rfl (h.recalls.lt_next hbox).ne
    · cases heq
      rcases attends_concat_cases hfollower hf with hold | ⟨-, rfl, rfl⟩
      · exact absurd hk (h.followers place t f hold).1.ne
      · refine ⟨⟨i, rfl, (Roster.Sorted.new i).leads hroster⟩, ?_⟩
        cases hchange with
        | join i order hnew horder =>
          refine h.recalls.informs_newcomer i horder fun p hp => ?_
          have hnone : (Roster.new i).find? p = none := if_neg hp
          rw [hroster.holds, Roster.holds, hnone]
          rfl

/-- The other operations are told to the nodes that are there. -/
theorem Aware.change (h : w.Aware ops) {op : Network.Op} {links : Network}
    (hchange : w.links.Change op links) (hop : ∀ i, op ≠ .join i) :
    Aware (ops ++ [op]) { w with links } := by
  have hbox : ∀ a k, links.box? a = some k →
      w.links.box? a = some k ∧ ∀ id, op = .leave id → id ≠ a := by
    intro a k ha
    exact (hchange.box? ha).resolve_right fun ⟨i, heq, _⟩ => hop i heq
  refine ⟨h.recalls.change hchange, fun place t f hf => ?_, h.apart,
    fun a k ha => h.staffed a k (hbox a k ha).1, fun a place t f hf ha => ?_⟩
  · obtain ⟨hk, hseen⟩ := h.followers place t f hf
    exact ⟨hk.trans_le hchange.next_le, hseen⟩
  · obtain ⟨ha, hstays⟩ := hbox a f.mailbox ha
    obtain ⟨hme, hinforms⟩ := h.informed a place t f hf ha
    exact ⟨hme, hinforms.change h.recalls hchange ha hstays⟩

/-! ### What nodes do -/

/-- Written messages and stations that rest change nothing that nodes know of each other. -/
theorem Aware.elsewhere (h : w.Aware ops) (helse : w.Elsewhere w') : w'.Aware ops := by
  obtain ⟨l, hlinks, hsilent⟩ := Network.exists_postAll_of_written helse.links
  obtain ⟨hendpoints, hsevered, hnext, -, -⟩ := w.links.postAll_spec l
  have hback : ∀ place t f, w'.Attends place t f → ∃ s, w.Attends place s f ∧ s.Rests t := by
    rintro place t f ⟨ht, hf⟩
    have hrel := helse.stations place
    rw [ht] at hrel
    generalize hs : w.stations[place]? = before at hrel
    cases hrel with
    | @some s t hrests => exact ⟨s, ⟨hs, hrests.follower.symm.trans hf⟩, hrests⟩
  have hbox : w'.links.box? = w.links.box? := by rw [hlinks, Network.box?_postAll]
  refine ⟨hlinks ▸ h.recalls.postAll l, fun place t f hf => ?_, fun i j t u f g hf hg heq => ?_,
    fun a k ha => ?_, fun a place t f hf ha => ?_⟩
  · obtain ⟨s, hs, hrests⟩ := hback place t f hf
    obtain ⟨hk, hseen⟩ := h.followers place s f hs
    rw [hlinks, hnext, hrests.signals]
    exact ⟨hk, hseen⟩
  · obtain ⟨s, hs, -⟩ := hback i t f hf
    obtain ⟨s', hs', -⟩ := hback j u g hg
    exact h.apart i j s s' f g hs hs' heq
  · rw [hbox] at ha
    obtain ⟨place, s, f, ⟨hs, hf⟩, hk⟩ := h.staffed a k ha
    have hrel := helse.stations place
    rw [hs] at hrel
    generalize ht : w'.stations[place]? = after at hrel
    cases hrel with
    | @some s t hrests => exact ⟨place, t, f, ⟨ht, hrests.follower.trans hf⟩, hk⟩
  · rw [hbox] at ha
    obtain ⟨s, hs, hrests⟩ := hback place t f hf
    obtain ⟨⟨i, hid, hsorted⟩, hinforms⟩ := h.informed a place s f hs ha
    refine ⟨⟨i, hid, hsorted.leads hrests.roster⟩, ?_⟩
    rw [hlinks]
    refine hinforms.same hendpoints hsevered fun p _ => ?_
    rw [hrests.roster.holds]
    exact Network.view_postAll_of_none (h.recalls.receiving a f.mailbox ha)
      (fun e he => hsilent (f.mailbox, e) he p) _

/-- The stations of a cluster after one has changed. -/
theorem getElem?_set_cases {l : List Station} {s t : Station} {j : Nat}
    (h : (l.set place s)[j]? = some t) : j = place ∧ t = s ∨ j ≠ place ∧ l[j]? = some t := by
  by_cases hj : j = place
  · subst hj
    rw [List.getElem?_set_self'] at h
    obtain ⟨-, -, rfl⟩ := Option.map_eq_some_iff.1 h
    exact .inl ⟨rfl, rfl⟩
  · rw [List.getElem?_set_ne (Ne.symm hj)] at h
    exact .inr ⟨hj, h⟩

/-- Once a station has changed, the others attend to what they did before. -/
theorem attends_set_cases {j : Nat} {s' t : Station} {f' g : Follower}
    (hstations : w'.stations = w.stations.set place s') (hf' : s'.follower = some f')
    (h : w'.Attends j t g) : j = place ∧ t = s' ∧ g = f' ∨ j ≠ place ∧ w.Attends j t g := by
  obtain ⟨ht, hg⟩ := h
  rw [hstations] at ht
  rcases getElem?_set_cases ht with ⟨rfl, rfl⟩ | ⟨hj, ht⟩
  · exact .inl ⟨rfl, rfl, Option.some.inj (hg.symm.trans hf')⟩
  · exact .inr ⟨hj, ht, hg⟩

/-- What one follower does with its own mailbox does not concern the others. -/
theorem Aware.follow (h : w.Aware ops) {f f' : Follower} {s' : Station}
    (hf : w.Attends place s f) (hstations : w'.stations = w.stations.set place s')
    (hf' : s'.follower = some f') (hmailbox : f'.mailbox = f.mailbox) (hseen : f'.seen = s'.signals)
    (hendpoints : w'.links.endpoints = w.links.endpoints)
    (hsevered : w'.links.severed = w.links.severed) (hnext : w'.links.next = w.links.next)
    (htidy : w'.links.Tidy) (hothers : ∀ k, k ≠ f.mailbox →
      w'.links.inbox k = w.links.inbox k ∧ w'.links.receives k = w.links.receives k)
    (hmine : ∀ a, w.links.box? a = some f.mailbox → w'.links.receives f.mailbox = true ∧
      (∃ i : Identity, i.id = a ∧ s'.node.roster.Sorted i) ∧
        w'.links.Informs ops a f.mailbox s'.node.roster.holds) :
    w'.Aware ops := by
  have hbox : w'.links.box? = w.links.box? := by
    funext id
    rw [Network.box?, hendpoints, Network.box?]
  have hother : ∀ j t g, j ≠ place → w.Attends j t g → g.mailbox ≠ f.mailbox :=
    fun j t g hj hg heq => hj (h.apart j place t s g f hg hf heq)
  have hplace : place < w.stations.length := (List.getElem?_eq_some_iff.1 hf.1).1
  refine ⟨h.recalls.same hendpoints hsevered htidy fun a k hk => ?_, fun j t g hg => ?_,
    fun i j t u g g' hg hg' heq => ?_, fun a k ha => ?_, fun a j t g hg ha => ?_⟩
  · by_cases hown : k = f.mailbox
    · subst hown
      exact (hmine a hk).1
    · exact (hothers k hown).2.trans (h.recalls.receiving a k hk)
  · rw [hnext]
    rcases attends_set_cases hstations hf' hg with ⟨-, rfl, rfl⟩ | ⟨-, hold⟩
    · exact ⟨hmailbox ▸ (h.followers place s f hf).1, hseen⟩
    · exact h.followers j t g hold
  · rcases attends_set_cases hstations hf' hg with ⟨rfl, rfl, rfl⟩ | ⟨hi, hold⟩ <;>
      rcases attends_set_cases hstations hf' hg' with ⟨rfl, rfl, rfl⟩ | ⟨hj, hold'⟩
    · rfl
    · exact absurd (heq.symm.trans hmailbox) (hother j u g' hj hold')
    · exact absurd (heq.trans hmailbox) (hother i t g hi hold)
    · exact h.apart i j t u g g' hold hold' heq
  · rw [hbox] at ha
    obtain ⟨j, t, g, ⟨ht, hg⟩, hk⟩ := h.staffed a k ha
    by_cases hj : j = place
    · subst hj
      obtain rfl : t = s := Option.some.inj (ht.symm.trans hf.1)
      obtain rfl : g = f := Option.some.inj (hg.symm.trans hf.2)
      refine ⟨j, s', f', ⟨?_, hf'⟩, hmailbox.trans hk⟩
      rw [hstations, List.getElem?_set_self hplace]
    · refine ⟨j, t, g, ⟨?_, hg⟩, hk⟩
      rw [hstations, List.getElem?_set_ne (Ne.symm hj)]
      exact ht
  · rw [hbox] at ha
    rcases attends_set_cases hstations hf' hg with ⟨-, rfl, rfl⟩ | ⟨hj, hold⟩
    · rw [hmailbox] at ha ⊢
      exact (hmine a ha).2
    · obtain ⟨hme, hinforms⟩ := h.informed a j t g hold ha
      have hinbox := (hothers g.mailbox (hother j t g hj hold)).1
      refine ⟨hme, hinforms.same hendpoints hsevered fun p _ => ?_⟩
      rw [Network.view, hinbox, Network.view]

/-- An event that is followed was waiting for the node, and now the node knows. -/
theorem Aware.follows (h : w.Aware ops) {f : Follower} {e : TransportEvent} {x : Site Network}
    (hf : w.Attends place s f) (htake : w.links.take? f.mailbox = some (e, w'.links))
    (hx : x.node = s.node)
    (hstations : w'.stations = w.stations.set place { s with node := (x.handle e).node }) :
    w'.Aware ops := by
  obtain ⟨hinbox, hothers, hreceives, hendpoints, hsevered, hnext, htidy⟩ :=
    Network.take?_spec htake
  refine h.follow hf hstations hf.2 rfl (h.followers place s f hf).2 hendpoints hsevered hnext
    (htidy h.recalls.tidy) (fun k hk => ⟨hothers k hk, hreceives k⟩) fun a ha => ?_
  obtain ⟨⟨i, hid, hsorted⟩, hinforms⟩ := h.informed a place s f hf ha
  rw [← hx] at hsorted hinforms
  refine ⟨(hreceives _).trans (h.recalls.receiving a _ ha), ⟨i, hid, hsorted.leads
    (x.drifts_handle e)⟩, hinforms.same hendpoints hsevered fun p hp => ?_⟩
  have hself : x.node.id = a := hsorted.selfId.trans hid
  have hholds : (x.handle e).node.roster.holds p = (e.signal? p).getD (x.node.roster.holds p) :=
    Site.holds_handle (hself ▸ hp) e
  rw [hholds]
  exact Network.view_take hinbox _ p

/-- A follower that looks at a signal or ends follows nobody's mailbox. -/
theorem Aware.looks (h : w.Aware ops) {f f' : Follower} {links : Network}
    (hf : w.Attends place s f) (hmailbox : f'.mailbox = f.mailbox)
    (hlinks : links = w.links ∨ links = w.links.hangUp f.mailbox) (hseen : f'.seen = s.signals)
    (hwakes : f.seen ≠ s.signals ∨ w.links.ended f.mailbox = true) :
    Aware ops { w with
      links, stations := w.stations.set place { s with follower := some f' } } := by
  obtain ⟨hlt, hold⟩ := h.followers place s f hf
  have hended := hwakes.resolve_left fun hne => hne hold
  have hnobody : ∀ a, w.links.box? a ≠ some f.mailbox := Network.box?_ne_of_ended hended
  rcases hlinks with rfl | rfl
  · exact h.follow hf rfl rfl hmailbox hseen rfl rfl rfl h.recalls.tidy
      (fun _ _ => ⟨rfl, rfl⟩) fun a ha => absurd ha (hnobody a)
  · obtain ⟨hothers, htidy⟩ := w.links.hangUp_spec f.mailbox hlt
    exact h.follow hf rfl rfl hmailbox hseen rfl rfl rfl (htidy h.recalls.tidy) hothers
      fun a ha => absurd ha (hnobody a)

/-- A station that rests, and messages that are written on the way. -/
theorem Elsewhere.of_set {s' : Station} (hplace : w.stations[place]? = some s)
    (hstations : w'.stations = w.stations.set place s') (hrests : s.Rests s')
    (hlinks : ReflTransGen Network.Written w.links w'.links) : w.Elsewhere w' := by
  refine ⟨hlinks, fun i => ?_⟩
  rw [hstations]
  by_cases hi : i = place
  · subst hi
    rw [List.getElem?_set_self (List.getElem?_eq_some_iff.1 hplace).1, hplace]
    exact .some hrests
  · rw [List.getElem?_set_ne (Ne.symm hi)]
    cases w.stations[i]? with
    | none => exact .none
    | some t => exact .some (.refl t)

/-- Every task keeps the nodes aware of each other. -/
theorem Aware.move (h : w.Aware ops) {t : Task} (hmove : Move w t w') : w'.Aware ops := by
  cases hmove with
  | @follows place station f e links hplace hfollower htake =>
    have hlinks := Site.links_handle (site { w with links } station) e
    exact h.follows (x := site { w with links } station) ⟨hplace, hfollower⟩
      (htake.trans (congrArg (fun links => some (e, links)) hlinks.symm)) rfl rfl
  | looks hplace hfollower hmailbox hlinks hseen hwakes =>
    exact h.looks ⟨hplace, hfollower⟩ hmailbox hlinks hseen hwakes
  | @job n j station work s hjob hplace hmove =>
    obtain ⟨creations, heq⟩ := retire_eq s j.work work
    rw [heq]
    refine h.elsewhere (.of_set hplace rfl ⟨rfl, rfl, hmove.learns.reports.steady⟩ hmove.writes)
  | @works place queue station q d d' s hplace hqueue hcurrent hmove =>
    exact h.elsewhere (.of_set hplace rfl ⟨rfl, rfl, hmove.learns.reports.steady⟩ hmove.writes)
  | closes hplace | takes hplace | waits publishers hplace =>
    exact h.elsewhere (.of_set hplace rfl ⟨rfl, rfl, .refl _⟩ .refl)
  | @reports place k station publishers hplace =>
    exact h.elsewhere (.of_set hplace rfl
      ⟨rfl, rfl, ((w.site station).restates_publish w.cpu).reports.steady⟩
      ((w.site station).writes_publish w.cpu))
  | rests => exact h

/-- In every course what the nodes know and what waits for them agrees with the links. -/
theorem Course.aware (h : Course ops w) : w.Aware ops := by
  induction h with
  | empty w hlinks hstations => exact aware_empty hlinks hstations
  | join _ hchange s hroster hfollower hsignals ih =>
    exact ih.join hchange hroster hfollower hsignals
  | change _ hchange hop ih => exact ih.change hchange hop
  | @task ops w _ t ih => exact ih.move (w.move_step t)
  | other _ helse ih => exact ih.elsewhere helse

/-! ### Nodes that have caught up -/

/-- The node of a member that has caught up holds for available who is apparent to it. -/
theorem Aware.exists_runtime (h : w.Aware ops) (ha : w.links.endpoints.contains a = true)
    (hcaught : w.CaughtUp a) : ∃ (s : Station) (i : Identity), w.runtime? a = some s ∧ i.id = a ∧
      s.node.roster.Sorted i ∧
        ∀ p, p ≠ a → (s.node.roster.holds p = true ↔ w.links.Apparent ops a p) := by
  obtain ⟨k, hk⟩ := (w.links.contains_iff_box? a).1 ha
  obtain ⟨place, t, g, ⟨ht, hg⟩, hgk⟩ := h.staffed a k hk
  have hsome : (w.stations.find? fun s => s.follower.any (·.mailbox = k)).isSome = true :=
    List.find?_isSome.2 ⟨t, List.mem_of_getElem? ht, by simp [hg, hgk]⟩
  obtain ⟨s, hs⟩ := Option.isSome_iff_exists.1 hsome
  obtain ⟨f, hf, hfk⟩ : ∃ f, s.follower = some f ∧ f.mailbox = k := by
    have hany := List.find?_some hs
    cases hfollower : s.follower with
    | none => simp [hfollower] at hany
    | some f => exact ⟨f, rfl, by simpa [hfollower] using hany⟩
  obtain ⟨j, hj⟩ := List.mem_iff_getElem?.1 (List.mem_of_find?_eq_some hs)
  obtain ⟨⟨i, hid, hsorted⟩, hinforms⟩ := h.informed a j s f ⟨hj, hf⟩ (hfk ▸ hk)
  refine ⟨s, i, ?_, hid, hsorted, fun p hp => ?_⟩
  · rw [runtime?, hk]
    exact hs
  · have hempty : w.links.inbox f.mailbox = [] :=
      Network.inbox_of_take? (hfk ▸ hcaught k hk)
    have hview := hinforms p hp
    rwa [Network.view, hempty] at hview

/-- A member that has caught up and none of whose links to other members is cut has the member with
the smallest id for its head. -/
theorem Aware.exists_head (h : w.Aware ops)
    (hwhole : ∀ b, w.links.endpoints.contains b = true → b ≠ a →
      Network.link a b ∉ w.links.severed)
    (ha : w.links.endpoints.contains a = true) (hcaught : w.CaughtUp a) :
    ∃ s, w.runtime? a = some s ∧ s.node.id = a ∧
      w.links.endpoints.contains s.node.roster.head.id = true ∧
        ∀ b, w.links.endpoints.contains b = true → s.node.roster.head.id ≤ b := by
  obtain ⟨s, i, hs, hid, hsorted, hholds⟩ := h.exists_runtime ha hcaught
  have hself : s.node.roster.selfId = a := hsorted.selfId.trans hid
  have hall : ∀ p, (∃ m ∈ s.node.roster.available, m.id = p) ↔
      w.links.endpoints.contains p = true := by
    intro p
    by_cases hp : p = a
    · subst hp
      exact iff_of_true ⟨s.node.roster.self, List.mem_filter.2
        ⟨List.mem_cons_self, hsorted.available⟩, hself⟩ ha
    · rw [← hsorted.holds_iff, hholds p hp, Network.Apparent]
      exact ⟨And.left, fun hthere => ⟨hthere, .inl (hwhole p hthere hp)⟩⟩
  refine ⟨s, hs, hself, (hall _).1 ⟨_, Roster.head_mem_available hsorted.available, rfl⟩,
    fun b hb => ?_⟩
  obtain ⟨m, hm, rfl⟩ := (hall b).2 hb
  exact Roster.head_le hsorted.available hm

theorem caughtUp_of_all
    (h : (w.links.endpoints.values.all fun p => (w.links.take? p.mailbox).isNone) = true)
    (a : String) : w.CaughtUp a := by
  intro k hk
  obtain ⟨p, hp, rfl⟩ := Option.map_eq_some_iff.1 hk
  exact Option.isNone_iff_eq_none.1 (List.all_eq_true.1 h p (Table.mem_values_iff.2 ⟨a, hp⟩))

/-- A node that has done nothing yet joins. -/
def enter (w : Cluster Network) (i : Identity) : Cluster Network :=
  { w with
    links := (w.links.join i).2
    stations := w.stations ++ [.idle (.new i 64 defaultQueryMillis) .empty w.links.next] }

theorem Course.enter (h : Course ops w) {i : Identity} (hnew : w.links.endpoints.get? i.id = none) :
    Course (ops ++ [.join i]) (w.enter i) :=
  h.join (Network.change_join hnew) _ (.refl _) rfl rfl

theorem Course.tasks (h : Course ops w) (tasks : List Task) : Course ops (tasks.foldl step w) := by
  induction tasks generalizing w with
  | nil => exact h
  | cons t rest ih => exact ih (h.task t)

/-- A node that has caught up counts a peer as available exactly if it is connected to it, or the
peer is there and the link between them is overlooked; then the two are not connected. -/
theorem Course.available_iff (h : Course ops w) (ha : w.links.endpoints.contains a = true)
    (hcaught : w.CaughtUp a) : ∃ s, w.runtime? a = some s ∧ s.node.id = a ∧
      ∀ p, p ≠ a → ((∃ m ∈ s.node.roster.available, m.id = p) ↔
          p ∈ (w.links.connections a).map (·.id) ∨
            w.links.endpoints.contains p = true ∧ Network.Overlooked ops a p) ∧
        (Network.Overlooked ops a p → p ∉ (w.links.connections a).map (·.id)) := by
  have haware := h.aware
  obtain ⟨s, i, hs, hid, hsorted, hholds⟩ := haware.exists_runtime ha hcaught
  refine ⟨s, hs, hsorted.selfId.trans hid, fun p hp => ?_⟩
  have hlinked : w.links.linked a p = true ↔
      w.links.endpoints.contains p = true ∧ Network.link a p ∉ w.links.severed := by
    simp [Network.linked, ha, Ne.symm hp]
  rw [← hsorted.holds_iff, hholds p hp, haware.recalls.mem_connections, hlinked, ← and_or_left]
  refine ⟨Iff.rfl, fun hover hand => hand.2 ?_⟩
  exact (haware.recalls.severed a p).2 hover.cut

/-- The link between "a" and "b" is cut, and "b" leaves and joins again. -/
def rejoined : Cluster Network :=
  let w := ((gathering []).enter ⟨"a", ""⟩).enter ⟨"b", ""⟩
  let w := { w with links := (w.links.cut "a" "b").leave "b" }
  List.foldl step (w.enter ⟨"b", ""⟩) [.follow 0, .follow 0, .follow 0, .follow 0, .follow 2]

def rejoining : List Network.Op :=
  [.join ⟨"a", ""⟩, .join ⟨"b", ""⟩, .cut "a" "b", .leave "b", .join ⟨"b", ""⟩]

theorem course_rejoined : Course rejoining rejoined := by
  have hfirst : Course [] (gathering []) := .empty _ rfl rfl
  have hboth := (hfirst.enter (i := ⟨"a", ""⟩) rfl).enter (i := ⟨"b", ""⟩) (by decide +kernel)
  have hleft := (hboth.change (.cut "a" "b") nofun).change (.leave "b") nofun
  exact (hleft.enter (i := ⟨"b", ""⟩) (by decide +kernel)).tasks _

theorem overlooked_rejoining : Network.Overlooked rejoining "a" "b" :=
  ⟨[.join ⟨"a", ""⟩, .join ⟨"b", ""⟩, .cut "a" "b", .leave "b"], .join ⟨"b", ""⟩, [], rfl,
    ⟨.inr rfl, [.join ⟨"a", ""⟩, .join ⟨"b", ""⟩], .cut "a" "b", [.leave "b"], rfl, rfl,
      by simp [Network.Op.Heals]⟩, by simp⟩

theorem caughtUp_rejoined (a : String) : rejoined.CaughtUp a :=
  caughtUp_of_all (by decide +kernel) a

theorem Course.rejoined_available : Course rejoining rejoined ∧
    rejoined.links.endpoints.contains "a" = true ∧ rejoined.CaughtUp "a" ∧
      ∃ s, rejoined.runtime? "a" = some s ∧ s.node.id = "a" ∧
        ∀ p, p ≠ "a" → ((∃ m ∈ s.node.roster.available, m.id = p) ↔
            p ∈ (rejoined.links.connections "a").map (·.id) ∨
              rejoined.links.endpoints.contains p = true ∧
                Network.Overlooked rejoining "a" p) ∧
          (Network.Overlooked rejoining "a" p →
            p ∉ (rejoined.links.connections "a").map (·.id)) :=
  ⟨course_rejoined, by decide +kernel, caughtUp_rejoined "a",
    course_rejoined.available_iff (by decide +kernel) (caughtUp_rejoined "a")⟩

/-- Nodes that have caught up may count each other as available though they are not connected. -/
theorem available_not_connected : Course rejoining rejoined ∧ (∀ a, rejoined.CaughtUp a) ∧
    ∃ s, rejoined.runtime? "a" = some s ∧ (∃ m ∈ s.node.roster.available, m.id = "b") ∧
      "b" ∉ (rejoined.links.connections "a").map (·.id) := by
  obtain ⟨s, i, hs, -, hsorted, hholds⟩ :=
    course_rejoined.aware.exists_runtime (a := "a") (by decide +kernel) (caughtUp_rejoined "a")
  refine ⟨course_rejoined, caughtUp_rejoined, s, hs, hsorted.holds_iff.1 ?_, by decide +kernel⟩
  exact (hholds "b" (by decide)).2 ⟨by decide +kernel, .inr overlooked_rejoining⟩

/-- As soon as no link between two members is cut and all have caught up, all have the same head,
the member with the smallest id; and exactly one takes itself for the head. -/
theorem Course.heads_agree (h : Course ops w)
    (hwhole : ∀ a b, w.links.endpoints.contains a = true → w.links.endpoints.contains b = true →
      a ≠ b → Network.link a b ∉ w.links.severed)
    (hcaught : ∀ a, w.links.endpoints.contains a = true → w.CaughtUp a) :
    (∀ a, w.links.endpoints.contains a = true → ∃ s, w.runtime? a = some s ∧ s.node.id = a ∧
      w.links.endpoints.contains s.node.roster.head.id = true ∧
        ∀ b, w.links.endpoints.contains b = true → s.node.roster.head.id ≤ b) ∧
      ((∃ a, w.links.endpoints.contains a = true) →
        ∃! a, ∃ s, w.runtime? a = some s ∧ s.node.roster.isSelfHead = true) := by
  have hhead := fun a ha => h.aware.exists_head
    (fun b hb hne => hwhole a b ha hb (Ne.symm hne)) ha (hcaught a ha)
  refine ⟨hhead, fun ⟨a, ha⟩ => ?_⟩
  obtain ⟨s, hs, hid, hthere, hleast⟩ := hhead a ha
  obtain ⟨t, ht, htid, hthere', hleast'⟩ := hhead _ hthere
  have hself : t.node.roster.head.id = t.node.roster.selfId :=
    (String.le_antisymm (hleast' _ hthere) (hleast _ hthere')).trans htid.symm
  refine ⟨s.node.roster.head.id, ⟨t, ht, decide_eq_true hself⟩, fun b hb => ?_⟩
  obtain ⟨u, hu, huhead⟩ := hb
  have hb : w.links.endpoints.contains b = true := by
    obtain ⟨k, hk, -⟩ := Option.bind_eq_some_iff.1 hu
    exact (w.links.contains_iff_box? b).2 ⟨k, hk⟩
  obtain ⟨u', hu', huid, huthere, huleast⟩ := hhead b hb
  obtain rfl : u = u' := Option.some.inj (hu.symm.trans hu')
  have hown : u.node.roster.head.id = b := (of_decide_eq_true huhead).trans huid
  exact String.le_antisymm (hown ▸ huleast _ hthere) (hleast b hb)

/-- While the link between "b" and "c" is cut, "a" joins and leaves again. -/
def regathered : Cluster Network :=
  let w := ((gathering []).enter ⟨"b", ""⟩).enter ⟨"c", ""⟩
  let w := enter { w with links := w.links.cut "b" "c" } ⟨"a", ""⟩
  List.foldl step { w with links := (w.links.leave "a").heal "b" "c" }
    (List.replicate 5 (Task.follow 0) ++ List.replicate 5 (Task.follow 1))

def regathering : List Network.Op :=
  [.join ⟨"b", ""⟩, .join ⟨"c", ""⟩, .cut "b" "c", .join ⟨"a", ""⟩, .leave "a", .heal "b" "c"]

theorem course_regathered : Course regathering regathered := by
  have hfirst : Course [] (gathering []) := .empty _ rfl rfl
  have hboth := (hfirst.enter (i := ⟨"b", ""⟩) rfl).enter (i := ⟨"c", ""⟩) (by decide +kernel)
  have hthree := (hboth.change (.cut "b" "c") nofun).enter (i := ⟨"a", ""⟩) (by decide +kernel)
  exact ((hthree.change (.leave "a") nofun).change (.heal "b" "c") nofun).tasks _

theorem Course.regathered_agree :
    Course regathering regathered ∧ regathered.links.endpoints.keys = ["b", "c"] ∧
      (∀ a b, regathered.links.endpoints.contains a = true →
        regathered.links.endpoints.contains b = true → a ≠ b →
          Network.link a b ∉ regathered.links.severed) ∧
      (∀ a, regathered.links.endpoints.contains a = true → regathered.CaughtUp a) ∧
      (∀ a, regathered.links.endpoints.contains a = true → ∃ s, regathered.runtime? a = some s ∧
        s.node.id = a ∧ regathered.links.endpoints.contains s.node.roster.head.id = true ∧
          ∀ b, regathered.links.endpoints.contains b = true → s.node.roster.head.id ≤ b) ∧
      ∃! a, ∃ s, regathered.runtime? a = some s ∧ s.node.roster.isSelfHead = true := by
  have hsevered : regathered.links.severed = [] := by decide +kernel
  have hwhole : ∀ a b, regathered.links.endpoints.contains a = true →
      regathered.links.endpoints.contains b = true → a ≠ b →
        Network.link a b ∉ regathered.links.severed := by
    intro a b _ _ _
    rw [hsevered]
    exact List.not_mem_nil
  have hcaught : ∀ a, regathered.links.endpoints.contains a = true → regathered.CaughtUp a :=
    fun a _ => caughtUp_of_all (by decide +kernel) a
  obtain ⟨heads, hone⟩ := course_regathered.heads_agree hwhole hcaught
  exact ⟨course_regathered, by decide +kernel, hwhole, hcaught, heads,
    hone ⟨"b", by decide +kernel⟩⟩

end Cluster

end Fleet

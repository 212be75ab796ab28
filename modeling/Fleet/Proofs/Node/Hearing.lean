import Fleet.Proofs.Node.Following

/-!
# What nodes hear of the loads of others

A node stores the load of a peer only where a listener takes it from a message of that peer.  All
else that it does to its roster leaves the loads of the peers as they are: peers are registered
without a load, connections come and go, and the node stores its own load.

## Main definitions

* `Roster.Drifts` — a roster is changed without a report of a peer's load.
* `Roster.Hears` — a roster takes in a report, or drifts.
* `Roster.Restates`, `Roster.Learns` — the same where no peer comes or goes: only loads are stored.
* `Dispatch.storing?` — the report that a listener is about to store.

## Main statements

* `Roster.Hears.load?` — the loads of the peers change by what is heard alone.
* `Site.drifts_handle`, `Site.restates_publish`, `Dispatch.Move.learns` — what a node hears.
-/

namespace Fleet

/-! ### Rosters that hear nothing -/

namespace Roster

/-- An operation on the roster of the node `me` takes no peer out and reports no peer's load. -/
def Op.Silent (me : String) : Op → Prop
  | .register _ | .markConnected .. => True
  | .unregister id | .report id _ => id = me

/-- An operation reports the load of the node `me`. -/
def Op.Own (me : String) : Op → Prop
  | .report id _ => id = me
  | .register _ | .unregister _ | .markConnected .. => False

/-- An operation reports a load. -/
def Op.Reporting : Op → Prop
  | .report .. => True
  | .register _ | .unregister _ | .markConnected .. => False

/-- Operations of this kind lead from one roster to another. -/
def Drifts (r r' : Roster) : Prop := ∃ ops, (∀ op ∈ ops, op.Silent r.selfId) ∧ r' = r.run ops

/-- The load that a roster has of an id. -/
def load? (r : Roster) (id : String) : Option Load := (r.find? id).bind (·.load)

variable {r r' r'' : Roster} {id : String}

theorem load?_new (me : Identity) (id : String) : (new me).load? id = none := by
  have hfind : (new me).find? id = if id = me.id then some ⟨me, none, true⟩ else none := rfl
  rw [load?, hfind]
  split <;> rfl

namespace Drifts

theorem refl (r : Roster) : r.Drifts r := Leads.refl r

theorem selfId (h : r.Drifts r') : r'.selfId = r.selfId := Leads.selfId h

end Drifts

/-- The node itself stores its load, any number of times. -/
def Restates (r r' : Roster) : Prop := r.Leads (Op.Own r.selfId) r'

namespace Restates

theorem refl (r : Roster) : r.Restates r := Leads.refl r

theorem report {load : Load} (h : r.report r.selfId load = .ok r') : r.Restates r' := by
  have hop : (Op.report r.selfId load).Own r.selfId := rfl
  have hleads := Leads.perform r hop
  rwa [Roster.perform, h] at hleads

theorem drifts (h : r.Restates r') : r.Drifts r' :=
  h.mono fun op hop => by
    cases op with
    | report => exact hop
    | register | unregister | markConnected => exact hop.elim

theorem reports (h : r.Restates r') : r.Leads Op.Reporting r' :=
  h.mono fun op hop => by
    cases op with
    | report => trivial
    | register | unregister | markConnected => exact hop.elim

end Restates

/-- A silent operation leaves the load of every peer, and a peer that it adds has none. -/
theorem load?_perform {op : Op} (h : op.Silent r.selfId) (hid : id ≠ r.selfId) :
    (r.perform op).2.load? id = r.load? id := by
  rw [load?, find?_perform, load?]
  cases op with
  | register i =>
    rw [Op.entry]
    split
    · cases r.find? id <;> rfl
    · rfl
  | unregister i =>
    obtain rfl : i = r.selfId := h
    rw [Op.entry, if_neg fun hand => hid hand.1.symm]
  | report i load =>
    obtain rfl : i = r.selfId := h
    rw [Op.entry, if_neg (Ne.symm hid)]
  | markConnected i connected =>
    rw [Op.entry]
    split
    · cases r.find? id <;> rfl
    · rfl

theorem Drifts.load? (h : r.Drifts r') (hid : id ≠ r.selfId) : r'.load? id = r.load? id := by
  obtain ⟨ops, hops, rfl⟩ := h
  induction ops generalizing r with
  | nil => rfl
  | cons op rest ih =>
    have hself := r.selfId_perform op
    have hrest := ih (r := (r.perform op).2) (hself ▸ hid) fun op' hop' =>
      hself ▸ hops op' (List.mem_cons_of_mem _ hop')
    exact hrest.trans (load?_perform (hops op List.mem_cons_self) hid)

/-- A roster takes in a load from a sender, or it hears nothing. -/
def Hears (r r' : Roster) : Option (String × Load) → Prop
  | none => r.Drifts r'
  | some (sender, load) => r' = (r.perform (.report sender load)).2

/-- A roster takes in a load from a sender, or the node stores its own. -/
def Learns (r r' : Roster) : Option (String × Load) → Prop
  | none => r.Restates r'
  | some (sender, load) => r' = (r.perform (.report sender load)).2

theorem Learns.hears {heard : Option (String × Load)} (h : r.Learns r' heard) :
    r.Hears r' heard := by
  cases heard with
  | none => exact Restates.drifts h
  | some => exact h

theorem Learns.reports {heard : Option (String × Load)} (h : r.Learns r' heard) :
    r.Leads Op.Reporting r' := by
  cases heard with
  | none => exact Restates.reports h
  | some p =>
    obtain rfl : r' = _ := h
    exact .perform r trivial

/-- What a load from a sender adds to the loads that a roster has heard of an id: nothing unless the
sender has this id and is a peer. -/
def news (r : Roster) (id : String) : Option (String × Load) → List Load
  | none => []
  | some (sender, load) =>
    if sender = id ∧ id ≠ r.selfId ∧ (r.find? id).isSome then [load] else []

theorem news_self (r : Roster) (heard : Option (String × Load)) : r.news r.selfId heard = [] := by
  cases heard with
  | none => rfl
  | some p => exact if_neg fun hand => hand.2.1 rfl

theorem Hears.selfId {heard : Option (String × Load)} (h : r.Hears r' heard) :
    r'.selfId = r.selfId := by
  cases heard with
  | none => exact Drifts.selfId h
  | some p =>
    obtain rfl : r' = _ := h
    exact r.selfId_perform _

theorem Hears.load? {heard : Option (String × Load)} (h : r.Hears r' heard) (hid : id ≠ r.selfId) :
    r'.load? id = (r.news id heard).foldl newer (r.load? id) := by
  cases heard with
  | none => exact Drifts.load? h hid
  | some p =>
    obtain ⟨sender, load⟩ := p
    obtain rfl : r' = _ := h
    rw [Roster.load?, find?_perform, Op.entry, news, Roster.load?]
    by_cases hsender : sender = id
    · cases hm : r.find? id with
      | none => simp [hsender]
      | some m => simp [hsender, hid, Member.load_report]
    · rw [if_neg hsender, if_neg fun hand => hsender hand.1]
      rfl

end Roster

/-! ### What the steps of a node do to its roster -/

/-- The load that a message reports. -/
def Message.load? (m : Message) : Option Load := (Json.read? m.content).bind Load.ofJson?

/-- The load that a listener is about to store, and its sender. -/
def Dispatch.storing? : Dispatch → Option (String × Load)
  | .firing _ e (.storeLoad :: _) => e.message.load?.map (e.message.sender, ·)
  | _ => none

variable {σ : Type}

/-- The work on a message whose load is about to be stored may go on. -/
theorem Dispatch.canStep_of_storing? {d : Dispatch} {p : String × Load} (h : d.storing? = some p)
    (node : Node) (noticed : Nat) : d.canStep node noticed = true := by
  cases d with
  | firing => rfl
  | opening | placing | answering | done => cases h

/-- Storing the load in a message is a report of it by the sender. -/
theorem Dispatch.learns_storeLoad (ticket : Nat) (e : Event) (rest : List Handler) (s : Site σ) :
    s.node.roster.Learns (storeLoad e.message s).node.roster
      (storing? (.firing ticket e (.storeLoad :: rest))) := by
  rw [storing?, Message.load?, storeLoad]
  cases (Json.read? e.message.content).bind Load.ofJson? with
  | none => exact .refl _
  | some load =>
    change _ = (s.node.roster.perform (.report e.message.sender load)).2
    dsimp only
    rw [Roster.perform]
    cases s.node.roster.report e.message.sender load <;> rfl

theorem Node.restates_refreshLoad (n : Node) (now : Instant) :
    n.roster.Restates (n.refreshLoad now).roster := by
  unfold refreshLoad
  split
  · exact .refl _
  · split
    · exact .refl _
    · split
      · next h => exact .report h
      · exact .refl _

theorem Node.drifts_connected (n : Node) (peer : Identity) :
    n.roster.Drifts (n.connected peer).roster :=
  ⟨_, by simp [Roster.Op.Silent], n.roster_connected peer⟩

theorem Node.drifts_disconnected (n : Node) (id : String) :
    n.roster.Drifts (n.disconnected id).roster :=
  ⟨[_], by simp [Roster.Op.Silent], n.roster_disconnected id⟩

theorem Site.drifts_handle (s : Site σ) (e : TransportEvent) :
    s.node.roster.Drifts (s.handle e).node.roster := by
  cases e with
  | connected peer => exact s.node.drifts_connected peer
  | disconnected id => exact s.node.drifts_disconnected id
  | message m =>
    have hsame : (s.handle (.message m)).node.roster = s.node.roster := s.roster_receive m
    rw [hsame]
    exact .refl _

theorem Site.restates_storeOwn (s : Site σ) (l : Load) :
    s.node.roster.Restates (s.storeOwn l).node.roster := by
  unfold storeOwn
  split
  · next h => exact .report h
  · exact .refl _

variable [Transport σ] {s s' : Site σ}

theorem Site.restates_publish (s : Site σ) (cpu : Binary64) :
    s.node.roster.Restates (s.publish cpu).2.node.roster := by
  have hstore := s.restates_storeOwn (s.node.ledger.load cpu s.now)
  unfold publish
  dsimp only
  split
  · rw [node_send]
    exact hstore
  · exact hstore

theorem Query.Move.roster {q q' : Query} (h : Query.Move s q q' s') :
    s'.node.roster = s.node.roster := by
  cases h <;> rfl

theorem Creation.Move.restates {c c' : Creation} (h : Creation.Move s c c' s') :
    s.node.roster.Restates s'.node.roster := by
  cases h with
  | refuses | leads | starts | sends | concludes | rests => exact .refl _
  | refreshes => exact s.node.restates_refreshLoad s.now
  | asks _ hmove =>
    rw [hmove.roster]
    exact .refl _

theorem Dispatch.roster_respond (s : Site σ) (d : Delivery) (content : Bytes) :
    (s.respond d content).2.node.roster = s.node.roster := by
  unfold Site.respond
  cases h : s.node.messenger.claimAnswer d <;> rfl

/-- The work on a message takes in a load where a listener stores it, and nothing elsewhere. -/
theorem Dispatch.Move.learns {d d' : Dispatch} (h : Dispatch.Move s d d' s') :
    s.node.roster.Learns s'.node.roster d.storing? := by
  cases h with
  | opens | ends | records | starts | places | resumes | rests => exact .refl _
  | stores => exact learns_storeLoad _ _ _ s
  | ignores hh =>
    rcases hh with rfl | rfl <;> exact .refl _
  | creates _ hmove => exact hmove.restates
  | answers =>
    rw [roster_respond]
    exact .refl _

end Fleet

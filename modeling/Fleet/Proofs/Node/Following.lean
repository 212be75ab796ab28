import Fleet.Proofs.Member.Newest
import Fleet.Proofs.Node.Keeps

/-!
# Nodes that follow the events of their connections

Of all events only those about connections change whom a node holds for available, and each changes
it for its own peer only. So a node that follows the events of its mailbox holds a peer for
available if this is the last that it has heard of the peer.
-/

namespace Fleet

/-- What an event says about a peer: that it is there, or that it is gone. -/
def TransportEvent.signal? (p : String) : TransportEvent → Option Bool
  | .connected i => if i.id = p then some true else none
  | .disconnected id => if id = p then some false else none
  | .message _ => none

/-- What a sequence of events says about a peer. -/
def signals (p : String) (log : List TransportEvent) : List Bool :=
  log.filterMap (TransportEvent.signal? p)

theorem signals_append (p : String) (l l' : List TransportEvent) :
    signals p (l ++ l') = signals p l ++ signals p l' := List.filterMap_append ..

/-- A node holds another one for available. -/
def Node.holds (n : Node) (p : String) : Bool := (n.roster.find? p).any (·.available)

namespace Roster

variable {r : Roster} {p : String}

/-- A roster shows a member as available. -/
def holds (r : Roster) (p : String) : Bool := (r.find? p).any (·.available)

/-- A peer that is registered is not available yet, and one that was before stays as it is. -/
theorem holds_perform_register (r : Roster) (i : Identity) (p : String) :
    (r.perform (.register i)).2.holds p = r.holds p := by
  rw [holds, find?_perform_register, holds]
  split
  · cases r.find? p <;> rfl
  · rfl

theorem holds_perform_report (r : Roster) (id : String) (load : Load) (p : String) :
    (r.perform (.report id load)).2.holds p = r.holds p := by
  rw [holds, find?_perform_report, holds]
  split
  · cases r.find? p with
    | none => rfl
    | some m => exact Member.available_report m load
  · rfl

theorem holds_perform_markConnected (hp : p ≠ r.selfId) (i : String) (connected : Bool) :
    (r.perform (.markConnected i connected)).2.holds p =
      if i = p then (r.find? p).isSome && connected else r.holds p := by
  rw [holds, find?_perform_markConnected]
  by_cases hi : i = p
  · rw [if_pos ⟨hi, hp⟩, if_pos hi]
    cases r.find? p <;> rfl
  · rw [if_neg fun hand => hi hand.1, if_neg hi, holds]

/-- The roster shows of each member whether it is available. -/
theorem Sorted.holds_of_mem {me : Identity} (h : r.Sorted me) {m : Member} (hm : m ∈ r.members) :
    r.holds m.id = m.available := by
  have hshows := h.shows
  rw [hshows.members] at hm
  rw [holds, hshows.find?, Roll.at?_of_mem hshows.distinct hm]
  rfl

/-- The members that are available are those that the roster shows as such. -/
theorem Sorted.holds_iff {me : Identity} (h : r.Sorted me) :
    r.holds p = true ↔ ∃ m ∈ r.available, m.id = p := by
  constructor
  · intro hholds
    rw [holds, h.find?_eq, Roll.at?] at hholds
    cases hfound : r.roll.find? (·.id = p) with
    | none => simp [hfound] at hholds
    | some m =>
      have havailable : m.available = true := by simpa [hfound] using hholds
      have hid := List.find?_some hfound
      refine ⟨m, List.mem_filter.2 ⟨?_, havailable⟩, of_decide_eq_true hid⟩
      rw [h.shows.members]
      exact List.mem_of_find?_eq_some hfound
  · rintro ⟨m, hm, rfl⟩
    obtain ⟨hm, havailable⟩ := List.mem_filter.1 hm
    rw [h.holds_of_mem hm]
    exact havailable

end Roster

namespace Node

variable {n : Node} {p : String}

/-- The peers that are known from the start are registered one after another. -/
theorem roster_addPeers (n : Node) (peers : List Identity) :
    (n.addPeers peers).roster = n.roster.run (peers.map .register) := by
  change n.roster.registerAll peers = _
  rw [Roster.registerAll, Roster.run, List.foldl_map]
  congr 1
  funext r i
  rw [Roster.perform]
  cases r.register i <;> rfl

theorem leads_addPeers (n : Node) (peers : List Identity) :
    n.roster.Leads (fun op => ∃ i, op = .register i) (n.addPeers peers).roster :=
  ⟨_, by simp, n.roster_addPeers peers⟩

/-- A peer that connects is registered unless it is known, and noted as connected. The node itself
can be neither. -/
theorem roster_connected (n : Node) (peer : Identity) :
    (n.connected peer).roster =
      n.roster.run [.register peer, .markConnected peer.id true] := by
  change _ = ((n.roster.perform (.register peer)).2.perform (.markConnected peer.id true)).2
  rw [connected]
  split
  · next hself =>
    have hregister : n.roster.register peer = .error (.registered peer.id) :=
      if_pos (.inl hself)
    have hsame : n.roster.markConnected peer.id true = .ok n.roster := if_pos hself
    rw [Roster.perform, hregister, Roster.perform, hsame]
  · extract_lets known
    have hknown : known = (n.roster.perform (.register peer)).2 := by
      subst known
      rw [Roster.perform]
      cases hm : n.roster.find? peer.id with
      | some m =>
        have hregister : n.roster.register peer = .error (.registered peer.id) :=
          if_pos ((n.roster.isSome_find? peer.id).1 (by rw [hm]; rfl))
        rw [hregister]
      | none => cases n.roster.register peer <;> rfl
    rw [← hknown, Roster.perform]
    cases known.markConnected peer.id true <;> rfl

theorem roster_disconnected (n : Node) (id : String) :
    (n.disconnected id).roster = (n.roster.perform (.markConnected id false)).2 := by
  rw [disconnected, Roster.perform]
  cases n.roster.markConnected id false <;> rfl

theorem holds_connected (hp : p ≠ n.id) (peer : Identity) :
    (n.connected peer).holds p = if peer.id = p then true else n.holds p := by
  change (n.connected peer).roster.holds p = if peer.id = p then true else n.roster.holds p
  rw [roster_connected]
  change ((n.roster.perform (.register peer)).2.perform _).2.holds p = _
  have hother : p ≠ (n.roster.perform (.register peer)).2.selfId := by
    rwa [Roster.selfId_perform]
  rw [Roster.holds_perform_markConnected hother, Roster.holds_perform_register,
    Roster.find?_perform_register]
  split <;> rfl

theorem holds_disconnected (hp : p ≠ n.id) (id : String) :
    (n.disconnected id).holds p = if id = p then false else n.holds p := by
  change (n.disconnected id).roster.holds p = if id = p then false else n.roster.holds p
  rw [roster_disconnected, Roster.holds_perform_markConnected hp, Bool.and_false]

end Node

theorem Site.roster_receive {σ : Type} (s : Site σ) (m : Message) :
    (s.receive m).node.roster = s.node.roster := by
  unfold receive
  split
  · split <;> rfl
  · rfl

/-- An event changes whom a node holds for available as it says. -/
theorem Site.holds_handle {σ : Type} {s : Site σ} {p : String} (hp : p ≠ s.node.id)
    (e : TransportEvent) :
    (s.handle e).node.holds p = (e.signal? p).getD (s.node.holds p) := by
  cases e with
  | connected peer =>
    refine (Node.holds_connected hp peer).trans ?_
    rw [TransportEvent.signal?]
    split <;> rfl
  | disconnected id =>
    refine (Node.holds_disconnected hp id).trans ?_
    rw [TransportEvent.signal?]
    split <;> rfl
  | message m =>
    change (s.receive m).node.holds p = s.node.holds p
    rw [Node.holds, roster_receive, Node.holds]

/-- A node that follows events holds a peer for available if that is the last it has heard of it. -/
theorem Site.holds_foldl {σ : Type} [FaithfulTransport σ] {p : String} (log : List TransportEvent)
    {s : Site σ} (hp : p ≠ s.node.id) :
    (log.foldl Site.handle s).node.holds p = (signals p log).getLast?.getD (s.node.holds p) := by
  induction log generalizing s with
  | nil => rfl
  | cons e rest ih =>
    have hid : (s.handle e).node.id = s.node.id := (s.keeps_handle e).id
    rw [List.foldl_cons, ih (hid ▸ hp), holds_handle hp, signals, signals, List.filterMap_cons]
    cases hsignal : e.signal? p with
    | none => rfl
    | some b =>
      rw [List.getLast?_cons]
      cases (rest.filterMap (TransportEvent.signal? p)).getLast? <;> rfl

end Fleet

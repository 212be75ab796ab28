import Fleet.Proofs.Member.Succession
import Fleet.Proofs.Node.Following
import Fleet.Proofs.SocketAddress

/-!
# What is accepted is registered

A configuration is checked for mistakes before a node is made from it, and the node then registers
the peers of the configuration one after another, silently passing over those it cannot register.
The check and the roster look for the same thing in different ways, so that nobody is passed over:
an accepted configuration names no id twice, and a roster refuses none but such.

## Main definitions

* `NodeConfig.Sound` — what is asked of a configuration.

## Main statements

* `NodeConfig.fault?_eq_none_iff` — sound configurations are those without a mistake.
* `Node.members_addPeers_iff` — all peers are registered if no id occurs twice, and only then.
* `NodeConfig.accepted_registered` — both for the node of a configuration.
-/

namespace Fleet

/-! ### Sound configurations -/

/-- What is asked of a configuration: everything is filled in, the address to listen on can be
read, and no id occurs twice. -/
structure NodeConfig.Sound (c : NodeConfig) : Prop where
  id : ¬ Text.Blank c.id
  listen : ∃ a, SocketAddress.Written a c.listen.toList
  queryTimeout : 0 < c.queryTimeout
  reportInterval : 0 < c.reportInterval
  complete : ∀ p ∈ c.peers, ¬ Text.Blank p.id ∧ ¬ Text.Blank p.address
  others : ∀ p ∈ c.peers, p.id ≠ c.id
  distinct : (c.peers.map (·.id)).Nodup

namespace NodeConfig

variable {c : NodeConfig}

/-- The peers have no mistake if all of them are complete and no id occurs twice; `seen` are the ids
that came before. -/
theorem peersFault?_eq_none_iff {own : String} {seen : List String} {peers : List Identity} :
    peersFault? own seen peers = none ↔
      (∀ p ∈ peers, ¬ Text.Blank p.id ∧ ¬ Text.Blank p.address) ∧ (∀ p ∈ peers, p.id ≠ own) ∧
        (∀ p ∈ peers, p.id ∉ seen) ∧ (peers.map (·.id)).Nodup := by
  induction peers generalizing seen with
  | nil => simp [peersFault?]
  | cons p rest ih =>
    rw [peersFault?]
    by_cases hblank : Text.Blank p.id ∨ Text.Blank p.address
    · rw [if_pos hblank]
      refine iff_of_false (by simp) fun h => ?_
      obtain ⟨hid, haddress⟩ := h.1 p (by simp)
      exact hblank.elim hid haddress
    rw [if_neg hblank]
    by_cases hown : p.id = own
    · rw [if_pos hown]
      exact iff_of_false (by simp) fun h => h.2.1 p (by simp) hown
    rw [if_neg hown]
    by_cases hseen : p.id ∈ seen
    · rw [if_pos hseen]
      exact iff_of_false (by simp) fun h => h.2.2.1 p (by simp) hseen
    rw [if_neg hseen, ih]
    have hfresh : (∀ q ∈ rest, q.id ∉ p.id :: seen) ↔
        (∀ q ∈ rest, q.id ∉ seen) ∧ p.id ∉ rest.map (·.id) := by
      simp only [List.mem_cons, not_or, List.mem_map, not_exists, not_and]
      exact ⟨fun h => ⟨fun q hq => (h q hq).2, fun q hq => (h q hq).1⟩,
        fun h q hq => ⟨h.2 q hq, h.1 q hq⟩⟩
    rw [hfresh, List.forall_mem_cons, List.forall_mem_cons, List.forall_mem_cons, List.map_cons,
      List.nodup_cons]
    tauto

/-- A configuration has no mistake if it is sound, and only then. -/
theorem fault?_eq_none_iff : c.fault? = none ↔ c.Sound := by
  rw [fault?]
  by_cases hid : Text.Blank c.id
  · rw [if_pos hid]
    exact iff_of_false (by simp) fun h => h.id hid
  rw [if_neg hid]
  cases hparse : SocketAddress.parse? c.listen with
  | none =>
    rw [if_pos Option.isNone_none]
    refine iff_of_false (by simp) fun h => ?_
    obtain ⟨a, ha⟩ := h.listen
    rw [← SocketAddress.parse?_eq_some_iff, hparse] at ha
    cases ha
  | some a =>
    have hlisten : ∃ a, SocketAddress.Written a c.listen.toList :=
      ⟨a, SocketAddress.parse?_eq_some_iff.1 hparse⟩
    rw [if_neg (by simp)]
    by_cases htimeout : c.queryTimeout = 0
    · rw [if_pos htimeout]
      exact iff_of_false (by simp) fun h => UInt64.pos_iff_ne_zero.1 h.queryTimeout htimeout
    rw [if_neg htimeout]
    by_cases hinterval : c.reportInterval = 0
    · rw [if_pos hinterval]
      exact iff_of_false (by simp) fun h => UInt64.pos_iff_ne_zero.1 h.reportInterval hinterval
    rw [if_neg hinterval, peersFault?_eq_none_iff]
    constructor
    · rintro ⟨hcomplete, hothers, -, hdistinct⟩
      exact ⟨hid, hlisten, UInt64.pos_iff_ne_zero.2 htimeout, UInt64.pos_iff_ne_zero.2 hinterval,
        hcomplete, hothers, hdistinct⟩
    · intro h
      exact ⟨h.complete, h.others, by simp, h.distinct⟩

/-- No id occurs twice in a sound configuration, the node's own included. -/
theorem Sound.nodup_ids (h : c.Sound) : (c.id :: c.peers.map (·.id)).Nodup := by
  refine List.nodup_cons.2 ⟨fun hmem => ?_, h.distinct⟩
  obtain ⟨p, hp, heq⟩ := List.mem_map.1 hmem
  exact h.others p hp heq

end NodeConfig

/-! ### Registered peers -/

/-- Peers with new ids that are registered come to the end of a roll, in their order. -/
theorem Roll.foldl_register {me : String} (roll : Roll) {peers : List Identity}
    (h : (roll.ids ++ peers.map (·.id)).Nodup) :
    (peers.map Roster.Op.register).foldl (fun roll op => (roll.perform me op).2) roll =
      roll ++ peers.map fun p => ⟨p, none, false⟩ := by
  induction peers generalizing roll with
  | nil => simp
  | cons p rest ih =>
    have hnew : p.id ∉ roll.ids := fun hmem =>
      List.disjoint_of_nodup_append h hmem (by simp)
    have hperform : (roll.perform me (.register p)).2 = roll ++ [⟨p, none, false⟩] := by
      rw [Roll.perform, if_neg hnew]
    have hids : Roll.ids (roll ++ [⟨p, none, false⟩]) = roll.ids ++ [p.id] := by
      simp [Roll.ids, Member.id]
    rw [List.map_cons, List.foldl_cons, hperform, ih _ (by simpa [hids] using h)]
    simp

/-- A node that knows nobody registers all of some peers if no id occurs twice, and only then: the
roster lists itself and after it the peers, in their order and not available. -/
theorem Node.members_addPeers_iff {n : Node} {me : Identity} {peers : List Identity}
    (h : n.roster = .new me) :
    (n.addPeers peers).roster.members =
        ⟨me, none, true⟩ :: peers.map (fun p => ⟨p, none, false⟩) ↔
      (me.id :: peers.map (·.id)).Nodup := by
  rw [roster_addPeers, h, Roster.members_run]
  constructor
  · intro hmembers
    obtain ⟨hsorted, hroll⟩ := Roster.run_new me (peers.map .register)
    have hdistinct := hsorted.shows.distinct
    rw [hroll, hmembers] at hdistinct
    simpa [Roll.ids, Member.id, Function.comp_def] using hdistinct
  · intro hnodup
    exact Roll.foldl_register [⟨me, none, true⟩] hnodup

/-- **Checking and registering agree.**  A configuration is accepted if it is sound, and only then.
A node with the identity of an accepted one that is told of the peers lists itself and after it all
peers of the configuration, in their order, with their addresses and not available. -/
theorem NodeConfig.accepted_registered (c : NodeConfig) :
    (c.fault? = none ↔ c.Sound) ∧
      (c.fault? = none → ∀ memory timeout,
        ((Node.new c.identity memory timeout).withListeners.addPeers c.peers).roster.members =
          ⟨c.identity, none, true⟩ :: c.peers.map fun p => ⟨p, none, false⟩) := by
  refine ⟨fault?_eq_none_iff, fun h memory timeout => ?_⟩
  have hids : (c.identity.id :: c.peers.map (·.id)).Nodup := (fault?_eq_none_iff.1 h).nodup_ids
  exact (Node.members_addPeers_iff rfl).2 hids

namespace NodeConfig

/-- Two peers whose ids differ in a blank character only, at the same address. -/
def lookalikes : NodeConfig :=
  { default "b" with listen := "[fe80::1%3]:0", peers := [⟨"a", "a:1"⟩, ⟨"a ", "a:1"⟩] }

theorem lookalikes_registered :
    lookalikes.fault? = none ∧ lookalikes.Sound ∧
      (Node.ofConfig lookalikes 64).roster.members =
        [⟨⟨"b", "[fe80::1%3]:0"⟩, none, true⟩, ⟨⟨"a", "a:1"⟩, none, false⟩,
          ⟨⟨"a ", "a:1"⟩, none, false⟩] := by
  have haccepted : lookalikes.fault? = none := by decide
  obtain ⟨hsound, hregistered⟩ := lookalikes.accepted_registered
  exact ⟨haccepted, hsound.1 haccepted, hregistered haccepted 64 _⟩

end NodeConfig

end Fleet

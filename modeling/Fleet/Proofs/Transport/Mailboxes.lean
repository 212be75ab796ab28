import Fleet.Proofs.Node.Following
import Fleet.Proofs.Transport.Reports

/-!
# What waits in mailboxes

Whatever the operations of a network tell its nodes, they put into mailboxes: each operation changes
the nodes or the links and then posts a list of events.  What waits in the mailbox of a node, in
addition to what the node holds already, says which peers are there; nodes that write messages to
each other do not change this.

## Main definitions

* `Network.inbox`, `Network.receives` — what waits in a mailbox, and whether its owner receives.
* `Network.postAll` — several events are put into mailboxes.
* `Network.view` — whether a peer is there, according to what waits in a mailbox.

## Main statements

* `Network.introduce_eq`, `leave_eq`, `cut_eq`, `heal_eq` — the operations as lists of events.
* `Network.view_postAll_of_none`, `Network.view_postAll_of_mem` — what such a list does to a view.
* `Network.take?_spec`, `Network.Written.exists_postAll` — what nodes do.
-/

namespace Fleet.Network

variable {n n' : Network} {a b p : String} {k : Nat}

/-! ### Mailboxes -/

/-- The events that wait in a mailbox. -/
def inbox (n : Network) (k : Nat) : List TransportEvent :=
  ((n.mailboxes.get? k).map (·.events)).getD []

/-- The owner of a mailbox still receives. -/
def receives (n : Network) (k : Nat) : Bool := (n.mailboxes.get? k).any (·.receiving)

/-- Whether a peer is there, according to the events that wait in a mailbox; if they do not say,
what is held stays. -/
def view (n : Network) (k : Nat) (held : Bool) (p : String) : Bool :=
  (signals p (n.inbox k)).getLast?.getD held

/-- Puts several events into mailboxes. -/
def postAll (n : Network) (l : List (Nat × TransportEvent)) : Network :=
  l.foldl (fun n x => n.post x.1 x.2) n

theorem postAll_append (n : Network) (l l' : List (Nat × TransportEvent)) :
    n.postAll (l ++ l') = (n.postAll l).postAll l' := List.foldl_append ..

theorem receives_post (n : Network) (mailbox : Nat) (e : TransportEvent) (k : Nat) :
    (n.post mailbox e).receives k = n.receives k := by
  rw [receives, receives, post, Table.get?_modify]
  split
  · next heq =>
    rw [heq]
    cases n.mailboxes.get? mailbox with
    | none => rfl
    | some box => cases hbox : box.receiving <;> simp [hbox]
  · rfl

theorem inbox_post (h : n.receives k = true) (mailbox : Nat) (e : TransportEvent) :
    (n.post mailbox e).inbox k = n.inbox k ++ if mailbox = k then [e] else [] := by
  rw [inbox, inbox, post, Table.get?_modify]
  rw [receives] at h
  split
  · next heq =>
    subst heq
    cases hbox : n.mailboxes.get? k with
    | none => simp [hbox] at h
    | some box =>
      have hreceiving : box.receiving = true := by simpa [hbox] using h
      simp [hreceiving]
  · next hne => rw [if_neg (Ne.symm hne), List.append_nil]

/-- Events in mailboxes change nothing else. -/
theorem postAll_spec (n : Network) (l : List (Nat × TransportEvent)) :
    (n.postAll l).endpoints = n.endpoints ∧ (n.postAll l).severed = n.severed ∧
      (n.postAll l).next = n.next ∧ (∀ k, (n.postAll l).receives k = n.receives k) ∧
        (n.Tidy → (n.postAll l).Tidy) := by
  induction l generalizing n with
  | nil => exact ⟨rfl, rfl, rfl, fun _ => rfl, id⟩
  | cons x rest ih =>
    obtain ⟨hendpoints, hsevered, hnext, hreceives, htidy⟩ := ih (n.post x.1 x.2)
    exact ⟨hendpoints, hsevered, hnext, fun k => (hreceives k).trans (n.receives_post x.1 x.2 k),
      fun h => htidy (h.post x.1 x.2)⟩

theorem inbox_postAll (h : n.receives k = true) (l : List (Nat × TransportEvent)) :
    (n.postAll l).inbox k = n.inbox k ++ (l.filter (·.1 = k)).map (·.2) := by
  induction l generalizing n with
  | nil => exact (List.append_nil _).symm
  | cons x rest ih =>
    have hrest := ih (n := n.post x.1 x.2) ((n.receives_post x.1 x.2 k).trans h)
    change ((n.post x.1 x.2).postAll rest).inbox k = _
    rw [hrest, inbox_post h, List.append_assoc, List.filter_cons]
    by_cases hx : x.1 = k <;> simp [hx]

theorem signals_postAll (h : n.receives k = true) (l : List (Nat × TransportEvent)) (p : String) :
    signals p ((n.postAll l).inbox k) =
      signals p (n.inbox k) ++ signals p ((l.filter (·.1 = k)).map (·.2)) := by
  rw [inbox_postAll h, signals_append]

/-- An event that a peer has connected says that it is there, or concerns another one. -/
theorem signal?_connected (i : Identity) (p : String) :
    (TransportEvent.connected i).signal? p = some true ∨
      (TransportEvent.connected i).signal? p = none := ite_eq_or_eq ..

theorem signal?_disconnected (id p : String) :
    (TransportEvent.disconnected id).signal? p = some false ∨
      (TransportEvent.disconnected id).signal? p = none := ite_eq_or_eq ..

/-- Events that say nothing of a peer leave the view of it. -/
theorem view_postAll_of_none (h : n.receives k = true) {l : List (Nat × TransportEvent)}
    (hl : ∀ e, (k, e) ∈ l → e.signal? p = none) (held : Bool) :
    (n.postAll l).view k held p = n.view k held p := by
  have hnone : signals p ((l.filter (·.1 = k)).map (·.2)) = [] := by
    refine List.filterMap_eq_nil_iff.2 fun e he => ?_
    obtain ⟨x, hx, rfl⟩ := List.mem_map.1 he
    obtain ⟨hx, hk⟩ := List.mem_filter.1 hx
    exact hl x.2 (of_decide_eq_true hk ▸ hx)
  rw [view, signals_postAll h, hnone, List.append_nil, view]

/-- Events that all say the same of a peer, if anything, settle the view of it. -/
theorem view_postAll_of_mem (h : n.receives k = true) {l : List (Nat × TransportEvent)}
    {e : TransportEvent} {there : Bool} (hmem : (k, e) ∈ l) (he : e.signal? p = some there)
    (hl : ∀ e, (k, e) ∈ l → e.signal? p = some there ∨ e.signal? p = none) (held : Bool) :
    (n.postAll l).view k held p = there := by
  have hin : there ∈ signals p ((l.filter (·.1 = k)).map (·.2)) :=
    List.mem_filterMap.2 ⟨e, List.mem_map.2 ⟨(k, e), List.mem_filter.2 ⟨hmem, by simp⟩, rfl⟩, he⟩
  have hall : ∀ b ∈ signals p ((l.filter (·.1 = k)).map (·.2)), b = there := by
    intro b hb
    obtain ⟨e, he, hsignal⟩ := List.mem_filterMap.1 hb
    obtain ⟨x, hx, rfl⟩ := List.mem_map.1 he
    obtain ⟨hx, hk⟩ := List.mem_filter.1 hx
    rcases hl x.2 (of_decide_eq_true hk ▸ hx) with heq | heq
    · exact (Option.some.inj (heq.symm.trans hsignal)).symm
    · exact absurd (heq.symm.trans hsignal) nofun
  obtain ⟨last, hlast⟩ := Option.isSome_iff_exists.1
    (List.getLast?_isSome.2 (List.ne_nil_of_mem hin))
  rw [view, signals_postAll h, List.getLast?_append, hlast, hall last (List.mem_of_getLast? hlast)]
  rfl

/-! ### Operations as events in mailboxes -/

/-- The events that tell a node with a mailbox of some others, and them of it. -/
def introductions (i : Identity) (mine : Nat) (peers : List Endpoint) :
    List (Nat × TransportEvent) :=
  peers.flatMap fun p => [(p.mailbox, .connected i), (mine, .connected p.identity)]

/-- An event for a node, if it is there. -/
def notice (n : Network) (id : String) (e : TransportEvent) : List (Nat × TransportEvent) :=
  (n.box? id).toList.map (·, e)

/-- The event that tells a node of another one, if both are there. -/
def announcement (n : Network) (receiver peer : String) : List (Nat × TransportEvent) :=
  (n.identity? peer).toList.flatMap fun i => n.notice receiver (.connected i)

theorem introduce_eq (i : Identity) (mine : Nat) (peers : List Endpoint) (n : Network) :
    introduce i mine peers n = n.postAll (introductions i mine peers) := by
  induction peers generalizing n with
  | nil => rfl
  | cons p rest ih => exact ih _

theorem notify_eq (n : Network) (id : String) (e : TransportEvent) :
    n.notify id e = n.postAll (n.notice id e) := by
  rw [notify, notice, box?]
  cases n.endpoints.get? id <;> rfl

theorem announce_eq (n : Network) (receiver peer : String) :
    n.announce receiver peer = n.postAll (n.announcement receiver peer) := by
  rw [announce, announcement]
  cases n.identity? peer with
  | none => rfl
  | some i => simp [notify_eq]

theorem leave_eq (h : n.endpoints.contains a = true) :
    n.leave a = ({ n with endpoints := n.endpoints.erase a } : Network).postAll
      ((n.endpoints.erase a).values.map fun p => (p.mailbox, .disconnected a)) := by
  rw [leave, if_pos h, postAll, List.foldl_map]

theorem cut_eq (h : link a b ∉ n.severed) :
    n.cut a b = ({ n with severed := link a b :: n.severed } : Network).postAll
      (n.notice a (.disconnected b) ++ n.notice b (.disconnected a)) := by
  rw [cut, if_neg h, postAll_append]
  simp only [notify_eq]
  congr 1
  rw [notice, box?, (postAll_spec _ _).1]
  rfl

theorem heal_eq (h : link a b ∈ n.severed) :
    n.heal a b = ({ n with severed := n.severed.filter (· ≠ link a b) } : Network).postAll
      (n.announcement a b ++ n.announcement b a) := by
  rw [heal, if_pos h, postAll_append]
  simp only [announce_eq]
  congr 1
  simp only [announcement, notice, box?, identity?, (postAll_spec _ _).1]

theorem mem_introductions {i : Identity} {mine : Nat} {peers : List Endpoint}
    {e : TransportEvent} : (k, e) ∈ introductions i mine peers ↔
      ∃ p ∈ peers, k = p.mailbox ∧ e = .connected i ∨ k = mine ∧ e = .connected p.identity := by
  simp [introductions, List.mem_flatMap]

theorem mem_notice {id : String} {e e' : TransportEvent} :
    (k, e) ∈ n.notice id e' ↔ n.box? id = some k ∧ e = e' := by
  simp only [notice, List.mem_map, Option.mem_toList, Prod.mk.injEq]
  exact ⟨fun ⟨_, h, hk, he⟩ => ⟨hk ▸ h, he.symm⟩, fun ⟨h, he⟩ => ⟨k, h, rfl, he.symm⟩⟩

theorem mem_announcement {receiver peer : String} {e : TransportEvent} :
    (k, e) ∈ n.announcement receiver peer ↔
      ∃ i, n.identity? peer = some i ∧ n.box? receiver = some k ∧ e = .connected i := by
  simp [announcement, List.mem_flatMap, mem_notice]

theorem box?_postAll (n : Network) (l : List (Nat × TransportEvent)) :
    (n.postAll l).box? = n.box? := by
  funext id
  rw [box?, box?, (n.postAll_spec l).1]

theorem contains_iff_box? (n : Network) (a : String) :
    n.endpoints.contains a = true ↔ ∃ k, n.box? a = some k := by
  rw [Table.contains_iff]
  exact ⟨fun ⟨p, hp⟩ => ⟨p.mailbox, Option.map_eq_some_iff.2 ⟨p, hp, rfl⟩⟩,
    fun ⟨_, hk⟩ => (Option.map_eq_some_iff.1 hk).imp fun _ h => h.1⟩

/-! ### What nodes do with a network -/

/-- A message that is written is put into a mailbox or refused. -/
theorem Written.exists_postAll (h : Written n n') :
    ∃ l, n' = n.postAll l ∧ ∀ x ∈ l, ∀ p, x.2.signal? p = none := by
  obtain ⟨sender, receiver, m, rfl⟩ := h
  have hnothing : ∃ l, n = n.postAll l ∧ ∀ x ∈ l, ∀ p, x.2.signal? p = none :=
    ⟨[], rfl, nofun⟩
  unfold Network.write
  split
  · exact hnothing
  · next q hq =>
    split
    · split
      · refine ⟨[(q.mailbox, .message m)], rfl, fun x hx p => ?_⟩
        rw [List.mem_singleton.1 hx]
        rfl
      · exact hnothing
    · exact hnothing

theorem exists_postAll_of_written (h : Relation.ReflTransGen Written n n') :
    ∃ l, n' = n.postAll l ∧ ∀ x ∈ l, ∀ p, x.2.signal? p = none := by
  induction h with
  | refl => exact ⟨[], rfl, nofun⟩
  | tail _ hstep ih =>
    obtain ⟨l, rfl, hl⟩ := ih
    obtain ⟨l', rfl, hl'⟩ := hstep.exists_postAll
    refine ⟨l ++ l', (n.postAll_append l l').symm, fun x hx => ?_⟩
    exact (List.mem_append.1 hx).elim (hl x) (hl' x)

theorem inbox_of_take? (h : n.take? k = none) : n.inbox k = [] := by
  unfold take? at h
  rw [inbox]
  cases hbox : n.mailboxes.get? k with
  | none => rfl
  | some box =>
    obtain ⟨events, receiving⟩ := box
    cases events with
    | nil => rfl
    | cons e rest => simp [hbox] at h

/-- An event that is taken out was the first one in its mailbox. -/
theorem take?_spec {e : TransportEvent} (h : n.take? k = some (e, n')) :
    n.inbox k = e :: n'.inbox k ∧ (∀ j, j ≠ k → n'.inbox j = n.inbox j) ∧
      (∀ j, n'.receives j = n.receives j) ∧ n'.endpoints = n.endpoints ∧
        n'.severed = n.severed ∧ n'.next = n.next ∧ (n.Tidy → n'.Tidy) := by
  unfold take? at h
  split at h
  · next first rest receiving hget =>
    cases h
    refine ⟨?_, fun j hj => ?_, fun j => ?_, rfl, rfl, rfl, fun h => ⟨fun j box hbox => ?_,
      h.endpoints⟩⟩
    · rw [inbox, inbox, hget, Table.get?_insert, if_pos rfl]
      rfl
    · rw [inbox, Table.get?_insert, if_neg hj, inbox]
    · rw [receives, receives, Table.get?_insert]
      split
      · next heq => rw [heq, hget]; rfl
      · rfl
    · dsimp only at hbox
      rw [Table.get?_insert] at hbox
      split at hbox
      · next heq => exact heq ▸ h.mailboxes k _ hget
      · exact h.mailboxes j box hbox
  · cases h

/-- An event that has been taken out and taken note of leaves the view as it was. -/
theorem view_take {e : TransportEvent} (h : n.inbox k = e :: n'.inbox k) (held : Bool)
    (p : String) : n'.view k ((e.signal? p).getD held) p = n.view k held p := by
  rw [view, view, h, signals, signals, List.filterMap_cons]
  cases e.signal? p with
  | none => rfl
  | some b =>
    rw [List.getLast?_cons]
    cases ((n'.inbox k).filterMap (TransportEvent.signal? p)).getLast? <;> rfl

/-- What waits in the other mailboxes does not matter to one that is given up. -/
theorem hangUp_spec (n : Network) (k : Nat) (hk : k < n.next) :
    (∀ j, j ≠ k → (n.hangUp k).inbox j = n.inbox j ∧ (n.hangUp k).receives j = n.receives j) ∧
      (n.Tidy → (n.hangUp k).Tidy) := by
  refine ⟨fun j hj => ?_, fun h => ⟨fun j box hbox => ?_, h.endpoints⟩⟩
  · rw [inbox, receives, hangUp, Table.get?_insert, if_neg hj, inbox, receives]
    exact ⟨rfl, rfl⟩
  · rw [hangUp, Table.get?_insert] at hbox
    split at hbox
    · next heq => exact heq ▸ hk
    · exact h.mailboxes j box hbox

/-- A mailbox into which nothing will come any more is nobody's. -/
theorem box?_ne_of_ended (h : n.ended k = true) (a : String) : n.box? a ≠ some k := by
  intro ha
  obtain ⟨q, hq, rfl⟩ := Option.map_eq_some_iff.1 ha
  have hnobody := (Bool.and_eq_true_iff.1 h).1
  rw [Bool.not_eq_true', List.any_eq_false] at hnobody
  exact hnobody q (Table.mem_values_iff.2 ⟨a, hq⟩) (beq_self_eq_true _)

end Fleet.Network

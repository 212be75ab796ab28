import Fleet.Proofs.Transport.Joining
import Mathlib.Logic.Relation

/-!
# Reports of lost peers

A network tells a node that a peer is gone when their link is cut or the peer leaves. Whatever else
happens to the network puts no such report into the node's mailbox, but one that was there before
stays until it is taken out.
-/

namespace Fleet.Network

variable {n n' : Network} {k : Nat} {a b : String}

/-- The report that a peer is gone waits in a mailbox. -/
def Reports (n : Network) (k : Nat) (b : String) : Prop :=
  ∃ box, n.mailboxes.get? k = some box ∧ .disconnected b ∈ box.events

/-- A message has been written to a network. -/
def Written (n n' : Network) : Prop := ∃ sender receiver m, n' = (n.write sender receiver m).2

/-- What nodes do with a network. -/
inductive Used (n : Network) : Network → Prop
  | write (sender receiver : String) (m : Message) : Used n (n.write sender receiver m).2
  | take {k : Nat} {e : TransportEvent} {n' : Network} (h : n.take? k = some (e, n')) : Used n n'
  | hangUp (k : Nat) : Used n (n.hangUp k)

/-- What may happen to a network while two of its nodes stay and their link is not cut. -/
inductive Spares (a b : String) (n : Network) : Network → Prop
  | used {n' : Network} (h : Relation.ReflTransGen Used n n') : Spares a b n n'
  | cut (c d : String) (h : link c d ≠ link a b) : Spares a b n (n.cut c d)
  | heal (c d : String) : Spares a b n (n.heal c d)
  | leave (id : String) (ha : id ≠ a) (hb : id ≠ b) : Spares a b n (n.leave id)
  | join (i : Identity) : Spares a b n (n.join i).2

theorem link_comm (a b : String) : link a b = link b a := by
  unfold link
  split
  · next hab =>
    split
    · next hba => rw [String.le_antisymm hab hba]
    · rfl
  · next hab => rw [if_pos ((String.le_total a b).resolve_left hab)]

theorem Reports.of_post {mailbox : Nat} {e : TransportEvent} (h : (n.post mailbox e).Reports k b) :
    n.Reports k b ∨ k = mailbox ∧ e = .disconnected b := by
  obtain ⟨box, hbox, hmem⟩ := h
  rw [post, Table.get?_modify] at hbox
  split at hbox
  · next heq =>
    obtain ⟨old, hold, rfl⟩ := Option.map_eq_some_iff.1 hbox
    rw [← heq] at hold
    split at hmem
    · rcases List.mem_append.1 hmem with hmem | hnew
      · exact .inl ⟨old, hold, hmem⟩
      · exact .inr ⟨heq, (List.mem_singleton.1 hnew).symm⟩
    · exact .inl ⟨old, hold, hmem⟩
  · exact .inl ⟨box, hbox, hmem⟩

theorem Reports.of_notify {id : String} {e : TransportEvent} (h : (n.notify id e).Reports k b) :
    n.Reports k b ∨ n.box? id = some k ∧ e = .disconnected b := by
  unfold notify at h
  split at h
  · next p hp =>
    refine h.of_post.imp_right fun ⟨hk, he⟩ => ⟨?_, he⟩
    rw [box?, hp, hk]
    rfl
  · exact .inl h

theorem Reports.of_announce {receiver peer : String} (h : (n.announce receiver peer).Reports k b) :
    n.Reports k b := by
  unfold announce at h
  split at h
  · exact h.of_notify.resolve_right fun ⟨_, he⟩ => (nomatch he)
  · exact h

theorem reports_of_take (h : n.take? k = some (.disconnected b, n')) : n.Reports k b := by
  unfold take? at h
  split at h
  · next hget =>
    cases h
    exact ⟨_, hget, List.mem_cons_self⟩
  · cases h

/-- What nodes do reports nothing. -/
theorem Used.reports (hused : Used n n') (h : n'.Reports k b) : n.Reports k b := by
  cases hused with
  | write sender receiver m =>
    unfold Network.write at h
    split at h
    · exact h
    · split at h
      · split at h
        · rcases h.of_post with h | ⟨-, he⟩
          · exact h
          · cases he
        · exact h
      · exact h
  | @take mailbox e n' htake =>
    obtain ⟨box, hbox, hmem⟩ := h
    unfold take? at htake
    split at htake
    · next e' rest receiving hget =>
      cases htake
      rw [Table.get?_insert] at hbox
      split at hbox
      · next heq =>
        cases hbox
        exact ⟨_, heq ▸ hget, List.mem_cons_of_mem _ hmem⟩
      · exact ⟨box, hbox, hmem⟩
    · cases htake
  | hangUp mailbox =>
    obtain ⟨box, hbox, hmem⟩ := h
    rw [Network.hangUp, Table.get?_insert] at hbox
    split at hbox
    · cases hbox
      cases hmem
    · exact ⟨box, hbox, hmem⟩

/-- A node that leaves is the only one that is reported. -/
theorem Reports.of_leave {id : String} (h : (n.leave id).Reports k b) : n.Reports k b ∨ id = b := by
  have hfold : ∀ (peers : List Endpoint) (n : Network),
      (peers.foldl (fun n p => n.post p.mailbox (.disconnected id)) n).Reports k b →
        n.Reports k b ∨ id = b := by
    intro peers
    induction peers with
    | nil => exact fun n h => .inl h
    | cons p rest ih =>
      intro n h
      rcases ih _ h with h | h
      · exact h.of_post.imp_right fun ⟨_, he⟩ => TransportEvent.disconnected.inj he
      · exact .inr h
  unfold leave at h
  split at h
  · have hold := hfold _ _ h
    exact hold
  · exact .inl h

theorem Reports.of_join {i : Identity} (h : (n.join i).2.Reports k b) : n.Reports k b := by
  have hfold : ∀ (peers : List Endpoint) (n' : Network), (introduce i n.next peers n').Reports k b →
      n'.Reports k b := by
    intro peers
    induction peers with
    | nil => exact fun n' h => h
    | cons p rest ih =>
      intro n' h
      have hfirst := (ih _ h).of_post.resolve_right fun ⟨_, he⟩ => (nomatch he)
      exact hfirst.of_post.resolve_right fun ⟨_, he⟩ => (nomatch he)
  obtain ⟨box, hbox, hmem⟩ := hfold n.endpoints.values (n.welcome i) h
  rw [welcome, Table.get?_insert] at hbox
  split at hbox
  · cases hbox
    cases hmem
  · exact ⟨box, hbox, hmem⟩

/-- While two nodes stay and their link is not cut, neither is reported to the other. -/
theorem Spares.reports (hspares : Spares a b n n') (hbox : ∀ id, n.box? id = some k → id = a)
    (h : n'.Reports k b) : n.Reports k b := by
  cases hspares with
  | used hused =>
    induction hused with
    | refl => exact h
    | tail _ hstep ih => exact ih (hstep.reports h)
  | cut c d hlink =>
    unfold Network.cut at h
    split at h
    · exact h
    · rcases h.of_notify with h | ⟨hd, hc⟩
      · rcases h.of_notify with h | ⟨hc, hd⟩
        · exact h
        · cases hd
          rw [hbox c hc] at hlink
          exact absurd rfl hlink
      · rw [box?_notify] at hd
        cases hc
        rw [hbox d hd, link_comm] at hlink
        exact absurd rfl hlink
  | heal c d =>
    unfold Network.heal at h
    split at h
    · exact h.of_announce.of_announce
    · exact h
  | leave id ha hb => exact h.of_leave.resolve_right hb
  | join i => exact h.of_join

end Fleet.Network

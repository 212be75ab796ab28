import Fleet.Proofs.Table
import Fleet.Transport.Network
import Mathlib.Algebra.Order.BigOperators.Group.Multiset

/-!
# Faithful transports

A transport may delay a message or lose it, but it neither makes one up nor delivers one twice. Its
messages in transit form a multiset: writing adds at most one copy, taking a message out of a
mailbox removes one, and nothing else adds any. `Network` is such a transport.
-/

namespace Fleet

/-- A transport that neither forges nor duplicates messages. -/
class FaithfulTransport (σ : Type) extends Transport σ where
  /-- The messages on their way, each with the mailbox that it goes to. -/
  transit : σ → Multiset (Nat × Message)
  /-- The mailbox that is written to for an id. -/
  box? : σ → String → Option Nat
  box?_write (s : σ) (sender receiver : String) (m : Message) :
    box? (Transport.write s sender receiver m).2 = box? s
  transit_write (s : σ) (sender receiver : String) (m : Message) :
    transit (Transport.write s sender receiver m).2 ≤ transit s ∨
      ∃ k, box? s receiver = some k ∧
        transit (Transport.write s sender receiver m).2 ≤ (k, m) ::ₘ transit s
  box?_take {s s' : σ} {k : Nat} {e : TransportEvent} (h : Transport.take? s k = some (e, s')) :
    box? s' = box? s
  transit_take {s s' : σ} {k : Nat} {e : TransportEvent}
    (h : Transport.take? s k = some (e, s')) : transit s' ≤ transit s
  transit_take_message {s s' : σ} {k : Nat} {m : Message}
    (h : Transport.take? s k = some (.message m, s')) : (k, m) ::ₘ transit s' ≤ transit s
  box?_hangUp (s : σ) (k : Nat) : box? (Transport.hangUp s k) = box? s
  transit_hangUp (s : σ) (k : Nat) : transit (Transport.hangUp s k) ≤ transit s

/-- What may happen to connections on their own: messages are lost, and nodes go away. -/
structure FaithfulTransport.Weakens {σ : Type} [FaithfulTransport σ] (s s' : σ) : Prop where
  transit : FaithfulTransport.transit s' ≤ FaithfulTransport.transit s
  boxes : ∀ id k, FaithfulTransport.box? s' id = some k → FaithfulTransport.box? s id = some k

namespace Network

/-- The message that an event brings. -/
def message? : TransportEvent → Option Message
  | .message m => some m
  | _ => none

/-- The messages in a mailbox. -/
def letters (k : Nat) (box : Mailbox) : Multiset (Nat × Message) :=
  ((box.events.filterMap message?).map (k, ·) : List (Nat × Message))

/-- The messages in all mailboxes. -/
def transit (n : Network) : Multiset (Nat × Message) := n.mailboxes.total letters

/-- The mailbox that a node has got. -/
def box? (n : Network) (id : String) : Option Nat := (n.endpoints.get? id).map (·.mailbox)

/-- The message of an event, as one on its way to a mailbox. -/
def letter (k : Nat) (e : TransportEvent) : Multiset (Nat × Message) :=
  ((message? e).toList.map (k, ·) : List (Nat × Message))

theorem letters_append (k : Nat) (events : List TransportEvent) (e : TransportEvent)
    (receiving receiving' : Bool) :
    letters k ⟨events ++ [e], receiving⟩ = letters k ⟨events, receiving'⟩ + letter k e := by
  simp only [letters, letter, List.filterMap_append, List.map_append, Multiset.coe_add]
  cases h : message? e <;> simp [List.filterMap, h]

theorem letters_cons (k : Nat) (events : List TransportEvent) (e : TransportEvent)
    (receiving receiving' : Bool) :
    letters k ⟨e :: events, receiving⟩ = letter k e + letters k ⟨events, receiving'⟩ := by
  simp only [letters, letter, Multiset.coe_add]
  cases h : message? e <;> simp [List.filterMap, h]

theorem transit_eq {n : Network} {k : Nat} {box : Mailbox} (h : n.mailboxes.get? k = some box) :
    n.transit = letters k box + (n.mailboxes.erase k).total letters :=
  Table.total_eq_add letters h

theorem transit_insert (n : Network) (k : Nat) (box : Mailbox) :
    ({ n with mailboxes := n.mailboxes.insert k box } : Network).transit =
      letters k box + (n.mailboxes.erase k).total letters :=
  Table.total_insert letters

/-- What is left when a mailbox is thrown away. -/
theorem total_erase_le (n : Network) (k : Nat) :
    (n.mailboxes.erase k).total letters ≤ n.transit := by
  cases h : n.mailboxes.get? k with
  | none => rw [Table.erase_of_get?_eq_none h]; rfl
  | some box =>
    rw [transit_eq h]
    exact Multiset.le_add_left _ _

/-- An event that is put into a mailbox adds its message at most once. -/
theorem transit_post_le (n : Network) (k : Nat) (e : TransportEvent) :
    (n.post k e).transit ≤ letter k e + n.transit := by
  cases h : n.mailboxes.get? k with
  | none =>
    rw [post, Table.modify_of_get?_eq_none h]
    exact Multiset.le_add_left _ _
  | some box =>
    obtain ⟨events, receiving⟩ := box
    rw [transit_eq h, post, transit, Table.total_modify letters h]
    cases receiving
    · exact Multiset.le_add_left _ _
    · simp only [if_true]
      rw [letters_append k events e true true, add_comm (letters k _), add_assoc]

/-- An event that brings no message adds none. -/
theorem transit_post_of_no_message {n : Network} {k : Nat} {e : TransportEvent}
    (h : message? e = none) : (n.post k e).transit ≤ n.transit := by
  have hle := transit_post_le n k e
  have hnone : letter k e = 0 := by simp [letter, h]
  rwa [hnone, zero_add] at hle

theorem box?_notify (n : Network) (id : String) (e : TransportEvent) :
    (n.notify id e).box? = n.box? := by
  unfold notify
  split <;> rfl

theorem transit_notify_le {n : Network} {id : String} {e : TransportEvent}
    (h : message? e = none) : (n.notify id e).transit ≤ n.transit := by
  unfold notify
  split
  · exact transit_post_of_no_message h
  · exact le_refl _

instance : FaithfulTransport Network where
  transit := transit
  box? := box?
  box?_write n a b m := by
    simp only [Transport.write, write]
    split
    · rfl
    · split
      · split <;> rfl
      · rfl
  transit_write n a b m := by
    simp only [Transport.write, write]
    split
    · exact .inl (le_refl _)
    · next p hp =>
      split
      · split
        · have hbox : n.box? b = some p.mailbox := by
            rw [box?]
            split at hp
            · rw [hp]
              rfl
            · cases hp
          exact .inr ⟨p.mailbox, hbox, transit_post_le n p.mailbox (.message m)⟩
        · exact .inl (le_refl _)
      · exact .inl (le_refl _)
  box?_take {n n' k e} h := by
    simp only [Transport.take?, take?] at h
    split at h
    · cases h
      rfl
    · cases h
  transit_take {n n' k e} h := by
    simp only [Transport.take?, take?] at h
    split at h
    · next e' rest receiving hget =>
      cases h
      rw [transit_insert, transit_eq hget, letters_cons k rest e receiving receiving, add_assoc]
      exact Multiset.le_add_left _ _
    · cases h
  transit_take_message {n n' k m} h := by
    simp only [Transport.take?, take?] at h
    split at h
    · next e' rest receiving hget =>
      cases h
      rw [transit_insert, transit_eq hget, letters_cons k rest _ receiving receiving, add_assoc]
      exact le_refl _
    · cases h
  box?_hangUp n k := rfl
  transit_hangUp n k := by
    simp only [Transport.hangUp, hangUp]
    rw [transit_insert]
    simpa [letters] using total_erase_le n k

/-- Cutting a link loses nothing but later messages. -/
theorem weakens_cut (n : Network) (a b : String) : FaithfulTransport.Weakens n (n.cut a b) := by
  unfold cut
  split
  · exact ⟨le_refl _, fun _ _ h => h⟩
  · refine ⟨?_, fun id k h => ?_⟩
    · refine (transit_notify_le rfl).trans ((transit_notify_le rfl).trans ?_)
      exact le_refl _
    · change (notify (notify _ a _) b _).box? id = some k at h
      rwa [box?_notify, box?_notify] at h

theorem weakens_announce (n : Network) (receiver peer : String) :
    FaithfulTransport.Weakens n (n.announce receiver peer) := by
  unfold announce
  split
  · refine ⟨transit_notify_le rfl, fun id k h => ?_⟩
    change (notify n receiver _).box? id = some k at h
    rwa [box?_notify] at h
  · exact ⟨le_refl _, fun _ _ h => h⟩

/-- Restoring a link brings no message. -/
theorem weakens_heal (n : Network) (a b : String) : FaithfulTransport.Weakens n (n.heal a b) := by
  unfold heal
  split
  · have h1 := weakens_announce { n with severed := n.severed.filter (· ≠ link a b) } a b
    have h2 := weakens_announce
      (announce { n with severed := n.severed.filter (· ≠ link a b) } a b) b a
    exact ⟨h2.transit.trans h1.transit, fun id k h => h1.boxes id k (h2.boxes id k h)⟩
  · exact ⟨le_refl _, fun _ _ h => h⟩

end Network

end Fleet

import Fleet.Member
import Fleet.Table

/-!
# Rosters

A roster is one node's view of the cluster: itself and the peers it knows.  Each peer has the number
of its registration, so that the members can be listed in the order in which they came; the node
itself comes first and is always available.

## Main definitions

* `Roster` — the view; a node is never among its own peers.
* `Roster.members` — all members, the node itself first and the peers in order of registration.
* `Roster.register`, `Roster.unregister`, `Roster.report`, `Roster.markConnected` — the operations.

## Main statements

* `find?_register`, `find?_unregister`, `find?_report`, `find?_markConnected` — what the operations
  do to every id.
-/

namespace Fleet

/-- Why a roster refuses an operation. -/
inductive RosterError where
  | unknown (id : String)
  | registered (id : String)
  | isSelf (id : String)
deriving DecidableEq

/-- The wording of a refusal. -/
def RosterError.message : RosterError → String
  | .unknown id => s!"Node '{id}' not found"
  | .registered id => s!"Node '{id}' already registered"
  | .isSelf id => s!"Operation not permitted on the local node '{id}'"

/-- A peer and the number of its registration. -/
structure Roster.Entry where
  number : Nat
  member : Member

/-- One node's view of the cluster. -/
structure Roster where
  self : Member
  peers : Table String Roster.Entry
  /-- The number of the next registration; for a count of 64 bits see `Roster.members_wrapped`. -/
  next : Nat

namespace Roster

/-- The view of a node that knows nobody. -/
def new (identity : Identity) : Roster :=
  ⟨{ Member.new identity with available := true }, .empty, 0⟩

/-- The id of the node itself. -/
def selfId (r : Roster) : String := r.self.id

/-- All members, the node itself first and the peers in order of registration. -/
def members (r : Roster) : List Member :=
  r.self :: ((r.peers.values.mergeSort fun a b => a.number ≤ b.number).map (·.member))

/-- The members that are available, in the same order. -/
def available (r : Roster) : List Member := r.members.filter (·.available)

/-- The number of members. -/
def size (r : Roster) : Nat := r.peers.size + 1

/-- The member with an id. -/
def find? (r : Roster) (id : String) : Option Member :=
  if id = r.selfId then some r.self else (r.peers.get? id).map (·.member)

/-- Adds a peer, which is not connected yet. -/
def register (r : Roster) (identity : Identity) : Except RosterError (Member × Roster) :=
  if identity.id = r.selfId ∨ r.peers.contains identity.id then .error (.registered identity.id)
  else
    let m := Member.new identity
    .ok (m, { r with peers := r.peers.insert identity.id ⟨r.next, m⟩, next := r.next + 1 })

/-- Takes a peer out. -/
def unregister (r : Roster) (id : String) : Except RosterError (Member × Roster) :=
  if id = r.selfId then .error (.isSelf id)
  else match r.peers.get? id with
    | some e => .ok (e.member, { r with peers := r.peers.erase id })
    | none => .error (.unknown id)

/-- Changes what is known of a peer. -/
def update (r : Roster) (id : String) (f : Member → Member) : Roster :=
  { r with peers := r.peers.modify id fun e => { e with member := f e.member } }

/-- Stores the load of a member unless a newer one is stored. -/
def report (r : Roster) (id : String) (load : Load) : Except RosterError Roster :=
  if id = r.selfId then .ok { r with self := r.self.report load }
  else if r.peers.contains id then .ok (r.update id (·.report load))
  else .error (.unknown id)

/-- Notes whether a peer is connected; the node itself always counts as connected. -/
def markConnected (r : Roster) (id : String) (connected : Bool) : Except RosterError Roster :=
  if id = r.selfId then .ok r
  else if r.peers.contains id then .ok (r.update id ({ · with available := connected }))
  else .error (.unknown id)

/-- Registers every peer that can be registered, skipping the others. -/
def registerAll (r : Roster) (peers : List Identity) : Roster :=
  peers.foldl (fun r p => match r.register p with
    | .ok (_, r) => r
    | .error _ => r) r

theorem find?_register {r r' : Roster} {p : Identity} {m : Member}
    (h : r.register p = .ok (m, r')) (id : String) :
    r'.find? id = if id = p.id then some (Member.new p) else r.find? id := by
  unfold register at h
  split at h
  · cases h
  · next hp =>
    cases h
    simp only [not_or] at hp
    have hs : r.self.identity.id ≠ p.id := fun he => hp.1 he.symm
    simp only [find?, selfId, Member.id, Table.get?_insert]
    by_cases h1 : id = r.self.identity.id
    · subst h1; simp [hs]
    · by_cases h2 : id = p.id <;> simp [h1, h2]
      simp [h2 ▸ h1]

theorem find?_unregister {r r' : Roster} {i : String} {m : Member}
    (h : r.unregister i = .ok (m, r')) (id : String) :
    r'.find? id = if id = i then none else r.find? id := by
  unfold unregister at h
  split at h
  · cases h
  · next hi =>
    split at h
    · cases h
      rw [find?, find?, Table.get?_erase]
      by_cases h1 : id = i
      · rw [if_pos h1, if_pos h1, if_neg (h1 ▸ hi)]
        rfl
      · rw [if_neg h1, if_neg h1]
        rfl
    · cases h

theorem find?_report {r r' : Roster} {i : String} {l : Load} (h : r.report i l = .ok r')
    (id : String) :
    r'.find? id = if id = i then (r.find? i).map (·.report l) else r.find? id := by
  unfold report at h
  split at h
  · next hi =>
    cases h
    simp only [find?, selfId, Member.id, Member.identity_report]
    by_cases h1 : id = i
    · subst h1
      simp only [selfId, Member.id] at hi
      simp [hi]
    · simp only [selfId, Member.id] at hi
      subst hi
      simp [h1]
  · next hi =>
    split at h
    · cases h
      simp only [find?, selfId, Member.id, update, Table.get?_modify] at hi ⊢
      by_cases h1 : id = r.self.identity.id
      · subst h1
        simpa using fun h => absurd h.symm hi
      · by_cases h2 : id = i
        · subst h2
          simp [h1, Option.map_map, Function.comp_def]
        · simp [h1, h2]
    · cases h

theorem find?_markConnected {r r' : Roster} {i : String} {c : Bool}
    (h : r.markConnected i c = .ok r') (hi : i ≠ r.selfId) (id : String) :
    r'.find? id = if id = i then (r.find? i).map ({ · with available := c }) else r.find? id := by
  unfold markConnected at h
  rw [if_neg hi] at h
  split at h
  · cases h
    simp only [find?, selfId, Member.id, update, Table.get?_modify] at hi ⊢
    by_cases h1 : id = r.self.identity.id
    · subst h1
      simpa using fun h => absurd h.symm hi
    · by_cases h2 : id = i
      · subst h2
        simp [h1, Option.map_map, Function.comp_def]
      · simp [h1, h2]
  · cases h

end Roster

end Fleet

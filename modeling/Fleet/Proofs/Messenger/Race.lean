import Fleet.Proofs.Messenger.Calls

/-!
# Races on a messenger

Any number of calls run side by side on one messenger. What happens next is open: a new call may
begin, a message may come in, and any call may take its next step. The record of a race notes which
call took each query out of the pending table, by looking at the table before and after.

`Call.Effect` says once what a step of a call can do; the accounting of queries rests on it.
-/

namespace Fleet.Messenger

/-- A messenger and the calls made on it so far, by number. -/
structure Race where
  messenger : Messenger
  calls : List Call := []

/-- What can happen next. -/
inductive Act where
  /-- Somebody sends a query under an id; `found` are the connections of its targets. -/
  | query (id : Uuid) (found : List String)
  /-- A message comes in. -/
  | receive (m : Message)
  /-- Somebody hands in a message as a response. -/
  | complete (m : Message)
  /-- A node is lost. -/
  | fail (target : String)
  /-- A call takes its next step. -/
  | go (call : Nat) (written late : Bool)

/-- The id under which an act sends a query. -/
def Act.id? : Act → Option Uuid
  | .query id _ => some id
  | _ => none

namespace Race

/-- A messenger on which nothing has been called. -/
def start (timeout : Nat) : Race := { messenger := .new timeout }

/-- Begins a call. -/
def begin (r : Race) (c : Call) : Race := { r with calls := r.calls ++ [c] }

/-- What an act does. A response that comes in begins a call; any other message gets its ticket. -/
def act (r : Race) : Act → Race
  | .query id found => r.begin (.opening id found)
  | .receive m =>
    if m.isResponse then r.begin (.completing m)
    else { r with messenger := (r.messenger.stamp m).2 }
  | .complete m => r.begin (.completing m)
  | .fail target => r.begin (.failing target)
  | .go n written late =>
    match r.calls[n]? with
    | none => r
    | some c =>
      let (c, m) := c.step written late r.messenger
      ⟨m, r.calls.set n c⟩

/-- The call that takes its step in an act, with its number, as it stands before. -/
def caller (r : Race) : Act → Option (Nat × Call)
  | .go n _ _ => r.calls[n]?.map (n, ·)
  | _ => none

/-- The queries that were entered into the pending table, with their targets. -/
def opened (r : Race) : List (Uuid × String) := r.calls.filterMap Call.query?

end Race

/-- A query that was taken out of the pending table, and the call that did it, as it stood. -/
structure Removal where
  id : Uuid
  caller : Option (Nat × Call)

/-- A race, and who took each query out so far. -/
structure Record where
  race : Race
  removals : List Removal := []

namespace Record

/-- The removals of an act: what is in the pending table before it and not after it. -/
def removed (r : Race) (a : Act) : List Removal :=
  (r.messenger.pending.keys.filter fun id => !(r.act a).messenger.pending.contains id).map
    (⟨·, r.caller a⟩)

/-- The record after one more act. -/
def act (h : Record) (a : Act) : Record :=
  ⟨h.race.act a, h.removals ++ removed h.race a⟩

/-- The record of a whole run. -/
def after (timeout : Nat) (acts : List Act) : Record := acts.foldl act ⟨.start timeout, []⟩

/-- The queries that were taken out, in the order of their removal. -/
def resolved (h : Record) : List Uuid := h.removals.map (·.id)

theorem after_concat (timeout : Nat) (acts : List Act) (a : Act) :
    after timeout (acts ++ [a]) = (after timeout acts).act a := by
  simp [after]

end Record

namespace Call

/-- The query that a call is about to take out. -/
def takes : Call → Option Uuid
  | .withdrawing id _ | .expiring id _ => some id
  | .completing r => r.correlation
  | .sweeping _ (id :: _) _ => some id
  | _ => none

/-- What a call that takes a query out has for it; none if the query does that itself. -/
def outcome : Call → Option Reply
  | .completing r => some (.answer r)
  | .sweeping .. => some .gone
  | _ => none

/-- The query that a call has taken out, and the outcome that it is about to hand over. -/
def holds : Call → Option (Uuid × Reply)
  | .handing id r => some (id, .answer r)
  | .dropping _ id _ _ => some (id, .gone)
  | _ => none

/-- Whether a query that was written has returned. -/
def hasReturned : Call → Bool
  | .returned .. => true
  | _ => false

/-- Whether a query has returned at all. -/
def finished : Call → Bool
  | .returned .. | .unwritten .. => true
  | _ => false

/-- The query that a call knows to be out of the pending table. -/
def past : Call → Option Uuid
  | .unwritten id _ | .overdue id _ | .returned id _ _ => some id
  | _ => none

/-- The queries that were seen waiting for a lost node and are still to be taken out. -/
def seen : Call → List (Uuid × String)
  | .sweeping target ids _ | .dropping target _ ids _ => ids.map (·, target)
  | _ => []

/-- The number of queries that a call for a lost node has taken out. -/
def taken : Call → Option Nat
  | .failing _ => some 0
  | .sweeping _ _ count | .swept _ count => some count
  | .dropping _ _ _ count => some (count + 1)
  | _ => none

/-- What a step can do: nothing to the messenger, or one thing to one query. -/
inductive Effect (m : Messenger) : Call → Call → Messenger → Prop
  /-- The messenger stays as it is. -/
  | still {c c' : Call} (hid : ∀ id, c'.id? = some id → c.id? = some id)
      (hquery : c'.query? = c.query?) (hheld : c.holds = none) (hholds : c'.holds = none)
      (hfinished : c.finished → c' = c) (hreturned : c'.hasReturned → c' = c)
      (hpast : ∀ id, c'.past = some id → c.past = some id ∨ m.pending.get? id = none)
      (hseen : ∀ e ∈ c'.seen, e ∈ c.seen ∨ m.pending.get? e.1 = some e.2)
      (htaken : c'.taken = c.taken) : Effect m c c' m
  /-- A query is entered. -/
  | enters (id : Uuid) (target : String) :
      Effect m (.opening id [target]) (.writing id target) (m.openQuery id target)
  /-- A query takes itself out and returns. -/
  | leaves {c c' : Call} {id : Uuid} {target : String}
      (hc : c = .withdrawing id target ∧ c' = .unwritten id target ∨
        c = .expiring id target ∧ c' = .returned id target none)
      (hpending : m.pending.contains id) : Effect m c c' (m.dropQuery id)
  /-- A query is taken out by a response or for the loss of its target. -/
  | takes {c c' : Call} {id : Uuid} {r : Reply} (hc : c.takes = some id)
      (hr : c.outcome = some r) (hquery : c.id? = none) (hquery' : c'.id? = none)
      (hheld : c.holds = none) (hholds : c'.holds = some (id, r))
      (hseen : ∀ e ∈ c'.seen, e ∈ c.seen) (htaken : c'.taken = c.taken.map (· + 1))
      (hpending : m.pending.contains id) : Effect m c c' (m.dropQuery id)
  /-- An outcome is handed over. -/
  | hands {c c' : Call} {id : Uuid} {r : Reply} (hheld : c.holds = some (id, r))
      (hholds : c'.holds = none) (hquery : c.id? = none) (hquery' : c'.id? = none)
      (hseen : ∀ e ∈ c'.seen, e ∈ c.seen) (htaken : c'.taken = c.taken) :
      Effect m c c' (m.deliver id r)
  /-- An outcome is picked up. -/
  | picks {c : Call} {id : Uuid} {target : String} {r : Reply} (hawaiting : c.awaiting)
      (hquery : c.query? = some (id, target)) (hr : m.replies.get? id = some r) :
      Effect m c (.returned id target r.result) { m with replies := m.replies.erase id }

variable {m : Messenger} {written late : Bool}

private theorem Effect.idle (c : Call) (h : c.holds = none) : Effect m c c m :=
  .still (fun _ h => h) rfl h h (fun _ => rfl) (fun _ => rfl) (fun _ h => .inl h)
    (fun _ h => .inl h) rfl

private theorem effect_pickUp {id : Uuid} {target : String} {c otherwise : Call}
    (hawaiting : c.awaiting) (hquery : c.query? = some (id, target))
    (ho : m.replies.get? id = none → Effect m c otherwise m) :
    Effect m c (pickUp id target otherwise m).1 (pickUp id target otherwise m).2 := by
  rw [pickUp, takeReply]
  cases h : m.replies.get? id with
  | none => exact ho h
  | some r => exact .picks hawaiting hquery h

private theorem effect_opening (id : Uuid) (found : List String) :
    Effect m (.opening id found) ((Call.opening id found).step written late m).1
      ((Call.opening id found).step written late m).2 := by
  simp only [step]
  split
  · exact .enters id _
  · exact .still (by simp [id?, query?]) rfl rfl rfl (by simp [finished])
      (by simp [hasReturned]) (by simp [past]) (by simp [seen]) rfl

private theorem effect_sweeping (target : String) (ids : List Uuid) (count : Nat) :
    Effect m (.sweeping target ids count) ((Call.sweeping target ids count).step written late m).1
      ((Call.sweeping target ids count).step written late m).2 := by
  cases ids with
  | nil =>
    exact .still (fun _ h => h) rfl rfl rfl (by simp [finished]) (by simp [hasReturned, step])
      (by simp [past, step]) (by simp [seen, step]) rfl
  | cons id ids =>
    simp only [step]
    split
    · next hp =>
      exact .takes rfl rfl rfl rfl rfl rfl (by simp +contextual [seen]) rfl hp
    · exact .still (fun _ h => h) rfl rfl rfl (by simp [finished]) (by simp [hasReturned])
        (by simp [past]) (by simp +contextual [seen]) rfl

/-- Every step has one of the effects. -/
theorem effect_step (written late : Bool) (m : Messenger) (c : Call) :
    Effect m c (c.step written late m).1 (c.step written late m).2 := by
  cases c with
  | opening id found => exact effect_opening id found
  | writing id target =>
    cases written <;>
      exact .still (fun _ h => h) rfl rfl rfl (by simp [finished]) (by simp [hasReturned, step])
        (by simp [past, step]) (by simp [seen, step]) rfl
  | withdrawing id target =>
    simp only [step]
    by_cases hp : m.pending.contains id
    · exact .leaves (.inl ⟨rfl, rfl⟩) hp
    · have hnone : m.pending.get? id = none :=
        Table.contains_eq_false_iff.1 (Bool.eq_false_iff.2 hp)
      have hsame : m.dropQuery id = m := by
        simp only [dropQuery, Table.erase_of_get?_eq_none hnone]
      rw [hsame]
      exact .still (fun _ h => h) rfl rfl rfl (by simp [finished]) (by simp [hasReturned])
        (by simp [past, hnone]) (by simp [seen]) rfl
  | waiting id target =>
    refine effect_pickUp rfl rfl fun _ => ?_
    cases late
    · exact .idle _ rfl
    · exact .still (fun _ h => h) rfl rfl rfl (by simp [finished]) (by simp [hasReturned])
        (by simp [past]) (by simp [seen]) rfl
  | expiring id target =>
    simp only [step]
    split
    · next hp => exact .leaves (.inr ⟨rfl, rfl⟩) hp
    · next hp =>
      have hnone : m.pending.get? id = none :=
        Table.contains_eq_false_iff.1 (Bool.eq_false_iff.2 hp)
      exact .still (fun _ h => h) rfl rfl rfl (by simp [finished]) (by simp [hasReturned])
        (by simp [past, hnone]) (by simp [seen]) rfl
  | overdue id target => exact effect_pickUp rfl rfl fun _ => .idle _ rfl
  | completing response =>
    simp only [step]
    cases hc : response.correlation with
    | none =>
      exact .still (fun _ h => h) rfl rfl rfl (by simp [finished]) (by simp [hasReturned])
        (by simp [past]) (by simp [seen]) rfl
    | some id =>
      simp only
      split
      · next hp =>
        exact .takes (by simp [takes, hc]) rfl rfl rfl rfl rfl (by simp [seen]) rfl hp
      · exact .still (fun _ h => h) rfl rfl rfl (by simp [finished]) (by simp [hasReturned])
          (by simp [past]) (by simp [seen]) rfl
  | handing id response => exact .hands rfl rfl rfl rfl (by simp [seen, step]) rfl
  | failing target =>
    exact .still (fun _ h => h) rfl rfl rfl (by simp [finished]) (by simp [hasReturned, step])
      (by simp [past, step]) (by simp [seen, step, mem_waitingFor]) rfl
  | sweeping target ids count => exact effect_sweeping target ids count
  | dropping target id ids count => exact .hands rfl rfl rfl rfl (by simp [seen, step]) rfl
  | invalid | unwritten | returned | completed | refused | swept => exact .idle _ rfl

end Call

end Fleet.Messenger

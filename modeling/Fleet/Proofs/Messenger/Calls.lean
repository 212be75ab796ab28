import Fleet.Node.Query
import Fleet.Proofs.Table

/-!
# Concurrent calls on a messenger

Sending a query, handing a response over and failing the queries of a lost node are not atomic:
between two steps of one call other calls take steps of theirs. A call is the place it has reached,
and a step does what comes next on the messenger. Whoever takes a query out of the pending table
hands its outcome over only afterwards, so a query whose time is up may find itself taken out with
nothing handed over yet; it then waits once more.

The operations of `Messenger` are the uninterrupted runs of these calls.
-/

namespace Fleet

/-- The result that an outcome means for a query. -/
def Reply.result : Reply → Option Message
  | .answer m => some m
  | .gone => none

namespace Messenger

/-- Where a call stands. -/
inductive Call where
  /-- A query about to look up its connection; `found` are the connections of its targets. -/
  | opening (id : Uuid) (found : List String)
  /-- There was not exactly one connection. -/
  | invalid (found : Nat)
  /-- Pending, about to be written. -/
  | writing (id : Uuid) (target : String)
  /-- About to take itself out since the write failed. -/
  | withdrawing (id : Uuid) (target : String)
  /-- Returned without a response since the write failed. -/
  | unwritten (id : Uuid) (target : String)
  /-- Written, waiting for its outcome or its timer. -/
  | waiting (id : Uuid) (target : String)
  /-- The timer has fired; about to take itself out. -/
  | expiring (id : Uuid) (target : String)
  /-- Out of time and taken out by another call, waiting for what that call hands over. -/
  | overdue (id : Uuid) (target : String)
  | returned (id : Uuid) (target : String) (result : Option Message)
  /-- About to take out the query that a response is for. -/
  | completing (response : Message)
  /-- About to hand a response to the query taken out. -/
  | handing (id : Uuid) (response : Message)
  | completed (id : Uuid)
  | refused (e : ProtocolError)
  /-- About to look which queries wait for a lost node. -/
  | failing (target : String)
  /-- About to take out the next query that was seen waiting; `count` were taken out so far. -/
  | sweeping (target : String) (ids : List Uuid) (count : Nat)
  /-- About to tell the query taken out last that its target is gone. -/
  | dropping (target : String) (id : Uuid) (ids : List Uuid) (count : Nat)
  | swept (target : String) (count : Nat)

theorem nodup_waitingFor (m : Messenger) (target : String) : (m.waitingFor target).Nodup := by
  have h : (m.waitingFor target).Sublist m.pending.keys := List.filter_sublist.map _
  exact h.nodup m.pending.nodup

theorem mem_waitingFor {m : Messenger} {target : String} {id : Uuid} :
    id ∈ m.waitingFor target ↔ m.pending.get? id = some target := by
  simp [waitingFor, Table.get?_eq_some_iff]

namespace Call

/-- Picks up the outcome of a query if it is there, and goes on as given if it is not. -/
def pickUp (id : Uuid) (target : String) (otherwise : Call) (m : Messenger) : Call × Messenger :=
  match m.takeReply id with
  | some (r, m) => (.returned id target r.result, m)
  | none => (otherwise, m)

/-- The next step of a call; a call that has ended stays as it is. Whether a write succeeds and
whether a timer has fired is given. -/
def step (written late : Bool) (m : Messenger) : Call → Call × Messenger
  | .opening id found =>
    match found with
    | [target] => (.writing id target, m.openQuery id target)
    | _ => (.invalid found.length, m)
  | .writing id target => (if written then .waiting id target else .withdrawing id target, m)
  | .withdrawing id target => (.unwritten id target, m.dropQuery id)
  | .waiting id target =>
    pickUp id target (if late then .expiring id target else .waiting id target) m
  | .expiring id target =>
    if m.pending.contains id then (.returned id target none, m.dropQuery id)
    else (.overdue id target, m)
  | .overdue id target => pickUp id target (.overdue id target) m
  | .completing response =>
    match response.correlation with
    | none => (.refused (.noCorrelation response.channel), m)
    | some id =>
      if m.pending.contains id then (.handing id response, m.dropQuery id)
      else (.refused (.unknownCorrelation id), m)
  | .handing id response => (.completed id, m.deliver id (.answer response))
  | .failing target => (.sweeping target (m.waitingFor target) 0, m)
  | .sweeping target [] count => (.swept target count, m)
  | .sweeping target (id :: ids) count =>
    if m.pending.contains id then (.dropping target id ids count, m.dropQuery id)
    else (.sweeping target ids count, m)
  | .dropping target id ids count => (.sweeping target ids (count + 1), m.deliver id .gone)
  | c => (c, m)

/-- The id and the target of a query that has been entered into the pending table. -/
def query? : Call → Option (Uuid × String)
  | .writing id target | .withdrawing id target | .unwritten id target | .waiting id target
  | .expiring id target | .overdue id target | .returned id target _ => some (id, target)
  | _ => none

/-- The id of a query. -/
def id? : Call → Option Uuid
  | .opening id _ => some id
  | c => c.query?.map Prod.fst

/-- Whether a query was written and has not returned. -/
def awaiting : Call → Bool
  | .waiting .. | .expiring .. | .overdue .. => true
  | _ => false

/-- The step of a query's job that a call stands for. -/
def job (deadline : Nat) : Call → Query
  | .waiting id _ => .waiting id deadline
  | .overdue id _ => .overdue id
  | .returned _ _ result => .done (.ok result)
  | _ => .done (.ok none)

/-- So many steps of a call with nothing in between. -/
def run (written late : Bool) : Nat → Messenger → Call → Call × Messenger
  | 0, m, c => (c, m)
  | n + 1, m, c => run written late n (c.step written late m).2 (c.step written late m).1

variable {written late : Bool} {m m' : Messenger}

attribute [local simp] step

/-- Handing a response over is the uninterrupted run of its call. -/
theorem run_completing {r : Message} (h : m.complete r = .ok m') :
    ∃ id, r.correlation = some id ∧
      run written late 2 m (.completing r) = (.completed id, m') := by
  rw [complete] at h
  cases hc : r.correlation with
  | none => simp [hc] at h
  | some id =>
    simp only [hc] at h
    split at h
    · next hp =>
      cases h
      exact ⟨id, rfl, by simp [run, hc, hp]⟩
    · cases h

/-- A response that is refused is refused at the first step, which leaves the messenger alone. -/
theorem step_completing_refused {r : Message} {e : ProtocolError} (h : m.complete r = .error e) :
    (Call.completing r).step written late m = (.refused e, m) := by
  rw [complete] at h
  cases hc : r.correlation with
  | none =>
    simp only [hc, Except.error.injEq] at h
    simp [hc, h]
  | some id =>
    simp only [hc] at h
    split at h
    · cases h
    · next hp =>
      simp only [Except.error.injEq] at h
      simp [hc, hp, h]

private theorem contains_dropQuery {id other : Uuid} (hne : other ≠ id) :
    ((m.dropQuery id).deliver id .gone).pending.contains other = m.pending.contains other := by
  simp [dropQuery, deliver, Table.contains, Table.get?_erase, hne]

private theorem run_sweeping (target : String) (ids : List Uuid) (hnodup : ids.Nodup) (count : Nat)
    (m : Messenger) (hpending : ∀ id ∈ ids, m.pending.contains id) :
    run written late (2 * ids.length + 1) m (.sweeping target ids count) =
      (.swept target (count + ids.length),
        ids.foldl (fun m id => (m.dropQuery id).deliver id .gone) m) := by
  induction ids generalizing count m with
  | nil => simp [run]
  | cons id ids ih =>
    obtain ⟨hid, hnodup⟩ := List.nodup_cons.1 hnodup
    have hp : m.pending.contains id = true := hpending id (by simp)
    have hrest : ∀ other ∈ ids,
        ((m.dropQuery id).deliver id .gone).pending.contains other := by
      intro other ho
      have hne : other ≠ id := fun h => hid (h ▸ ho)
      rw [contains_dropQuery hne]
      exact hpending other (by simp [ho])
    have hlen : 2 * (id :: ids).length + 1 = (2 * ids.length + 1) + 1 + 1 := by
      simp only [List.length_cons]; omega
    rw [hlen, run, run]
    simp only [step, hp, if_true]
    rw [ih hnodup _ _ hrest]
    simp only [List.length_cons, List.foldl_cons]
    congr 2
    omega

/-- Failing the queries of a lost node is the uninterrupted run of its call. -/
theorem run_failing (m : Messenger) (target : String) :
    run written late (2 * (m.waitingFor target).length + 2) m (.failing target) =
      (.swept target (m.failPending target).1, (m.failPending target).2) := by
  have hpending : ∀ id ∈ m.waitingFor target, m.pending.contains id := by
    intro id hid
    simp [Table.contains, mem_waitingFor.1 hid]
  rw [run]
  simp only [step]
  rw [run_sweeping target _ (nodup_waitingFor m target) 0 m hpending]
  simp [failPending]

private theorem step_waiting_some {id : Uuid} {target : String} {r : Reply}
    (h : m.takeReply id = some (r, m')) :
    (Call.waiting id target).step written late m = (.returned id target r.result, m') := by
  simp [pickUp, h]

private theorem step_waiting_none {id : Uuid} {target : String} (h : m.takeReply id = none) :
    (Call.waiting id target).step written late m =
      (if late then .expiring id target else .waiting id target, m) := by
  simp [pickUp, h]

/-- A waiting query's job takes two steps of its call at once: when its time is up, it finds that
there is no outcome and takes itself out. -/
theorem step_waiting_job {σ : Type} [Transport σ] (s : Site σ) (id : Uuid) (target : String)
    (deadline : Nat) :
    (Query.waiting id deadline).step s =
      let p := run written (deadline ≤ s.noticed) 2 s.node.messenger (.waiting id target)
      (p.1.job deadline, s.withMessenger p.2) := by
  simp only [Query.step, Query.poll, run]
  cases h : s.node.messenger.takeReply id with
  | some p =>
    obtain ⟨r, m⟩ := p
    rw [step_waiting_some h]
    cases r <;> rfl
  | none =>
    rw [step_waiting_none h]
    by_cases hd : deadline ≤ s.noticed
    · simp only [hd, decide_true, if_true, Query.expire, step]
      split <;> rfl
    · simp only [hd, decide_false, Bool.false_eq_true, if_false]
      rw [step_waiting_none h]
      rfl

end Call
end Messenger
end Fleet

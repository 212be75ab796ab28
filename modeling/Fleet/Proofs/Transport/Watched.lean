import Fleet.Node.Dispatch
import Fleet.Transport.Scripted

/-!
# Watched connections

Any connections can be watched: every message that is handed to them is noted with its receiver and
with what came of it. A node on watched connections does what it does on the connections
themselves, and the record shows what it has written, in order.

## Main definitions

* `Watched` — connections with a record of what was written.
* `Site.written` — what was written on the way from one site to another.

## Main statements

* `Site.unwatched_send`, `Site.unwatched_respond`, `Query.unwatched_step`,
  `Creation.unwatched_step`, `Dispatch.unwatched_step` — watching changes nothing.
-/

namespace Fleet

/-- Connections, and every message that was handed to them. -/
structure Watched (σ : Type) where
  links : σ
  attempts : List Attempt

instance {σ : Type} [Transport σ] : Transport (Watched σ) where
  connections w id := Transport.connections w.links id
  write w sender receiver m :=
    let (r, links) := Transport.write w.links sender receiver m
    (r, ⟨links, w.attempts ++ [⟨receiver, r.isOk, m⟩]⟩)
  take? w k := (Transport.take? w.links k).map fun (e, links) => (e, { w with links })
  ended w k := Transport.ended w.links k
  hangUp w k := { w with links := Transport.hangUp w.links k }

variable {σ : Type}

namespace Site

/-- What was written on the way from one site to another. -/
def written (s s' : Site (Watched σ)) : List Attempt :=
  s'.links.attempts.drop s.links.attempts.length

theorem written_of_append {s s' : Site (Watched σ)} {new : List Attempt}
    (h : s'.links.attempts = s.links.attempts ++ new) : s.written s' = new := by
  rw [written, h, List.drop_left]

theorem written_of_eq {s s' : Site (Watched σ)} (h : s'.links = s.links) : s.written s' = [] := by
  rw [written, h, List.drop_length]

/-- The same site on connections that nobody watches. -/
def unwatched (s : Site (Watched σ)) : Site σ :=
  ⟨s.node, s.links.links, s.drawn, s.calls, s.clock, s.noticed, s.now⟩

variable [Transport σ]

theorem attempts_write (s : Site (Watched σ)) (receiver : String) (m : Message) :
    (s.write receiver m).2.links.attempts =
      s.links.attempts ++ [⟨receiver, (s.write receiver m).1.isOk, m⟩] := rfl

theorem unwatched_write (s : Site (Watched σ)) (receiver : String) (m : Message) :
    s.unwatched.write receiver m = (s.write receiver m).map id unwatched := rfl

theorem unwatched_writeAll (m : Message) (receivers : List String) (s : Site (Watched σ)) :
    writeAll m receivers s.unwatched = (writeAll m receivers s).map id unwatched := by
  induction receivers generalizing s with
  | nil => rfl
  | cons receiver rest ih =>
    simp only [writeAll, unwatched_write, Prod.map_fst, Prod.map_snd, ih]
    rfl

theorem unwatched_send (s : Site (Watched σ)) (m : Message) :
    s.unwatched.send m = (s.send m).map id unwatched := unwatched_writeAll m _ s

theorem unwatched_respond (s : Site (Watched σ)) (d : Delivery) (content : Bytes) :
    s.unwatched.respond d content = (s.respond d content).map id unwatched := by
  have hnode : s.unwatched.node = s.node := rfl
  simp only [respond, hnode]
  cases s.node.messenger.claimAnswer d <;> rfl

end Site

variable [Transport σ]

theorem Query.unwatched_step (s : Site (Watched σ)) (q : Query) :
    q.step s.unwatched = (q.step s).map id Site.unwatched := by
  have hnode : s.unwatched.node = s.node := rfl
  have hnoticed : s.unwatched.noticed = s.noticed := rfl
  cases q with
  | opening m timeout =>
    have hresolve : s.unwatched.resolve m.targets = s.resolve m.targets := rfl
    simp only [step, hresolve]
    split <;> rfl
  | writing id target m timeout =>
    simp only [step, Site.unwatched_write]
    cases h : s.write target m with
    | mk r t => cases r <;> rfl
  | waiting id deadline =>
    simp only [step, poll, expire, hnode, hnoticed]
    cases s.node.messenger.takeReply id with
    | some r => rfl
    | none =>
      dsimp only
      split
      · split <;> rfl
      · rfl
  | overdue id =>
    simp only [step, poll, hnode]
    cases s.node.messenger.takeReply id <;> rfl
  | done r => rfl

theorem Creation.unwatched_step (s : Site (Watched σ)) (c : Creation) :
    c.step s.unwatched = (c.step s).map id Site.unwatched := by
  have hnode : s.unwatched.node = s.node := rfl
  cases c with
  | routing spec =>
    simp only [step, check, hnode]
    cases spec.fault? with
    | some fault => rfl
    | none =>
      dsimp only
      split <;> rfl
  | placing spec =>
    simp only [step, check]
    cases spec.fault? <;> rfl
  | choosing spec =>
    simp only [step, hnode]
    cases s.node.choose spec <;> rfl
  | asking node q =>
    cases q with
    | done r => rfl
    | opening | writing | waiting | overdue =>
      simp only [step, Query.unwatched_step]
      rfl
  | done r => rfl

theorem Dispatch.unwatched_step (s : Site (Watched σ)) (d : Dispatch) :
    d.step s.unwatched = (d.step s).map id Site.unwatched := by
  have hnode : s.unwatched.node = s.node := rfl
  cases d with
  | opening d => rfl
  | firing ticket e rest =>
    cases rest with
    | nil => rfl
    | cons h rest =>
      cases h with
      | recorder label answers => rfl
      | storeLoad =>
        simp only [step, fire, storeLoad, hnode]
        cases (Json.read? e.message.content).bind Load.ofJson? with
        | none => rfl
        | some l => cases h : s.node.roster.report e.message.sender l <;> simp only [h] <;> rfl
      | startHere =>
        simp only [step, fire, startHere, hnode]
        cases request? s.node e.message <;> rfl
      | startAsHead =>
        simp only [step, fire, hnode]
        cases request? s.node e.message <;> rfl
  | placing ticket e c rest =>
    cases c with
    | done r => rfl
    | routing | placing | choosing | asking =>
      simp only [step, Creation.unwatched_step]
      rfl
  | answering ticket e =>
    simp only [step, Site.unwatched_respond]
    rfl
  | done => rfl

end Fleet

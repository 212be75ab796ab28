import Fleet.Proofs.Cluster.Effects
import Fleet.Proofs.Transport.Reports

/-!
# Steps that spare a link

The nodes of a network only write to mailboxes, take events out of them and stop receiving. So a
link is cut, and a node goes away, only in steps in which the world moves: as long as there is no
such step, a node gets no report that a peer is gone.
-/

namespace Fleet

open Relation (ReflTransGen)

/-! ### What nodes do with a network -/

/-- What a task has done with the network on its way from one site to another. -/
def Site.Uses (s s' : Site Network) : Prop := ReflTransGen Network.Used s.links s'.links

/-- On its way from one site to another a task has only written messages. -/
def Site.Writes (s s' : Site Network) : Prop := ReflTransGen Network.Written s.links s'.links

theorem Site.Writes.uses {s s' : Site Network} (h : s.Writes s') : s.Uses s' := by
  refine ReflTransGen.mono (fun n n' hwritten => ?_) _ _ h
  obtain ⟨sender, receiver, m, rfl⟩ := hwritten
  exact .write sender receiver m

namespace Site

variable {s s' : Site Network}

theorem writes_write (s : Site Network) (receiver : String) (m : Message) :
    s.Writes (s.write receiver m).2 := .single ⟨s.node.id, receiver, m, rfl⟩

theorem writes_writeAll (m : Message) (receivers : List String) (s : Site Network) :
    s.Writes (writeAll m receivers s).2 := by
  induction receivers generalizing s with
  | nil => exact .refl
  | cons receiver rest ih => exact (s.writes_write receiver m).trans (ih (s.write receiver m).2)

theorem writes_publish (s : Site Network) (cpu : Binary64) : s.Writes (s.publish cpu).2 := by
  obtain ⟨roster, heq, -⟩ := s.storeOwn_eq (s.node.ledger.load cpu s.now)
  unfold publish
  simp only [heq]
  split
  · exact writes_writeAll _ _ (s.withRoster roster)
  · exact .refl

theorem writes_respond (s : Site Network) (d : Delivery) (content : Bytes) :
    s.Writes (s.respond d content).2 := by
  unfold respond
  cases s.node.messenger.claimAnswer d with
  | error => exact .refl
  | ok messenger => exact (s.withMessenger messenger).writes_write _ _

theorem links_handle {σ : Type} (s : Site σ) (e : TransportEvent) :
    (s.handle e).links = s.links := by
  cases e with
  | connected | disconnected => rfl
  | message m =>
    change (s.receive m).links = s.links
    unfold receive
    split
    · split <;> rfl
    · rfl

end Site

variable {s s' : Site Network}

theorem Query.Move.writes {q q' : Query} (hmove : Query.Move s q q' s') : s.Writes s' := by
  cases hmove with
  | written | unwritten => exact s.writes_write _ _
  | enters | unaddressed | picks | expires | late | rests => exact .refl

theorem Creation.Move.writes {c c' : Creation} (hmove : Creation.Move s c c' s') : s.Writes s' := by
  cases hmove with
  | refuses | leads | refreshes | starts | sends | concludes | rests => exact .refl
  | asks _ hmove => exact hmove.writes

theorem Dispatch.Move.writes {d d' : Dispatch} (hmove : Dispatch.Move s d d' s') : s.Writes s' := by
  cases hmove with
  | opens | ends | records | ignores | starts | places | resumes | rests => exact .refl
  | @stores ticket e =>
    obtain ⟨roster, heq, -⟩ := storeLoad_eq e.message s
    rw [heq]
    exact .refl
  | creates _ hmove => exact hmove.writes
  | answers => exact s.writes_respond _ _

theorem Work.Move.writes {work work' : Work} (hmove : Work.Move s work work' s') : s.Writes s' := by
  cases hmove with
  | query hmove | creation hmove | dispatch hmove => exact hmove.writes

namespace Cluster

theorem Move.uses {w w' : Cluster Network} {t : Task} (hmove : Move w t w') :
    ReflTransGen Network.Used w.links w'.links := by
  cases hmove with
  | @job n j station work s hjob hplace hmove =>
    obtain ⟨creations, heq⟩ := retire_eq s j.work work
    change ReflTransGen Network.Used w.links (retire j.work work s).links
    rw [heq]
    exact hmove.writes.uses
  | works hplace hqueue hcurrent hmove => exact hmove.writes.uses
  | @follows place station f e links hplace hfollower htake =>
    change ReflTransGen Network.Used w.links ((({ w with links }).site station).handle e).links
    rw [Site.links_handle]
    exact .single (.take htake)
  | @looks place station f f' links hplace hfollower hmailbox hlinks =>
    rcases hlinks with rfl | rfl
    · exact .refl
    · exact .single (.hangUp f.mailbox)
  | @reports place k station publishers hplace => exact ((w.site station).writes_publish w.cpu).uses
  | closes | takes | waits | rests => exact .refl

theorem Move.noticed {σ : Type} [Transport σ] {w w' : Cluster σ} {t : Task} (hmove : Move w t w') :
    w'.noticed = w.noticed := by
  cases hmove <;> rfl

end Cluster

/-! ### Calm steps -/

namespace History

variable {P : Listeners Handler → Prop} {h h' : History Network} {a b : String} {deadline : Nat}

/-- A step before a deadline in which two nodes stay and their link is not cut. -/
structure Calm (P : Listeners Handler → Prop) (a b : String) (deadline : Nat)
    (h h' : History Network) : Prop where
  next : Next P h h'
  spares : Network.Spares a b h.cluster.links h'.cluster.links
  early : h.cluster.noticed < deadline

/-- Whatever tasks do is calm. -/
theorem calm_run (hearly : h.cluster.noticed < deadline) (tasks : List Task) :
    ReflTransGen (Calm P a b deadline) h (h.run tasks) := by
  induction tasks generalizing h with
  | nil => exact .refl
  | cons t rest ih =>
    have hmove := Cluster.move_step h.cluster t
    have hstep : Calm P a b deadline h (h.run [t]) := ⟨.task h t, .used hmove.uses, hearly⟩
    have hrest := ih (h := h.run [t]) (hmove.noticed.trans_lt hearly)
    exact .head hstep hrest

end History

end Fleet

import Fleet.Proofs.Node.Keeps
import Fleet.Transport.Network

/-!
# Turns in the inbound queues

The task of a queue works on one message after another, in the order in which they came to the
queue, and while the queue of a sender is open all its messages go there.  So the work on a message
begins only when the work on the earlier ones of its sender is over, unless the sender's queue was
closed between the two.  Then the later message has come to a queue of its own, and nothing keeps
the task of that queue from being the faster one.

What comes to the queues and what is done there is noted in a log, whatever else the node does in
between.

## Main definitions

* `Inbound.Note` — what is noted of the queues.
* `Inbound.InTurn` — a queue works on its messages in the order of their arrival.
* `Site.Attends` — a node has come from one state to another and attended to its queues.

## Main statements

* `Site.Attends.orderly` — what holds of a node and its log.
* `Site.Attends.begun_in_turn` — the order of the messages of a sender.
* `Site.overtaken` — a message overtakes one that came before its sender's queue was closed.
-/

namespace Fleet

open List

/-! ### Lists in which one thing comes before another -/

section Lists

variable {α : Type}

theorem pair_sublist_concat {l : List α} {a b c : α} :
    [a, b] <+ l ++ [c] ↔ [a, b] <+ l ∨ b = c ∧ a ∈ l := by
  have h : [b, a] <+ c :: l.reverse ↔ [b, a] <+ l.reverse ∨ b = c ∧ [a] <+ l.reverse :=
    cons_sublist_cons'
  rwa [← reverse_concat, singleton_sublist, mem_reverse, show [b, a] = [a, b].reverse from rfl,
    reverse_sublist, reverse_sublist] at h

/-- Two members of a list without repetition stand in its first part if the second of them does. -/
theorem pair_sublist_left {l r : List α} {a b : α} (hnodup : (l ++ r).Nodup)
    (h : [a, b] <+ l ++ r) (hb : b ∈ l) : [a, b] <+ l := by
  obtain ⟨x, y, heq, hx, hy⟩ := sublist_append_iff.1 h
  rcases eq_nil_or_concat y with rfl | ⟨y', c, rfl⟩
  · rw [append_nil] at heq
    exact heq ▸ hx
  · have hc : b = c := by
      have hlast := congrArg getLast? heq
      simpa using hlast
    have hr : b ∈ r := hc ▸ hy.subset (by simp)
    exact ((nodup_append.1 hnodup).2.2 b hb b hr rfl).elim

end Lists

/-! ### The log of the queues -/

instance : DecidableEq Delivery := fun d e =>
  decidable_of_iff (d.message = e.message ∧ d.ticket = e.ticket) (by cases d; cases e; simp)

namespace Inbound

/-- What is noted of the queues of a node. -/
inductive Note where
  /-- A message has come to a queue. -/
  | arrived (queue : Nat) (d : Delivery)
  /-- The queue of a sender was closed. -/
  | closed (sender : String)
  /-- The work on a message of a queue has begun. -/
  | begun (queue : Nat) (d : Delivery)
  /-- The work on a message of a queue is over. -/
  | ended (queue : Nat) (d : Delivery)
deriving DecidableEq

namespace Note

/-- The message that has come to a queue. -/
def arrival? (queue : Nat) : Note → Option Delivery
  | .arrived n d => if n = queue then some d else none
  | .closed _ | .begun .. | .ended .. => none

/-- Whether a note is about the work of a queue. -/
def ofWork (queue : Nat) : Note → Bool
  | .begun n _ | .ended n _ => n = queue
  | .arrived .. | .closed _ => false

/-- The ticket of a message that has come. -/
def ticket? : Note → Option Nat
  | .arrived _ d => some d.ticket
  | .closed _ | .begun .. | .ended .. => none

end Note

/-- The messages that have come to a queue. -/
def arrivals (queue : Nat) (log : List Note) : List Delivery := log.filterMap (·.arrival? queue)

/-- The work of a queue. -/
def workOf (queue : Nat) (log : List Note) : List Note := log.filter (·.ofWork queue)

/-- The work on a message from beginning to end. -/
def wholeWork (queue : Nat) (d : Delivery) : List Note := [.begun queue d, .ended queue d]

/-- A queue has worked on its messages in the order of their arrival: on the first ones from
beginning to end, then on the one that it works on now, and on none of those that wait. -/
def InTurn (queue : Nat) (log : List Note) (now : Option Delivery) (waiting : List Delivery) :
    Prop :=
  ∃ past : List Delivery, arrivals queue log = past ++ now.toList ++ waiting ∧
    workOf queue log = past.flatMap (wholeWork queue) ++ now.toList.map (.begun queue)

section Log

variable {queue : Nat} {log : List Note} {now : Option Delivery} {waiting : List Delivery}

theorem arrivals_append (log log' : List Note) :
    arrivals queue (log ++ log') = arrivals queue log ++ arrivals queue log' := filterMap_append

theorem workOf_append (log log' : List Note) :
    workOf queue (log ++ log') = workOf queue log ++ workOf queue log' := filter_append ..

theorem map_ticket_arrivals (queue : Nat) (log : List Note) :
    (arrivals queue log).map (·.ticket) <+ log.filterMap (·.ticket?) := by
  induction log with
  | nil => exact .slnil
  | cons x rest ih =>
    cases x with
    | arrived n d =>
      simp only [arrivals, filterMap_cons, Note.arrival?, Note.ticket?]
      split
      · exact ih.cons _
      · next h =>
        obtain ⟨-, heq⟩ := Option.ite_none_right_eq_some.1 h
        exact Option.some.inj heq ▸ ih.cons_cons _
    | closed | begun | ended => exact ih

/-- A note about something else changes nothing. -/
theorem InTurn.aside (h : InTurn queue log now waiting) {x : Note}
    (harrival : x.arrival? queue = none) (hwork : x.ofWork queue = false) :
    InTurn queue (log ++ [x]) now waiting := by
  obtain ⟨past, harrivals, hworkOf⟩ := h
  refine ⟨past, ?_, ?_⟩
  · rw [arrivals_append, harrivals, arrivals, filterMap_cons_none harrival, filterMap_nil,
      append_nil]
  · rw [workOf_append, hworkOf, workOf, filter_cons_of_neg (by simp [hwork]), filter_nil,
      append_nil]

theorem InTurn.arrives (h : InTurn queue log now waiting) (d : Delivery) :
    InTurn queue (log ++ [.arrived queue d]) now (waiting ++ [d]) := by
  obtain ⟨past, harrivals, hworkOf⟩ := h
  refine ⟨past, ?_, ?_⟩
  · have hd : arrivals queue [.arrived queue d] = [d] := by simp [arrivals, Note.arrival?]
    rw [arrivals_append, harrivals, hd, append_assoc]
  · rw [workOf_append, hworkOf]
    exact append_nil _

theorem InTurn.begins {d : Delivery} (h : InTurn queue log none (d :: waiting)) :
    InTurn queue (log ++ [.begun queue d]) (some d) waiting := by
  obtain ⟨past, harrivals, hworkOf⟩ := h
  refine ⟨past, ?_, ?_⟩
  · rw [arrivals_append, harrivals]
    simp [arrivals, Note.arrival?]
  · rw [workOf_append, hworkOf]
    simp [workOf, Note.ofWork]

theorem InTurn.ends {d : Delivery} (h : InTurn queue log (some d) waiting) :
    InTurn queue (log ++ [.ended queue d]) none waiting := by
  obtain ⟨past, harrivals, hworkOf⟩ := h
  refine ⟨past ++ [d], ?_, ?_⟩
  · rw [arrivals_append, harrivals]
    simp [arrivals, Note.arrival?]
  · rw [workOf_append, hworkOf]
    simp [workOf, Note.ofWork, wholeWork]

/-- If one of two messages that are not waiting came after the other, the work on it began when the
work on the other was over. -/
theorem begun_after {past : List Delivery} {d e : Delivery}
    (h : [d, e] <+ past ++ now.toList) :
    [.begun queue d, .ended queue d, .begun queue e] <+
      past.flatMap (wholeWork queue) ++ now.toList.map (.begun queue) := by
  obtain ⟨x, y, heq, hx, hy⟩ := sublist_append_iff.1 h
  have hnow : y.length ≤ 1 := hy.length_le.trans (by cases now <;> simp)
  refine Sublist.trans ?_ ((hx.flatMap (wholeWork queue)).append (hy.map (Note.begun queue)))
  match x, y, heq with
  | [], y, heq =>
    rw [nil_append] at heq
    rw [← heq] at hnow
    exact absurd hnow (by simp)
  | [_], _, heq =>
    cases heq
    exact .refl _
  | [_, _], _, heq =>
    cases heq
    exact sublist_append_left _ [Note.ended queue e]

/-- The messages of a queue are worked on one after another. -/
theorem InTurn.begun_in_order (h : InTurn queue log now waiting)
    (hnodup : (arrivals queue log).Nodup) {d e : Delivery}
    (harrived : [.arrived queue d, .arrived queue e] <+ log) (hbegun : .begun queue e ∈ log) :
    [.begun queue d, .ended queue d, .begun queue e] <+ log := by
  obtain ⟨past, harrivals, hworkOf⟩ := h
  have hpair : [d, e] <+ past ++ now.toList ++ waiting := by
    have hmap := harrived.filterMap (·.arrival? queue)
    simp only [filterMap_cons_some (show Note.arrival? queue (.arrived queue _) = some _ from
      if_pos rfl), filterMap_nil] at hmap
    exact harrivals ▸ hmap
  have he : e ∈ past ++ now.toList := by
    have hmem : .begun queue e ∈ workOf queue log := mem_filter.2 ⟨hbegun, by simp [Note.ofWork]⟩
    rw [hworkOf] at hmem
    simpa [wholeWork] using hmem
  have hpast := pair_sublist_left (harrivals ▸ hnodup) hpair he
  exact (hworkOf ▸ begun_after hpast).trans filter_sublist

end Log

/-! ### The queues of a node -/

/-- Queues have numbers that were given out, and the open queue of a sender is one of them. -/
structure Linked {ω : Type} (b : Inbound ω) : Prop where
  tidy : b.Tidy
  found : ∀ sender n, b.bySender.get? sender = some n → ∃ q, b.queues.get? n = some q

/-- The queue to which the next message of a sender goes. -/
def place {ω : Type} (b : Inbound ω) (sender : String) : Nat :=
  (b.bySender.get? sender).getD b.next

section Queues

variable {ω : Type} {b : Inbound ω}

theorem linked_empty : Linked (empty : Inbound ω) :=
  ⟨fun _ _ h => (nomatch h), fun _ _ h => (nomatch h)⟩

theorem Linked.modify (h : b.Linked) (n : Nat) (f : Queue ω → Queue ω) :
    Linked { b with queues := b.queues.modify n f } := by
  refine ⟨h.tidy.modify n f, fun sender k hk => ?_⟩
  obtain ⟨q, hq⟩ := h.found sender k hk
  dsimp only
  rw [Table.get?_modify]
  split
  · next heq =>
    rw [← heq, hq]
    exact ⟨f q, rfl⟩
  · exact ⟨q, hq⟩

theorem Linked.close (h : b.Linked) (sender : String) : (b.close sender).2.Linked := by
  refine ⟨h.tidy, fun other n hn => h.found other n ?_⟩
  have hget : (b.bySender.erase sender).get? other = some n := hn
  rw [Table.get?_erase] at hget
  split at hget
  · cases hget
  · exact hget

/-- The queue that a message comes to is the open one of its sender from then on. -/
theorem bySender_push (b : Inbound ω) (d : Delivery) (sender : String) :
    (b.push d).bySender.get? sender =
      if sender = d.message.sender then some (b.place sender) else b.bySender.get? sender := by
  unfold push place
  dsimp only
  split
  · next n hn =>
    split
    · next heq => rw [heq, hn, Option.getD_some]
    · rfl
  · next hnone =>
    dsimp only
    rw [Table.get?_insert]
    split
    · next heq => rw [heq, hnone, Option.getD_none]
    · rfl

/-- A message goes to the end of its sender's queue. -/
theorem queues_push (h : b.Linked) (d : Delivery) (n : Nat) :
    (b.push d).queues.get? n =
      if n = b.place d.message.sender then
        some (((b.queues.get? n).getD ⟨d.message.sender, [], none⟩).push d)
      else b.queues.get? n := by
  unfold push place
  dsimp only
  split
  · next k hk =>
    obtain ⟨q, hq⟩ := h.found _ k hk
    rw [Table.get?_modify, hk, Option.getD_some]
    split
    · next heq => rw [heq, hq, Option.map_some, Option.getD_some]
    · rfl
  · next hnone =>
    have hnew : b.queues.get? b.next = none :=
      Option.eq_none_iff_forall_ne_some.2 fun q hq => (h.tidy _ q hq).ne rfl
    dsimp only
    rw [Table.get?_insert, hnone, Option.getD_none]
    split
    · next heq =>
      rw [heq, hnew]
      rfl
    · rfl

theorem Linked.push (h : b.Linked) (d : Delivery) : (b.push d).Linked := by
  refine ⟨h.tidy.push d, fun sender n hn => ?_⟩
  rw [queues_push h]
  split
  · exact ⟨_, rfl⟩
  · next hne =>
    rw [bySender_push] at hn
    split at hn
    · next heq => exact (hne (heq ▸ (Option.some.inj hn).symm)).elim
    · exact h.found sender n hn

end Queues

end Inbound

/-- The message that work is about, until the work is over. -/
def Dispatch.delivery? : Dispatch → Option Delivery
  | .opening d => some d
  | .firing ticket e _ | .placing ticket e _ _ | .answering ticket e => some ⟨e.message, ticket⟩
  | .done => none

namespace Inbound

variable {b : Inbound Dispatch}

/-- The message that a queue works on. -/
def Queue.now (q : Queue Dispatch) : Option Delivery := q.current.bind (·.delivery?)

/-- The message that a queue works on. -/
def now (b : Inbound Dispatch) (queue : Nat) : Option Delivery :=
  (b.queues.get? queue).bind (·.now)

/-- The messages that wait in a queue. -/
def waiting (b : Inbound Dispatch) (queue : Nat) : List Delivery :=
  ((b.queues.get? queue).map (·.waiting)).getD []

theorem now_push (h : b.Linked) (d : Delivery) (n : Nat) : (b.push d).now n = b.now n := by
  rw [now, now, queues_push h]
  split
  · cases b.queues.get? n <;> rfl
  · rfl

theorem waiting_push (h : b.Linked) (d : Delivery) (n : Nat) :
    (b.push d).waiting n =
      if n = b.place d.message.sender then b.waiting n ++ [d] else b.waiting n := by
  rw [waiting, waiting, queues_push h]
  split
  · cases b.queues.get? n <;> rfl
  · rfl

end Inbound

/-! ### Steps of a node -/

/-- What concerns the queues of a node. -/
inductive Inbound.Act where
  /-- A message is taken in. -/
  | receive (m : Message)
  /-- The queue of a sender is closed. -/
  | close (sender : String)
  /-- The task of a queue takes its next step. -/
  | drain (queue : Nat)

namespace Site

variable {σ : Type} [Transport σ]

/-- The node takes a step with its queues. -/
def attend (s : Site σ) : Inbound.Act → Site σ
  | .receive m => s.receive m
  | .close sender => { s with node := { s.node with inbound := (s.node.inbound.close sender).2 } }
  | .drain queue => s.drainStep queue

/-- What a step of the task of a queue means for the message that it works on: it begins with the
work on one or ends it. -/
def turned (queue : Nat) (before after : Option Delivery) : List Inbound.Note :=
  if before.map (·.ticket) = after.map (·.ticket) then []
  else (before.map (.ended queue)).toList ++ (after.map (.begun queue)).toList

/-- What is noted of a step. -/
def notes (s : Site σ) : Inbound.Act → List Inbound.Note
  | .receive m =>
    if m.isResponse then []
    else [.arrived (s.node.inbound.place m.sender) ⟨m, s.node.messenger.nextTicket⟩]
  | .close sender => [.closed sender]
  | .drain queue =>
    turned queue (s.node.inbound.now queue) ((s.drainStep queue).node.inbound.now queue)

/-- What leaves the queues alone; tickets may be drawn. -/
structure Spares (s s' : Site σ) : Prop where
  inbound : s'.node.inbound = s.node.inbound
  tickets : s.node.messenger.nextTicket ≤ s'.node.messenger.nextTicket

/-- A node has come from one state to another; the notes of what it did with its queues are in a
log. -/
inductive Attends (start : Site σ) : List Inbound.Note → Site σ → Prop
  | start : Attends start [] start
  | attends {log : List Inbound.Note} {s : Site σ} (h : Attends start log s) (x : Inbound.Act) :
      Attends start (log ++ s.notes x) (s.attend x)
  | elsewhere {log : List Inbound.Note} {s s' : Site σ} (h : Attends start log s)
      (hspares : s.Spares s') : Attends start log s'

end Site

/-! ### What activities and events do to the queues -/

section Activities

variable {σ : Type} [Transport σ] {s s' : Site σ}

theorem Query.Move.spares {q q' : Query} (h : Query.Move s q q' s') : s.Spares s' := by
  cases h <;> exact ⟨rfl, le_refl _⟩

theorem Creation.Move.spares {c c' : Creation} (h : Creation.Move s c c' s') : s.Spares s' := by
  refine ⟨h.inbound, ?_⟩
  cases h with
  | refuses | leads | starts | sends | concludes | rests => exact le_refl _
  | refreshes =>
    obtain ⟨roster, heq, -⟩ := s.node.exists_refreshLoad s.now
    rw [heq]
  | asks _ hmove => exact hmove.spares.tickets

theorem Dispatch.Move.spares {d d' : Dispatch} (h : Dispatch.Move s d d' s') : s.Spares s' := by
  refine ⟨h.inbound, ?_⟩
  cases h with
  | opens | ends | ignores | rests | records | places | resumes | starts => exact le_refl _
  | @stores ticket e =>
    obtain ⟨roster, heq, -⟩ := storeLoad_eq e.message s
    rw [heq]
    exact le_refl _
  | creates _ hmove => exact hmove.spares.tickets
  | @answers ticket e =>
    unfold Site.respond
    cases h : s.node.messenger.claimAnswer ⟨e.message, ticket⟩ with
    | error => exact le_refl _
    | ok messenger =>
      obtain ⟨-, answered, rfl⟩ := Messenger.exists_claimAnswer h
      exact le_refl _

theorem Site.spares_publish (s : Site σ) (cpu : Binary64) : s.Spares (s.publish cpu).2 := by
  obtain ⟨roster, heq, -⟩ := s.storeOwn_eq (s.node.ledger.load cpu s.now)
  unfold publish
  simp only [heq]
  split
  · next m _ =>
    have hnode := (s.withRoster roster).node_send m
    exact ⟨congrArg (·.inbound) hnode, (congrArg (·.messenger.nextTicket) hnode).ge⟩
  · exact ⟨rfl, le_refl _⟩

/-- Work goes on about the same message until it is over. -/
theorem Dispatch.Move.delivery {d d' : Dispatch} (h : Dispatch.Move s d d' s') :
    d'.delivery? = d.delivery? ∨ d'.delivery? = none := by
  cases h with
  | opens | stores | ignores | places | creates => exact .inl rfl
  | ends =>
    split
    · exact .inl rfl
    · exact .inr rfl
  | records label answers =>
    exact .inl (by simp only [delivery?, (Event.answered_answerAll _ answers).message,
      record, Event.record])
  | starts | resumes =>
    exact .inl (by simp only [delivery?, (Event.answered_answerWith _ _).message])
  | answers | rests => exact .inr rfl

/-- What is noted of an event. -/
def Site.eventNotes (s : Site σ) : TransportEvent → List Inbound.Note
  | .connected _ => []
  | .disconnected id => s.notes (.close id)
  | .message m => s.notes (.receive m)

/-- A peer that goes away leaves its queue closed, and a message is taken in. -/
theorem Site.Attends.handle {start : Site σ} {log : List Inbound.Note}
    (h : start.Attends log s) (e : TransportEvent) :
    start.Attends (log ++ s.eventNotes e) (s.handle e) := by
  cases e with
  | connected peer =>
    obtain ⟨roster, heq, -⟩ := s.node.connected_eq peer
    have hspares : s.Spares (s.handle (.connected peer)) := by
      change s.Spares { s with node := s.node.connected peer }
      rw [heq]
      exact ⟨rfl, le_refl _⟩
    rw [eventNotes, append_nil]
    exact h.elsewhere hspares
  | disconnected id =>
    obtain ⟨pending, replies, heq⟩ := s.node.messenger.exists_failPending id
    refine (h.attends (.close id)).elsewhere ⟨rfl, ?_⟩
    change _ ≤ (s.node.messenger.failPending id).2.nextTicket
    rw [heq]
    exact le_refl _
  | message m => exact h.attends (.receive m)

end Activities

/-! ### The steps of a task -/

namespace Inbound

/-- How the task of a queue goes on: it begins with the first message that waits, ends the work on a
message, or does nothing that is noted. -/
inductive Goes (queue : Nat) :
    Option Delivery → List Delivery → List Note → Option Delivery → List Delivery → Prop
  | begins (d : Delivery) (rest : List Delivery) :
      Goes queue none (d :: rest) [.begun queue d] (some d) rest
  | ends (d : Delivery) (rest : List Delivery) :
      Goes queue (some d) rest [.ended queue d] none rest
  | rests (now : Option Delivery) (rest : List Delivery) : Goes queue now rest [] now rest

section Goes

variable {queue n : Nat} {log notes : List Note} {now now' : Option Delivery}
  {waiting waiting' : List Delivery}

theorem Goes.notes_eq (h : Goes queue now waiting notes now' waiting') :
    notes = [] ∨ ∃ x, notes = [x] ∧ x.ticket? = none ∧
      ∀ n, n ≠ queue → x.ofWork n = false := by
  cases h with
  | begins d | ends d =>
    refine .inr ⟨_, rfl, rfl, fun n hn => ?_⟩
    simpa [Note.ofWork] using Ne.symm hn
  | rests => exact .inl rfl

theorem Goes.inTurn (h : Goes queue now waiting notes now' waiting')
    (hturn : InTurn queue log now waiting) : InTurn queue (log ++ notes) now' waiting' := by
  cases h with
  | begins => exact hturn.begins
  | ends => exact hturn.ends
  | rests =>
    rw [append_nil]
    exact hturn

theorem arrival?_eq_none {x : Note} (h : x.ticket? = none) (n : Nat) : x.arrival? n = none := by
  cases x with
  | arrived => cases h
  | closed | begun | ended => rfl

/-- The other queues are not concerned. -/
theorem Goes.aside (h : Goes queue now waiting notes now' waiting') (hn : n ≠ queue)
    {now waiting} (hturn : InTurn n log now waiting) : InTurn n (log ++ notes) now waiting := by
  obtain rfl | ⟨x, rfl, hticket, hwork⟩ := h.notes_eq
  · rw [append_nil]
    exact hturn
  · exact hturn.aside (arrival?_eq_none hticket n) (hwork n hn)

end Goes

variable {b : Inbound Dispatch} {queue : Nat} {q : Queue Dispatch}

theorem now_modify (hq : b.queues.get? queue = some q) (f : Queue Dispatch → Queue Dispatch)
    (n : Nat) :
    now { b with queues := b.queues.modify queue f } n =
      if n = queue then (f q).now else b.now n := by
  rw [now, Table.get?_modify, hq]
  split <;> rfl

theorem waiting_modify (hq : b.queues.get? queue = some q)
    (f : Queue Dispatch → Queue Dispatch) (n : Nat) :
    waiting { b with queues := b.queues.modify queue f } n =
      if n = queue then (f q).waiting else b.waiting n := by
  rw [waiting, Table.get?_modify, hq]
  split <;> rfl

end Inbound

namespace Site

variable {σ : Type} [Transport σ] {s : Site σ} {queue : Nat}

theorem turned_self (queue : Nat) (now : Option Delivery) : turned queue now now = [] := if_pos rfl

/-- The step of a task changes its queue, and goes on with it. -/
theorem exists_drainStep {q : Inbound.Queue Dispatch}
    (hq : s.node.inbound.queues.get? queue = some q) :
    ∃ f, (s.drainStep queue).node.inbound = { s.node.inbound with
        queues := s.node.inbound.queues.modify queue f } ∧
      s.node.messenger.nextTicket ≤ (s.drainStep queue).node.messenger.nextTicket ∧
      Inbound.Goes queue q.now q.waiting (turned queue q.now (f q).now) (f q).now
        (f q).waiting := by
  obtain ⟨sender, waiting, current⟩ := q
  cases current with
  | none =>
    refine ⟨(·.startNext .opening), ?_, ?_, ?_⟩
    · simp only [drainStep, hq]
      rfl
    · simp only [drainStep, hq]
      exact le_refl _
    · cases waiting with
      | nil => exact .rests none []
      | cons d rest => exact .begins d rest
  | some d =>
    by_cases hdone : d = .done
    · subst hdone
      refine ⟨({ · with current := none }), ?_, ?_, .rests none waiting⟩
      · simp only [drainStep, hq]
        rfl
      · simp only [drainStep, hq]
        exact le_refl _
    · have hmove := Dispatch.move_step s d
      have hstep : s.drainStep queue = { (d.step s).2 with node := { (d.step s).2.node with
          inbound := (d.step s).2.node.inbound.setCurrent queue (some (d.step s).1) } } := by
        simp only [drainStep, hq]
      refine ⟨({ · with current := some (d.step s).1 }), ?_, ?_, ?_⟩
      · rw [hstep]
        exact congrArg (·.setCurrent queue (some (d.step s).1)) hmove.spares.inbound
      · rw [hstep]
        exact hmove.spares.tickets
      · change Inbound.Goes queue d.delivery? waiting
          (turned queue d.delivery? (d.step s).1.delivery?) (d.step s).1.delivery? waiting
        rcases hmove.delivery with hsame | hover
        · rw [hsame, turned_self]
          exact .rests _ _
        · rw [hover]
          cases hd : d.delivery? with
          | none => exact .rests none waiting
          | some x => exact .ends x waiting

end Site

/-! ### Where messages have gone -/

namespace Inbound

/-- The log agrees with the tickets given out and with the open queues. -/
structure Filed (log : List Note) (b : Inbound Dispatch) (ticket : Nat) : Prop where
  stamped : ∀ t ∈ log.filterMap (·.ticket?), t < ticket
  /-- Tickets are given out in the order of arrival. -/
  ordered : (log.filterMap (·.ticket?)).Pairwise (· < ·)
  /-- A queue that a message went to is still the open one of its sender unless it was closed. -/
  opened : ∀ n d, .arrived n d ∈ log → ¬ [.arrived n d, .closed d.message.sender] <+ log →
    b.bySender.get? d.message.sender = some n
  /-- Messages between which their sender's queue was not closed went to one queue. -/
  together : ∀ n k d e, [.arrived n d, .arrived k e] <+ log →
    d.message.sender = e.message.sender →
      ¬ [.arrived n d, .closed d.message.sender, .arrived k e] <+ log → k = n

variable {log : List Note} {b b' : Inbound Dispatch} {ticket ticket' : Nat}

theorem filed_nil : Filed [] b ticket :=
  ⟨fun _ h => (nomatch h), .nil, fun _ _ h => (nomatch h), fun _ _ _ _ h => (nomatch h)⟩

theorem Filed.mono (h : Filed log b ticket) (hle : ticket ≤ ticket') : Filed log b ticket' :=
  { h with stamped := fun t ht => (h.stamped t ht).trans_le hle }

/-- No message is noted twice at a queue. -/
theorem Filed.nodup (h : Filed log b ticket) (queue : Nat) : (arrivals queue log).Nodup :=
  .of_map _ ((h.ordered.sublist (map_ticket_arrivals queue log)).imp Nat.ne_of_lt)

/-- Something is noted that is no arrival; only the closing of a queue changes which are open. -/
theorem Filed.aside (h : Filed log b ticket) {x : Note} (hx : x.ticket? = none)
    (hopen : ∀ sender, x ≠ .closed sender →
      b'.bySender.get? sender = b.bySender.get? sender) : Filed (log ++ [x]) b' ticket := by
  have htickets : (log ++ [x]).filterMap (·.ticket?) = log.filterMap (·.ticket?) := by
    rw [filterMap_append, filterMap_cons_none hx, filterMap_nil, append_nil]
  have hne : ∀ n d, x ≠ .arrived n d := fun n d heq => by simp [heq, Note.ticket?] at hx
  have hlog : log <+ log ++ [x] := sublist_append_left ..
  refine ⟨htickets ▸ h.stamped, htickets ▸ h.ordered, fun n d hmem hclosed => ?_,
    fun n k d e hpair hsender hclosed => ?_⟩
  · have hold : .arrived n d ∈ log :=
      (mem_append.1 hmem).resolve_right fun hin => hne n d (mem_singleton.1 hin).symm
    rw [hopen, h.opened n d hold fun hsub => hclosed (hsub.trans hlog)]
    rintro rfl
    exact hclosed ((singleton_sublist.2 hold).append (.refl [_]))
  · have hold : [.arrived n d, .arrived k e] <+ log :=
      (pair_sublist_concat.1 hpair).resolve_right fun heq => hne k e heq.1.symm
    exact h.together n k d e hold hsender fun hsub => hclosed (hsub.trans hlog)

theorem Filed.arrives (h : Filed log b ticket) {m : Message} :
    Filed (log ++ [.arrived (b.place m.sender) ⟨m, ticket⟩]) (b.push ⟨m, ticket⟩)
      (ticket + 1) := by
  have htickets : (log ++ [Note.arrived (b.place m.sender) ⟨m, ticket⟩]).filterMap (·.ticket?) =
      log.filterMap (·.ticket?) ++ [ticket] := filterMap_append
  have hlog : log <+ log ++ [Note.arrived (b.place m.sender) ⟨m, ticket⟩] :=
    sublist_append_left ..
  refine ⟨?_, ?_, fun n d hmem hclosed => ?_, fun n k d e hpair hsender hclosed => ?_⟩
  · rw [htickets]
    intro t ht
    rcases mem_append.1 ht with hold | hnew
    · exact (h.stamped t hold).trans (Nat.lt_succ_self _)
    · exact mem_singleton.1 hnew ▸ Nat.lt_succ_self _
  · rw [htickets, pairwise_append]
    exact ⟨h.ordered, pairwise_singleton .., fun t ht u hu =>
      mem_singleton.1 hu ▸ h.stamped t ht⟩
  · rw [bySender_push]
    rcases mem_append.1 hmem with hold | hnew
    · have hget := h.opened n d hold fun hsub => hclosed (hsub.trans hlog)
      split
      · rw [place, hget, Option.getD_some]
      · exact hget
    · cases mem_singleton.1 hnew
      exact if_pos rfl
  · rcases pair_sublist_concat.1 hpair with hold | ⟨heq, hfirst⟩
    · exact h.together n k d e hold hsender fun hsub => hclosed (hsub.trans hlog)
    · cases heq
      have hget := h.opened n d hfirst fun hsub =>
        hclosed (hsub.append (.refl [_]))
      rw [← hsender, place, hget, Option.getD_some]

end Inbound

/-- What holds of a node and the log of its queues. -/
structure Site.Orderly {σ : Type} (log : List Inbound.Note) (s : Site σ) : Prop where
  linked : s.node.inbound.Linked
  inTurn : ∀ n, Inbound.InTurn n log (s.node.inbound.now n) (s.node.inbound.waiting n)
  filed : Inbound.Filed log s.node.inbound s.node.messenger.nextTicket

namespace Site

variable {σ : Type} [Transport σ] {start s : Site σ} {log : List Inbound.Note}

omit [Transport σ] in
theorem Orderly.spares {s' : Site σ} (h : s.Orderly log) (hspares : s.Spares s') :
    s'.Orderly log := by
  refine ⟨?_, ?_, ?_⟩
  · rw [hspares.inbound]
    exact h.linked
  · rw [hspares.inbound]
    exact h.inTurn
  · rw [hspares.inbound]
    exact h.filed.mono hspares.tickets

theorem Orderly.receive (h : s.Orderly log) (m : Message) :
    (s.receive m).Orderly (log ++ s.notes (.receive m)) := by
  unfold notes Site.receive
  dsimp only
  split
  · rw [append_nil]
    split
    · next hcomplete =>
      obtain ⟨id, -, -, rfl⟩ := Messenger.complete_eq_ok hcomplete
      exact h.spares ⟨rfl, le_refl _⟩
    · exact h
  · refine ⟨h.linked.push _, fun n => ?_, h.filed.arrives⟩
    change Inbound.InTurn n _ ((s.node.inbound.push _).now n) ((s.node.inbound.push _).waiting n)
    rw [Inbound.now_push h.linked, Inbound.waiting_push h.linked]
    split
    · next heq =>
      subst heq
      exact (h.inTurn _).arrives _
    · next hne => exact (h.inTurn n).aside (if_neg (Ne.symm hne)) rfl

theorem Orderly.close (h : s.Orderly log) (sender : String) :
    (s.attend (.close sender)).Orderly (log ++ [.closed sender]) := by
  refine ⟨h.linked.close sender, fun n => (h.inTurn n).aside rfl rfl, h.filed.aside rfl ?_⟩
  intro other hother
  change (s.node.inbound.bySender.erase sender).get? other = _
  rw [Table.get?_erase, if_neg]
  rintro rfl
  exact hother rfl

theorem Orderly.drain (h : s.Orderly log) (queue : Nat) :
    (s.drainStep queue).Orderly (log ++ s.notes (.drain queue)) := by
  cases hq : s.node.inbound.queues.get? queue with
  | none =>
    have hsame : s.drainStep queue = s := by simp only [drainStep, hq]
    rw [notes, hsame, turned_self, append_nil]
    exact h
  | some q =>
    obtain ⟨f, hinbound, htickets, hgoes⟩ := exists_drainStep hq
    have hnow : s.node.inbound.now queue = q.now := by rw [Inbound.now, hq, Option.bind_some]
    have hwaiting : s.node.inbound.waiting queue = q.waiting := by
      rw [Inbound.waiting, hq, Option.map_some, Option.getD_some]
    have hnow' : (s.drainStep queue).node.inbound.now queue = (f q).now := by
      rw [hinbound, Inbound.now_modify hq, if_pos rfl]
    rw [notes, hnow', hnow]
    refine ⟨?_, fun n => ?_, ?_⟩
    · rw [hinbound]
      exact h.linked.modify queue f
    · rw [hinbound, Inbound.now_modify hq, Inbound.waiting_modify hq]
      split
      · next heq =>
        subst heq
        exact hgoes.inTurn (hnow ▸ hwaiting ▸ h.inTurn n)
      · next hne => exact hgoes.aside hne (h.inTurn n)
    · have hbySender : (s.drainStep queue).node.inbound.bySender = s.node.inbound.bySender := by
        rw [hinbound]
      refine Inbound.Filed.mono ?_ htickets
      obtain hnone | ⟨x, hx, hticket, -⟩ := hgoes.notes_eq
      · rw [hnone, append_nil]
        exact ⟨h.filed.stamped, h.filed.ordered, hbySender ▸ h.filed.opened, h.filed.together⟩
      · rw [hx]
        exact h.filed.aside hticket fun _ _ => by rw [hbySender]

/-- The log of a node that started without queues tells what became of all messages. -/
theorem Attends.orderly (h : start.Attends log s) (hstart : start.node.inbound = .empty) :
    s.Orderly log := by
  induction h with
  | start =>
    refine ⟨?_, fun n => ?_, Inbound.filed_nil⟩
    · rw [hstart]
      exact Inbound.linked_empty
    · rw [hstart]
      exact ⟨[], rfl, rfl⟩
  | attends h x ih =>
    cases x with
    | receive m => exact ih.receive m
    | close sender => exact ih.close sender
    | drain queue => exact ih.drain queue
  | elsewhere h hspares ih => exact ih.spares hspares

/-- The work on a message begins when the work on an earlier one of its sender is over, unless the
sender's queue was closed between the two. -/
theorem Attends.begun_in_turn (h : start.Attends log s) (hstart : start.node.inbound = .empty)
    {n k : Nat} {d e : Delivery} (harrived : [.arrived n d, .arrived k e] <+ log)
    (hsender : d.message.sender = e.message.sender)
    (hopen : ¬ [.arrived n d, .closed d.message.sender, .arrived k e] <+ log)
    (hbegun : .begun k e ∈ log) : [.begun n d, .ended n d, .begun k e] <+ log := by
  have horderly := h.orderly hstart
  obtain rfl := horderly.filed.together n k d e harrived hsender hopen
  exact (horderly.inTurn k).begun_in_order (horderly.filed.nodup k) harrived hbegun

/-- The node takes several steps with its queues; their notes, and where they lead. -/
def attendAll (s : Site σ) : List Inbound.Act → List Inbound.Note × Site σ
  | [] => ([], s)
  | x :: rest => (s.notes x ++ ((s.attend x).attendAll rest).1, ((s.attend x).attendAll rest).2)

theorem Attends.append (h : start.Attends log s) (acts : List Inbound.Act) :
    start.Attends (log ++ (s.attendAll acts).1) (s.attendAll acts).2 := by
  induction acts generalizing log s with
  | nil =>
    rw [attendAll, append_nil]
    exact h
  | cons x rest ih =>
    rw [attendAll, ← append_assoc]
    exact ih (h.attends x)

theorem attends_all (s : Site σ) (acts : List Inbound.Act) :
    s.Attends (s.attendAll acts).1 (s.attendAll acts).2 := Attends.start.append acts

/-- The node "a" with a listener on the channel "c". -/
def listening : Site Network where
  node := { Node.new ⟨"a", "a:1"⟩ 64 defaultQueryMillis with
    messenger := (Messenger.new defaultQueryMillis).listen "c" normalPriority (.recorder "r" []) }
  links := .empty
  drawn := 0
  calls := []
  clock := 0
  noticed := 0
  now := .epoch

/-- A message of "s" for the listener. -/
def letter (n : UInt8) : Message :=
  { channel := "c", sender := "s", targets := [.all], content := [n] }

/-- Two messages of "s" come before its queue is closed, and one after that, which is faster than
both. -/
def calm : List Inbound.Act :=
  [.receive (letter 1), .receive (letter 2), .close "s", .receive (letter 3), .drain 1, .drain 0,
    .drain 0, .drain 0, .drain 0, .drain 0, .drain 0]

def calmLog : List Inbound.Note :=
  [.arrived 0 ⟨letter 1, 0⟩, .arrived 0 ⟨letter 2, 1⟩, .closed "s", .arrived 1 ⟨letter 3, 2⟩,
    .begun 1 ⟨letter 3, 2⟩, .begun 0 ⟨letter 1, 0⟩, .ended 0 ⟨letter 1, 0⟩, .begun 0 ⟨letter 2, 1⟩]

theorem letters_begun_in_turn :
    listening.Attends calmLog (listening.attendAll calm).2 ∧ listening.node.inbound = .empty ∧
      [.arrived 0 ⟨letter 1, 0⟩, .arrived 0 ⟨letter 2, 1⟩] <+ calmLog ∧
      (letter 1).sender = (letter 2).sender ∧
      ¬ [.arrived 0 ⟨letter 1, 0⟩, .closed "s", .arrived 0 ⟨letter 2, 1⟩] <+ calmLog ∧
      .begun 0 ⟨letter 2, 1⟩ ∈ calmLog ∧
      [.begun 0 ⟨letter 1, 0⟩, .ended 0 ⟨letter 1, 0⟩, .begun 0 ⟨letter 2, 1⟩] <+ calmLog := by
  have hlog : (listening.attendAll calm).1 = calmLog := by decide +kernel
  have hrun : listening.Attends calmLog (listening.attendAll calm).2 :=
    hlog ▸ listening.attends_all calm
  have hempty : listening.node.inbound = .empty := rfl
  have harrived : [.arrived 0 ⟨letter 1, 0⟩, .arrived 0 ⟨letter 2, 1⟩] <+ calmLog := by
    decide +kernel
  have hopen : ¬ [.arrived 0 ⟨letter 1, 0⟩, .closed "s", .arrived 0 ⟨letter 2, 1⟩] <+ calmLog := by
    decide +kernel
  have hbegun : .begun 0 ⟨letter 2, 1⟩ ∈ calmLog := by decide +kernel
  exact ⟨hrun, hempty, harrived, rfl, hopen, hbegun,
    hrun.begun_in_turn hempty harrived rfl hopen hbegun⟩

/-- The queue of "s" is closed while a message of it is being worked on; the next one goes to
another queue, whose task is faster. -/
def hurried : List Inbound.Act :=
  [.receive (letter 1), .drain 0, .close "s", .receive (letter 2), .drain 1, .drain 1, .drain 1,
    .drain 0, .drain 0]

/-- Without the condition on the queue the order is lost: the second message of "s" is begun, and
seen by the listener, while the work on the first is not over. -/
theorem overtaken :
    let log := [.arrived 0 ⟨letter 1, 0⟩, .begun 0 ⟨letter 1, 0⟩, .closed "s",
      .arrived 1 ⟨letter 2, 1⟩, .begun 1 ⟨letter 2, 1⟩]
    let s := (listening.attendAll hurried).2
    listening.Attends log s ∧ listening.node.inbound = .empty ∧
      (letter 1).sender = (letter 2).sender ∧ .ended 0 ⟨letter 1, 0⟩ ∉ log ∧
      s.calls.map (·.message) = [letter 2, letter 1] := by
  intro log s
  have hlog : (listening.attendAll hurried).1 = log := by decide +kernel
  exact ⟨hlog ▸ listening.attends_all hurried, rfl, rfl, by decide +kernel, by decide +kernel⟩

end Site

end Fleet

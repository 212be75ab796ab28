import Fleet.Proofs.Node.Turns

/-!
# No message is lost and none is worked on twice

A message that a node takes in, a response apart, comes to one queue. There it waits until the task
of the queue begins to work on it, and the task works on it once. It does not matter whether the
queue is closed meanwhile: closing takes a queue away from its sender and not from its task. So each
message is in one of three places at any time, and when no task has anything to do any more, exactly
the messages that came have been worked on.

A response comes to no queue.

## Main definitions

* `Site.Performs` — a node has come from one state to another by what it did with its queues.
* `Site.Tended` — the task of a queue is alive.
* `Site.Fate` — what has become of a message that came.

## Main statements

* `Site.Orderly.fate` — where a message is, given the log of the queues.
* `Site.Performs.accounted_for` — what has become of all messages that a node took in.
-/

namespace Fleet

open List

/-! ### The log as a whole -/

namespace Inbound

namespace Note

/-- The message that has come, to whichever queue. -/
def came? : Note → Option Delivery
  | .arrived _ d => some d
  | .closed _ | .begun .. | .ended .. => none

/-- The message on which the work begins. -/
def begun? : Note → Option Delivery
  | .begun _ d => some d
  | .arrived .. | .closed _ | .ended .. => none

/-- The message on which the work is over. -/
def ended? : Note → Option Delivery
  | .ended _ d => some d
  | .arrived .. | .closed _ | .begun .. => none

end Note

/-- The messages that have come. -/
def came (log : List Note) : List Delivery := log.filterMap (·.came?)

/-- The messages on which the work has begun, each as often as it has. -/
def begun (log : List Note) : List Delivery := log.filterMap (·.begun?)

/-- The messages on which the work is over, each as often as it is. -/
def ended (log : List Note) : List Delivery := log.filterMap (·.ended?)

section Log

variable {log : List Note} {d : Delivery}

theorem mem_came : d ∈ came log ↔ ∃ n, .arrived n d ∈ log := by
  simp only [came, mem_filterMap]
  constructor
  · rintro ⟨x, hx, heq⟩
    cases x with
    | arrived n e => exact ⟨n, Option.some.inj heq ▸ hx⟩
    | closed | begun | ended => cases heq
  · exact fun ⟨n, hn⟩ => ⟨_, hn, rfl⟩

theorem mem_arrivals {n : Nat} : d ∈ arrivals n log ↔ .arrived n d ∈ log := by
  simp only [arrivals, mem_filterMap]
  constructor
  · rintro ⟨x, hx, heq⟩
    cases x with
    | arrived k e =>
      obtain ⟨rfl, hsome⟩ := Option.ite_none_right_eq_some.1 heq
      exact Option.some.inj hsome ▸ hx
    | closed | begun | ended => cases heq
  · exact fun hn => ⟨_, hn, if_pos rfl⟩

theorem map_ticket_came (log : List Note) :
    (came log).map (·.ticket) = log.filterMap (·.ticket?) := by
  rw [came, map_filterMap]
  congr 1
  funext x
  cases x <;> rfl

/-- No message has come twice. -/
theorem Filed.nodup_came {b : Inbound Dispatch} {ticket : Nat} (h : Filed log b ticket) :
    ((came log).map (·.ticket)).Nodup := by
  rw [map_ticket_came]
  exact h.ordered.imp Nat.ne_of_lt

/-- A message has come to one queue only. -/
theorem Filed.eq_of_arrived {b : Inbound Dispatch} {ticket n k : Nat} (h : Filed log b ticket)
    (hn : .arrived n d ∈ log) (hk : .arrived k d ∈ log) : n = k := by
  have hapart : log.Pairwise fun x y => ∀ t, x.ticket? = some t → y.ticket? ≠ some t :=
    (pairwise_filterMap.1 h.ordered).imp fun hlt t ht hu => Nat.lt_irrefl t (hlt t ht t hu)
  have : Std.Symm fun x y : Note => ∀ t, x.ticket? = some t → y.ticket? ≠ some t :=
    ⟨fun _ _ h t ht hu => h t hu ht⟩
  by_contra hne
  exact hapart.forall hn hk (fun heq => hne (Note.arrived.inj heq).1) d.ticket rfl rfl

end Log

/-! ### Where a message is -/

section Counts

variable {queue : Nat} {log : List Note} {now : Option Delivery} {waiting past : List Delivery}
  {d : Delivery}

theorem count_flatMap_wholeWork (queue : Nat) (past : List Delivery) (d : Delivery) :
    (past.flatMap (wholeWork queue)).count (.begun queue d) = past.count d ∧
      (past.flatMap (wholeWork queue)).count (.ended queue d) = past.count d := by
  induction past with
  | nil => exact ⟨rfl, rfl⟩
  | cons e past ih => simp [wholeWork, count_cons, ih]

/-- What is said of a message by one note only is said as often as the note stands at its queue. -/
theorem count_eq_count_workOf {f : Note → Option Delivery} {x : Note}
    (hx : x.ofWork queue = true) (honly : ∀ y ∈ log, f y = some d ↔ y = x) :
    (log.filterMap f).count d = (workOf queue log).count x := by
  rw [count_filterMap, workOf, count_filter hx, count]
  exact countP_congr fun y hy => by simp [honly y hy]

/-- A queue works on nothing that has not come to it. -/
theorem InTurn.arrived_of_work (h : InTurn queue log now waiting)
    (hwork : .begun queue d ∈ log ∨ .ended queue d ∈ log) : .arrived queue d ∈ log := by
  obtain ⟨past, harrivals, hworkOf⟩ := h
  have hd : d ∈ past ++ now.toList := by
    rcases hwork with hbegun | hended
    · have hmem : .begun queue d ∈ workOf queue log :=
        mem_filter.2 ⟨hbegun, by simp [Note.ofWork]⟩
      rw [hworkOf] at hmem
      simpa [wholeWork] using hmem
    · have hmem : .ended queue d ∈ workOf queue log :=
        mem_filter.2 ⟨hended, by simp [Note.ofWork]⟩
      rw [hworkOf] at hmem
      exact mem_append_left _ (by simpa [wholeWork] using hmem)
  rw [← mem_arrivals, harrivals]
  exact mem_append_left _ hd

/-- A message that has not come to a queue is not in it. -/
theorem InTurn.of_notMem (h : InTurn queue log now waiting) (hd : .arrived queue d ∉ log) :
    now ≠ some d ∧ d ∉ waiting := by
  obtain ⟨past, harrivals, -⟩ := h
  rw [← mem_arrivals, harrivals, mem_append, mem_append, Option.mem_toList] at hd
  push Not at hd
  exact ⟨hd.1.2, hd.2⟩

/-- A message that has come to a queue has been worked on, is being worked on, or waits. -/
theorem InTurn.trichotomy (h : InTurn queue log now waiting) (hnodup : (arrivals queue log).Nodup)
    (hd : .arrived queue d ∈ log) :
    (workOf queue log).count (.begun queue d) = 1 ∧
        (workOf queue log).count (.ended queue d) = 1 ∧ now ≠ some d ∧ waiting.count d = 0 ∨
      (workOf queue log).count (.begun queue d) = 1 ∧
        (workOf queue log).count (.ended queue d) = 0 ∧ now = some d ∧ waiting.count d = 0 ∨
      (workOf queue log).count (.begun queue d) = 0 ∧
        (workOf queue log).count (.ended queue d) = 0 ∧ now ≠ some d ∧ waiting.count d = 1 := by
  obtain ⟨past, harrivals, hworkOf⟩ := h
  have hone : (arrivals queue log).count d = 1 :=
    count_eq_one_of_mem hnodup (mem_arrivals.2 hd)
  have hended : (now.toList.map (Note.begun queue)).count (.ended queue d) = 0 := by
    cases now <;> simp
  have hbegun : (now.toList.map (Note.begun queue)).count (.begun queue d) =
      if now = some d then 1 else 0 := by
    cases now <;> simp [count_singleton]
  have hnow : now.toList.count d = if now = some d then 1 else 0 := by
    cases now <;> simp [count_singleton]
  rw [harrivals, count_append, count_append, hnow] at hone
  rw [hworkOf, count_append, count_append, hbegun, hended, (count_flatMap_wholeWork ..).1,
    (count_flatMap_wholeWork ..).2]
  split at hone <;> simp_all <;> omega

end Counts

end Inbound

/-! ### What has become of the messages of a node -/

namespace Site

variable {σ : Type} [Transport σ]

/-- The task of a queue is alive. -/
structure Tended (s : Site σ) (queue : Nat) : Prop where
  /-- It can take a step, unless a listener that it runs waits for an answer. -/
  goesOn : (∀ noticed, s.node.canDrain noticed queue = true) ∨
    ∃ q ticket e creation rest, s.node.inbound.queues.get? queue = some q ∧
      q.current = some (.placing ticket e creation rest)
  /-- Once the work on a message is over, its steps begin the work on the first one that waits. -/
  takesUp : s.node.inbound.now queue = none → ∃ s',
    (s' = s.drainStep queue ∨ s' = (s.drainStep queue).drainStep queue) ∧
      s'.node.inbound.now queue = (s.node.inbound.waiting queue).head?

/-- What has become of a message that came. -/
inductive Fate (log : List Inbound.Note) (s : Site σ) (d : Delivery) : Prop
  /-- It has been worked on once. -/
  | dispatched (hbegun : (Inbound.begun log).count d = 1) (hended : (Inbound.ended log).count d = 1)
      (hnow : ∀ n, s.node.inbound.now n ≠ some d)
      (hwaiting : ∀ n, (s.node.inbound.waiting n).count d = 0)
  /-- One queue works on it. -/
  | inWork (queue : Nat) (hbegun : (Inbound.begun log).count d = 1)
      (hended : (Inbound.ended log).count d = 0)
      (hnow : ∀ n, s.node.inbound.now n = some d ↔ n = queue)
      (hwaiting : ∀ n, (s.node.inbound.waiting n).count d = 0)
  /-- It waits once, in one queue, whose task is alive. -/
  | waits (queue : Nat) (hbegun : (Inbound.begun log).count d = 0)
      (hended : (Inbound.ended log).count d = 0) (hnow : ∀ n, s.node.inbound.now n ≠ some d)
      (hwaiting : ∀ n, (s.node.inbound.waiting n).count d = if n = queue then 1 else 0)
      (htended : s.Tended queue)

/-- No queue works on a message, and none waits. -/
def Idle (s : Site σ) : Prop :=
  ∀ n, s.node.inbound.now n = none ∧ s.node.inbound.waiting n = []

variable {start s : Site σ} {log : List Inbound.Note} {queue : Nat} {d : Delivery}

/-- A task that has nothing in work begins with the first message that waits. -/
theorem now_drainStep {q : Inbound.Queue Dispatch}
    (hq : s.node.inbound.queues.get? queue = some q) (hcurrent : q.current = none) :
    (s.drainStep queue).node.inbound.now queue = q.waiting.head? := by
  obtain ⟨sender, waiting, current⟩ := q
  obtain rfl : current = none := hcurrent
  simp only [drainStep, hq]
  rw [Inbound.startNext, Inbound.now_modify hq, if_pos rfl]
  cases waiting <;> rfl

/-- The task of a queue in which a message waits is alive. -/
theorem tended_of_mem (h : d ∈ s.node.inbound.waiting queue) : s.Tended queue := by
  rw [Inbound.waiting] at h
  cases hq : s.node.inbound.queues.get? queue with
  | none =>
    rw [hq] at h
    cases h
  | some q =>
    rw [hq, Option.map_some, Option.getD_some] at h
    have hwaiting : s.node.inbound.waiting queue = q.waiting := by
      rw [Inbound.waiting, hq, Option.map_some, Option.getD_some]
    have hnow : s.node.inbound.now queue = q.now := by rw [Inbound.now, hq, Option.bind_some]
    rw [← hwaiting] at h
    cases hcurrent : q.current with
    | none =>
      refine ⟨.inl fun noticed => ?_, fun _ => ⟨_, .inl rfl, ?_⟩⟩
      · simp only [Node.canDrain, hq, hcurrent, ← hwaiting]
        simpa using ne_nil_of_mem h
      · rw [now_drainStep hq hcurrent, hwaiting]
    | some work =>
      have hbusy : ∀ e, work.delivery? = some e → s.node.inbound.now queue ≠ none := by
        intro e he
        rw [hnow, Inbound.Queue.now, hcurrent, Option.bind_some, he]
        exact Option.some_ne_none e
      cases work with
      | opening e | firing _ e _ | answering _ e =>
        refine ⟨.inl fun noticed => ?_, fun hnone => absurd hnone (hbusy _ rfl)⟩
        simp only [Node.canDrain, hq, hcurrent]
        rfl
      | placing =>
        exact ⟨.inr ⟨q, _, _, _, _, hq, hcurrent⟩, fun hnone => absurd hnone (hbusy _ rfl)⟩
      | done =>
        refine ⟨.inl fun noticed => ?_, fun _ => ⟨_, .inr rfl, ?_⟩⟩
        · simp only [Node.canDrain, hq, hcurrent]
        · have hcleared : (s.drainStep queue).node.inbound.queues.get? queue =
              some { q with current := none } := by
            simp only [drainStep, hq, hcurrent, Inbound.setCurrent, Table.get?_modify, if_pos,
              Option.map_some]
          rw [now_drainStep hcleared rfl, hwaiting]

omit [Transport σ] in
/-- All the work on a message is done by the task of the queue that it came into. -/
theorem Orderly.queue_of_work {n queue : Nat} (h : s.Orderly log)
    (harrived : .arrived queue d ∈ log) (hwork : .begun n d ∈ log ∨ .ended n d ∈ log) : n = queue :=
  h.filed.eq_of_arrived ((h.inTurn n).arrived_of_work hwork) harrived

omit [Transport σ] in
theorem Orderly.count_begun {queue : Nat} (h : s.Orderly log) (harrived : .arrived queue d ∈ log) :
    (Inbound.begun log).count d = (Inbound.workOf queue log).count (.begun queue d) := by
  refine Inbound.count_eq_count_workOf (by simp [Inbound.Note.ofWork]) fun y hy => ?_
  cases y with
  | begun n e =>
    simp only [Inbound.Note.begun?, Option.some.injEq, Inbound.Note.begun.injEq]
    exact ⟨fun heq => ⟨h.queue_of_work harrived (.inl (heq ▸ hy)), heq⟩, And.right⟩
  | arrived | closed | ended => simp [Inbound.Note.begun?]

omit [Transport σ] in
theorem Orderly.count_ended {queue : Nat} (h : s.Orderly log) (harrived : .arrived queue d ∈ log) :
    (Inbound.ended log).count d = (Inbound.workOf queue log).count (.ended queue d) := by
  refine Inbound.count_eq_count_workOf (by simp [Inbound.Note.ofWork]) fun y hy => ?_
  cases y with
  | ended n e =>
    simp only [Inbound.Note.ended?, Option.some.injEq, Inbound.Note.ended.injEq]
    exact ⟨fun heq => ⟨h.queue_of_work harrived (.inr (heq ▸ hy)), heq⟩, And.right⟩
  | arrived | closed | begun => simp [Inbound.Note.ended?]

/-- Where a message is that came. -/
theorem Orderly.fate (h : s.Orderly log) (hd : d ∈ Inbound.came log) : s.Fate log d := by
  obtain ⟨queue, harrived⟩ := Inbound.mem_came.1 hd
  have hbegun := h.count_begun harrived
  have hended := h.count_ended harrived
  have helsewhere : ∀ n, n ≠ queue → s.node.inbound.now n ≠ some d ∧
      (s.node.inbound.waiting n).count d = 0 := by
    intro n hn
    have hnot := (h.inTurn n).of_notMem fun hin => hn (h.filed.eq_of_arrived hin harrived)
    exact ⟨hnot.1, count_eq_zero.2 hnot.2⟩
  have hnone : s.node.inbound.now queue ≠ some d → ∀ n, s.node.inbound.now n ≠ some d := by
    intro hqueue n
    by_cases hn : n = queue
    · exact hn ▸ hqueue
    · exact (helsewhere n hn).1
  have hzero : (s.node.inbound.waiting queue).count d = 0 →
      ∀ n, (s.node.inbound.waiting n).count d = 0 := by
    intro hqueue n
    by_cases hn : n = queue
    · exact hn ▸ hqueue
    · exact (helsewhere n hn).2
  rcases (h.inTurn queue).trichotomy (h.filed.nodup queue) harrived with
    ⟨hb, he, hnow, hwaiting⟩ | ⟨hb, he, hnow, hwaiting⟩ | ⟨hb, he, hnow, hwaiting⟩
  · exact .dispatched (hbegun.trans hb) (hended.trans he) (hnone hnow) (hzero hwaiting)
  · refine .inWork queue (hbegun.trans hb) (hended.trans he) (fun n => ?_) (hzero hwaiting)
    refine ⟨fun hn => ?_, fun hn => hn ▸ hnow⟩
    by_contra hne
    exact (helsewhere n hne).1 hn
  · refine .waits queue (hbegun.trans hb) (hended.trans he) (hnone hnow) (fun n => ?_)
      (tended_of_mem (count_pos_iff.1 (hwaiting ▸ Nat.one_pos)))
    split
    · next hn => exact hn ▸ hwaiting
    · next hn => exact (helsewhere n hn).2

omit [Transport σ] in
/-- What has begun has come. -/
theorem Orderly.came_of_begun (h : s.Orderly log) (hd : d ∈ Inbound.begun log) :
    d ∈ Inbound.came log := by
  obtain ⟨x, hx, heq⟩ := mem_filterMap.1 hd
  cases x with
  | begun n e =>
    obtain rfl := Option.some.inj heq
    exact Inbound.mem_came.2 ⟨n, (h.inTurn n).arrived_of_work (.inl hx)⟩
  | arrived | closed | ended => cases heq

omit [Transport σ] in
theorem Orderly.came_of_ended (h : s.Orderly log) (hd : d ∈ Inbound.ended log) :
    d ∈ Inbound.came log := by
  obtain ⟨x, hx, heq⟩ := mem_filterMap.1 hd
  cases x with
  | ended n e =>
    obtain rfl := Option.some.inj heq
    exact Inbound.mem_came.2 ⟨n, (h.inTurn n).arrived_of_work (.inr hx)⟩
  | arrived | closed | begun => cases heq

/-- When nothing is left to do, every message that came has been worked on, once. -/
theorem Orderly.perm_of_idle (h : s.Orderly log) (hidle : s.Idle) :
    (Inbound.begun log).Perm (Inbound.came log) ∧ (Inbound.ended log).Perm (Inbound.came log) := by
  have hnodup : (Inbound.came log).Nodup := .of_map _ h.filed.nodup_came
  have hcame : ∀ d ∈ Inbound.came log,
      (Inbound.begun log).count d = 1 ∧ (Inbound.ended log).count d = 1 := by
    intro d hd
    cases h.fate hd with
    | dispatched hbegun hended => exact ⟨hbegun, hended⟩
    | inWork queue _ _ hnow =>
      exact absurd ((hidle queue).1.symm.trans ((hnow queue).2 rfl)) (Option.some_ne_none d).symm
    | waits queue _ _ _ hwaiting =>
      have hqueue := hwaiting queue
      rw [(hidle queue).2, if_pos rfl] at hqueue
      cases hqueue
  refine ⟨perm_iff_count.2 fun d => ?_, perm_iff_count.2 fun d => ?_⟩
  all_goals by_cases hd : d ∈ Inbound.came log
  · rw [(hcame d hd).1, count_eq_one_of_mem hnodup hd]
  · rw [count_eq_zero.2 hd, count_eq_zero.2 fun hin => hd (h.came_of_begun hin)]
  · rw [(hcame d hd).2, count_eq_one_of_mem hnodup hd]
  · rw [count_eq_zero.2 hd, count_eq_zero.2 fun hin => hd (h.came_of_ended hin)]

end Site

/-! ### What a node has taken in -/

/-- The message that a node has to work on: one that it takes in and that is no response. -/
def Inbound.Act.accepted? : Inbound.Act → Option Message
  | .receive m => if m.isResponse then none else some m
  | .close _ | .drain _ => none

namespace Site

variable {σ : Type} [Transport σ]

/-- A node has come from one state to another. What it did with its queues is in the first list, and
the notes of this are in the log. -/
inductive Performs (start : Site σ) : List Inbound.Act → List Inbound.Note → Site σ → Prop
  | start : Performs start [] [] start
  | performs {acts : List Inbound.Act} {log : List Inbound.Note} {s : Site σ}
      (h : Performs start acts log s) (x : Inbound.Act) :
      Performs start (acts ++ [x]) (log ++ s.notes x) (s.attend x)
  | elsewhere {acts : List Inbound.Act} {log : List Inbound.Note} {s s' : Site σ}
      (h : Performs start acts log s) (hspares : s.Spares s') : Performs start acts log s'

variable {start s : Site σ} {acts : List Inbound.Act} {log : List Inbound.Note}

theorem Performs.attends (h : start.Performs acts log s) : start.Attends log s := by
  induction h with
  | start => exact .start
  | performs _ x ih => exact ih.attends x
  | elsewhere _ hspares ih => exact ih.elsewhere hspares

/-- What comes to the queues in one step is the message that is taken in, unless it is a response.
-/
theorem map_message_came_notes (s : Site σ) (x : Inbound.Act) :
    (Inbound.came (s.notes x)).map (·.message) = x.accepted?.toList := by
  cases x with
  | receive m =>
    simp only [notes, Inbound.Act.accepted?]
    split <;> rfl
  | close sender => rfl
  | drain queue =>
    simp only [notes, turned, Inbound.Act.accepted?]
    split
    · rfl
    · cases s.node.inbound.now queue <;>
        cases (s.drainStep queue).node.inbound.now queue <;> rfl

theorem Performs.map_message_came (h : start.Performs acts log s) :
    (Inbound.came log).map (·.message) = acts.filterMap (·.accepted?) := by
  induction h with
  | start => rfl
  | @performs acts log s _ x ih =>
    have hsplit : Inbound.came (log ++ s.notes x) = Inbound.came log ++ Inbound.came (s.notes x) :=
      filterMap_append
    have hlast : [x].filterMap (·.accepted?) = x.accepted?.toList := by
      cases hx : x.accepted? <;> simp [hx]
    rw [hsplit, map_append, ih, map_message_came_notes, filterMap_append, hlast]
  | elsewhere _ _ ih => exact ih

omit [Transport σ] in
/-- A response that is taken in comes to no queue and no listener. -/
theorem receive_response (s : Site σ) {m : Message} (hm : m.isResponse = true) :
    (s.receive m).node.inbound = s.node.inbound ∧ (s.receive m).calls = s.calls := by
  rw [receive, if_pos hm]
  split
  · exact ⟨rfl, rfl⟩
  · exact ⟨rfl, rfl⟩

/-- The messages that a node took in, responses apart, have come to its queues in this order, each
once. Each of them has been worked on once, is being worked on, or waits in one queue; nothing else
is worked on; and if there is nothing left to do, exactly these have been worked on. -/
theorem Performs.accounted_for (h : start.Performs acts log s)
    (hstart : start.node.inbound = .empty) :
    (Inbound.came log).map (·.message) = acts.filterMap (·.accepted?) ∧
      (Inbound.came log).Nodup ∧ (∀ d ∈ Inbound.came log, s.Fate log d) ∧
      (∀ d ∈ Inbound.begun log, d ∈ Inbound.came log ∧ d.message.isResponse = false) ∧
      (∀ m : Message, m.isResponse = true →
        (s.receive m).node.inbound = s.node.inbound ∧ (s.receive m).calls = s.calls) ∧
      (s.Idle → (Inbound.begun log).Perm (Inbound.came log) ∧
        (Inbound.ended log).Perm (Inbound.came log)) := by
  have horderly := h.attends.orderly hstart
  refine ⟨h.map_message_came, .of_map _ horderly.filed.nodup_came, fun d => horderly.fate,
    fun d hd => ?_, fun m => s.receive_response, horderly.perm_of_idle⟩
  have hcame := horderly.came_of_begun hd
  refine ⟨hcame, ?_⟩
  have haccepted : d.message ∈ acts.filterMap (·.accepted?) :=
    h.map_message_came ▸ mem_map_of_mem hcame
  obtain ⟨x, -, hx⟩ := mem_filterMap.1 haccepted
  cases x with
  | receive m =>
    simp only [Inbound.Act.accepted?, Option.ite_none_left_eq_some] at hx
    cases hx.2
    simpa using hx.1
  | close | drain => cases hx

/-! ### A run -/

theorem Performs.append (h : start.Performs acts log s) (more : List Inbound.Act) :
    start.Performs (acts ++ more) (log ++ (s.attendAll more).1) (s.attendAll more).2 := by
  induction more generalizing acts log s with
  | nil =>
    rw [attendAll, append_nil, append_nil]
    exact h
  | cons x rest ih =>
    rw [attendAll, ← append_assoc, append_cons]
    exact ih (h.performs x)

/-- A response of "s". -/
def answer : Message :=
  { channel := "c", sender := "s", targets := [.node "a"], content := [4],
    correlation := some .nil }

/-- The queue of "s" is closed while its first message waits. That one is worked on nevertheless,
the second one in another queue, where the third one waits; the response comes to no queue. -/
def reopened : List Inbound.Act :=
  [.receive (letter 1), .close "s", .receive (letter 2), .receive (letter 3), .receive answer,
    .drain 1, .drain 0, .drain 0, .drain 0, .drain 0]

def reopenedLog : List Inbound.Note :=
  [.arrived 0 ⟨letter 1, 0⟩, .closed "s", .arrived 1 ⟨letter 2, 1⟩, .arrived 1 ⟨letter 3, 2⟩,
    .begun 1 ⟨letter 2, 1⟩, .begun 0 ⟨letter 1, 0⟩, .ended 0 ⟨letter 1, 0⟩]

theorem reopened_accounted_for :
    let s := (listening.attendAll reopened).2
    listening.Performs reopened reopenedLog s ∧ listening.node.inbound = .empty ∧
      (Inbound.came reopenedLog).map (·.message) = [letter 1, letter 2, letter 3] ∧
      s.Fate reopenedLog ⟨letter 1, 0⟩ ∧ (Inbound.ended reopenedLog).count ⟨letter 1, 0⟩ = 1 ∧
      s.Fate reopenedLog ⟨letter 2, 1⟩ ∧ s.node.inbound.now 1 = some ⟨letter 2, 1⟩ ∧
      s.Fate reopenedLog ⟨letter 3, 2⟩ ∧ s.node.inbound.waiting 1 = [⟨letter 3, 2⟩] := by
  intro s
  have hlog : (listening.attendAll reopened).1 = reopenedLog := by decide +kernel
  have hrun : listening.Performs reopened reopenedLog s := by
    have hstart : listening.Performs [] [] listening := .start
    have hall := hstart.append reopened
    rwa [hlog] at hall
  have hempty : listening.node.inbound = .empty := rfl
  obtain ⟨hcame, -, hfate, -⟩ := hrun.accounted_for hempty
  have haccepted : reopened.filterMap (·.accepted?) = [letter 1, letter 2, letter 3] := by
    decide +kernel
  have hmem : ∀ d ∈ ([⟨letter 1, 0⟩, ⟨letter 2, 1⟩, ⟨letter 3, 2⟩] : List Delivery),
      d ∈ Inbound.came reopenedLog := by decide +kernel
  exact ⟨hrun, hempty, hcame.trans haccepted, hfate _ (hmem _ (by simp)), by decide +kernel,
    hfate _ (hmem _ (by simp)), by decide +kernel, hfate _ (hmem _ (by simp)), by decide +kernel⟩

end Site

end Fleet

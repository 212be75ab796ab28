import Fleet.Proofs.Messenger.Listeners
import Fleet.Proofs.Node.Listening
import Fleet.Proofs.Node.Responses
import Fleet.Proofs.Node.Turns

/-!
# How messages are answered

While the listeners of a message run, anything else may happen at the node, as long as it does not
respond to the same message. Of what they answer the first answer to a query counts. When all have
run a query with a correlation id gets its response, once, with that answer or with nothing, and no
other message gets one.

## Main definitions

* `Dispatch.Trace` — what the work on a message has done.
* `Dispatch.Course` — the work on a message as it goes on.

## Main statements

* `Dispatch.Course.sound` — how the work on a message stands at each point.
* `Site.answered_once` — how a message is answered.
-/

namespace Fleet

variable {σ : Type}

namespace Dispatch

/-- The listeners that a message runs. -/
def audience (s : Site σ) (m : Message) : List Handler :=
  s.node.messenger.listeners.handlers m.channel

/-- What the work on a message has done: the listeners it has called, what they have answered and
what came of that, what it has sent, and in how many steps. -/
structure Trace where
  called : List Handler := []
  answers : List Bytes := []
  outcomes : List (Option ProtocolError) := []
  sent : List Attempt := []
  steps : Nat := 0

/-- The responses among what was sent: everything that is no query. -/
def Trace.responses (tr : Trace) : List Attempt := tr.sent.filter fun a => !a.message.query

/-- How the work on a message ends: to a query with a correlation id one response was sent, with the
first answer or with nothing, and the right to respond is taken; to any other message none was sent,
and the right is not taken. -/
def Concludes (d : Delivery) (s t : Site σ) (tr : Trace) : Prop :=
  if d.message.query = true ∧ d.message.correlation.isSome = true then
    d.ticket ∈ t.node.messenger.answered ∧ ∃ worked, tr.responses = [⟨d.message.sender, worked,
      { channel := d.message.channel, sender := s.node.id, targets := [.node d.message.sender],
        content := tr.answers.head?.getD [], query := false,
        correlation := d.message.correlation }⟩]
  else d.ticket ∉ t.node.messenger.answered ∧ tr.responses = []

/-- How the work on a message stands: `s` is the site where it has begun, and `t` the one where it
goes on. -/
structure Sound (d : Delivery) (s : Site σ) (w : Dispatch) (t : Site σ) (tr : Trace) : Prop where
  begun : ∀ d', w ≠ .opening d'
  asks : w.Asks
  id : t.node.id = s.node.id
  delivery : ∀ d', w.delivery? = some d' → d' = d
  event : ∀ e, w.event? = some e → e = ((⟨d.message, none⟩ : Event).answerAll tr.answers).2
  outcomes : tr.outcomes = ((⟨d.message, none⟩ : Event).answerAll tr.answers).1
  /-- The listeners run in turn, each once. -/
  turn : tr.called ++ w.rest = audience s d.message
  budget : tr.steps + w.toGo ≤ 9 * (audience s d.message).length + 2
  pending : w ≠ .done → tr.responses = [] ∧ d.ticket ∉ t.node.messenger.answered
  ended : w = .done → Concludes d s t tr
  /-- Nobody waits but a listener that places a service. -/
  placed : ∀ k e c rest, w = .placing k e c rest → .startAsHead ∈ tr.called

namespace Sound

variable {d : Delivery} {s t : Site σ} {w : Dispatch} {tr : Trace}

theorem elsewhere (h : Sound d s w t tr) {t' : Site σ} (helse : t.Elsewhere d t') :
    Sound d s w t' tr :=
  { h with
    id := helse.id.trans h.id
    pending := fun hw => ⟨(h.pending hw).1, fun hmem => (h.pending hw).2 (helse.claim.1 hmem)⟩
    ended := fun hw => by simpa only [Concludes, helse.claim] using h.ended hw }

/-- The event holds the message, and the first answer if that is a query. -/
theorem event_eq (h : Sound d s w t tr) {e : Event} (he : w.event? = some e) :
    e = ⟨d.message, if d.message.query then tr.answers.head? else none⟩ :=
  (h.event e he).trans (by rw [Event.answerAll_new])

end Sound

variable [Transport σ]

/-! ### The course of the work -/

namespace Trace

/-- What the work has done after one more step. -/
def next (tr : Trace) (w : Dispatch) (s : Site (Watched σ)) : Trace where
  called := tr.called ++ w.called
  answers := tr.answers ++ w.contents s
  outcomes := tr.outcomes ++ w.outcomes s
  sent := tr.sent ++ s.written (w.step s).2
  steps := tr.steps + 1

theorem responses_next (tr : Trace) (w : Dispatch) (s : Site (Watched σ)) :
    (tr.next w s).responses =
      tr.responses ++ (s.written (w.step s).2).filter fun a => !a.message.query :=
  List.filter_append ..

theorem responses_next_of_quiet {tr : Trace} {w : Dispatch} {s : Site (Watched σ)}
    (h : s.Quiet (w.step s).2) : (tr.next w s).responses = tr.responses := by
  have hnone : ((s.written (w.step s).2).filter fun a => !a.message.query) = [] :=
    List.filter_eq_nil_iff.2 fun a ha => by simp [h.queries a ha]
  rw [responses_next, hnone, List.append_nil]

end Trace

/-- The work on a message from when it looks up the listeners: it goes on step by step when it can,
and in between anything else happens at the node. -/
inductive Course (d : Delivery) (s : Site (Watched σ)) :
    Dispatch → Site (Watched σ) → Trace → Prop
  | begins : Course d s ((opening d).step s).1 ((opening d).step s).2 {}
  | step {w : Dispatch} {t : Site (Watched σ)} {tr : Trace} (h : Course d s w t tr)
      (hcan : w.canStep t.node t.noticed = true) :
      Course d s (w.step t).1 (w.step t).2 (tr.next w t)
  | elsewhere {w : Dispatch} {t t' : Site (Watched σ)} {tr : Trace} (h : Course d s w t tr)
      (helse : t.Elsewhere d t') : Course d s w t' tr

namespace Sound

variable {d : Delivery} {s t : Site (Watched σ)} {w : Dispatch} {tr : Trace}

theorem begins (hfirst : d.ticket ∉ s.node.messenger.answered) :
    Sound d s ((opening d).step s).1 ((opening d).step s).2 {} where
  begun _ := by simp [Dispatch.step]
  asks := trivial
  id := rfl
  delivery _ h := (Option.some.inj h).symm
  event _ h := (Option.some.inj h).symm
  outcomes := rfl
  turn := rfl
  budget := by simp [Dispatch.step, toGo, audience]
  pending _ := ⟨rfl, hfirst⟩
  ended h := by cases h
  placed _ _ _ _ h := by cases h

/-- The response is sent with the last step, if the query has a correlation id. -/
theorem response {k : Nat} {e : Event} (h : Sound d s (.answering k e) t tr) :
    ((Dispatch.answering k e).step t).2.node.id = s.node.id ∧
      Concludes d s ((Dispatch.answering k e).step t).2 (tr.next (.answering k e) t) := by
  have hanswers : (tr.next (.answering k e) t).answers = tr.answers := List.append_nil _
  obtain rfl := h.event_eq rfl
  obtain rfl := congrArg Delivery.ticket (h.delivery _ rfl)
  obtain ⟨hnone, hfirst⟩ := h.pending (by simp)
  rw [Concludes, hanswers, Trace.responses_next, hnone, List.nil_append]
  simp only [Dispatch.step]
  have hresponse := t.response_respond d
    ((if d.message.query then tr.answers.head? else none).getD [])
  generalize (t.respond d _).1 = result, (t.respond d _).2 = t' at hresponse ⊢
  cases hresponse with
  | refused hfault =>
    have hunanswered : ¬ (d.message.query = true ∧ d.message.correlation.isSome = true) := by
      rw [← Message.refusal?_eq_none_iff, hfault]
      simp
    rw [if_neg hunanswered]
    exact ⟨h.id, hfirst, by simp [Site.written_of_eq]⟩
  | late _ hlate => exact absurd hlate hfirst
  | @sent r _ hnone _ hid htaken hwritten =>
    have hanswered := Message.refusal?_eq_none_iff.1 hnone
    rw [if_pos hanswered]
    refine ⟨hid.trans h.id, htaken ▸ List.mem_cons_self, r.isOk, ?_⟩
    rw [hwritten, h.id, if_pos hanswered.1]
    rfl

/-- As long as the work has not ended it has responded to nothing. -/
theorem pending_step (h : Sound d s w t tr) (hw : w ≠ .done) (hdone : (w.step t).1 ≠ .done) :
    (tr.next w t).responses = [] ∧ d.ticket ∉ (w.step t).2.node.messenger.answered := by
  obtain ⟨hnone, hfirst⟩ := h.pending hw
  obtain ⟨k, e, rfl⟩ | ⟨hquiet, -⟩ := answering_or_quiet t h.asks
  · exact absurd rfl hdone
  · rw [Trace.responses_next_of_quiet hquiet, hquiet.answered]
    exact ⟨hnone, hfirst⟩

/-- When the work ends it has sent the response that it should, and no other one. -/
theorem ended_step (h : Sound d s w t tr) (hcan : w.canStep t.node t.noticed = true)
    (hdone : (w.step t).1 = .done) : Concludes d s (w.step t).2 (tr.next w t) := by
  obtain ⟨k, e, rfl, hquery⟩ | ⟨k, e, rfl⟩ := of_step_eq_done hcan hdone
  · obtain rfl := h.event_eq rfl
    have hunanswered : ¬ (d.message.query = true ∧ d.message.correlation.isSome = true) := by
      rintro ⟨hquery', -⟩
      cases hquery.symm.trans hquery'
    rw [Concludes, if_neg hunanswered, Trace.responses_next_of_quiet (.of_links rfl rfl rfl)]
    exact (h.pending (by simp)).symm
  · exact h.response.2

/-- What has been noted stays right with one more step. -/
theorem step (h : Sound d s w t tr) (hcan : w.canStep t.node t.noticed = true) :
    Sound d s (w.step t).1 (w.step t).2 (tr.next w t) := by
  have hanswered := Event.answerAll_append ⟨d.message, none⟩ tr.answers (w.contents t)
  have hw : w ≠ .done := by
    rintro rfl
    cases hcan
  have hkept : (w.step t).1.Asks ∧ (w.step t).2.node.id = s.node.id := by
    obtain ⟨k, e, rfl⟩ | ⟨hquiet, hasks⟩ := answering_or_quiet t h.asks
    · exact ⟨trivial, h.response.1⟩
    · exact ⟨hasks, hquiet.id.trans h.id⟩
  refine {
    begun := step_ne_opening t w
    asks := hkept.1
    id := hkept.2
    delivery := ?_
    event := ?_
    outcomes := ?_
    turn := ?_
    budget := ?_
    pending := h.pending_step hw
    ended := h.ended_step hcan
    placed := ?_ }
  · intro d' hd'
    obtain hsame | hnone := (w.move_step t).delivery
    · exact h.delivery d' (hsame ▸ hd')
    · cases hnone.symm.trans hd'
  · intro e he
    obtain ⟨e', he', rfl⟩ := event_step he
    rw [h.event e' he']
    exact (congrArg Prod.snd hanswered).symm
  · obtain ⟨e, he⟩ := exists_event hcan
    rw [Trace.next, Dispatch.outcomes, he, h.outcomes, hanswered]
    simp only [h.event e he]
  · rw [Trace.next, List.append_assoc, called_append_rest t h.begun, h.turn]
  · have hlt := toGo_step t h.begun hcan
    have hbudget := h.budget
    simp only [Trace.next]
    omega
  · intro k e c rest hplacing
    obtain ⟨c', rfl⟩ | hcalled := placing_step hplacing
    · exact List.mem_append_left _ (h.placed k e c' rest rfl)
    · exact List.mem_append_right _ hcalled

end Sound

variable {d : Delivery} {s t : Site (Watched σ)} {w : Dispatch} {tr : Trace}

theorem Course.sound (h : Course d s w t tr) (hfirst : d.ticket ∉ s.node.messenger.answered) :
    Sound d s w t tr := by
  induction h with
  | begins => exact .begins hfirst
  | step _ hcan ih => exact ih.step hcan
  | elsewhere _ helse ih => exact ih.elsewhere helse

end Dispatch

/-- The listeners of a message run in turn, and of their answers the first one to a query counts,
while every answer to another message is refused. Nothing but queries is sent before the work has
ended; then a query with a correlation id has got one response and can get no other one, and any
other message has got none. The work takes a bounded number of steps, and can go on until it has
ended, unless a listener that places a service waits for another node. Whoever else responds to the
message is refused if it is no query, or has no correlation id, without taking the right to respond,
and the first one to respond to a query is the only one whose response is sent. -/
theorem Site.answered_once [Transport σ] (s : Site (Watched σ)) (d : Delivery) :
    (d.ticket ∉ s.node.messenger.answered → ∀ w t tr, Dispatch.Course d s w t tr →
      let listeners := Dispatch.audience s d.message
      (tr.called <+: listeners ∧ (w = .done → tr.called = listeners)) ∧
      tr.outcomes = d.message.outcomes tr.answers.length ∧
      (w ≠ .done → tr.responses = []) ∧ (w = .done → Dispatch.Concludes d s t tr) ∧
      tr.steps ≤ 9 * listeners.length + 2 ∧
      (w = .done ∨ w.canStep t.node t.noticed = true ∨
        w.Awaits t.node t.noticed ∧ .startAsHead ∈ tr.called)) ∧
    ∀ contents results sent t, Site.Responds d s contents results sent t →
      match d.message.refusal? with
      | some fault =>
        results = List.replicate contents.length (.error (.protocol fault)) ∧ sent = [] ∧
          (d.ticket ∈ t.node.messenger.answered ↔ d.ticket ∈ s.node.messenger.answered)
      | none =>
        let late := fun n => List.replicate n
          (.error (.protocol (.alreadyAnswered d.message.channel)))
        if d.ticket ∈ s.node.messenger.answered then
          results = late contents.length ∧ sent = []
        else
          (contents = [] ∧ results = [] ∧ sent = [] ∧ d.ticket ∉ t.node.messenger.answered) ∨
            ∃ content more r, contents = content :: more ∧
              results = Except.mapError .transport r :: late more.length ∧
              sent = [⟨d.message.sender, r.isOk, d.message.responseFor s.node.id content⟩] ∧
              d.ticket ∈ t.node.messenger.answered := by
  constructor
  · intro hfirst w t tr hcourse
    have hsound := hcourse.sound hfirst
    have hturn := hsound.turn
    refine ⟨⟨⟨w.rest, hturn⟩, ?_⟩, ?_, fun hw => (hsound.pending hw).1, hsound.ended, ?_, ?_⟩
    · rintro rfl
      exact (List.append_nil _).symm.trans hturn
    · rw [hsound.outcomes, Event.answerAll_new]
    · exact Nat.le_trans (Nat.le_add_right _ _) hsound.budget
    · obtain hdone | hcan | hawaits := Dispatch.canStep_or t.node t.noticed w
      · exact .inl hdone
      · exact .inr (.inl hcan)
      · obtain ⟨k, e, c, rest, hw⟩ := hawaits.exists_placing
        exact .inr (.inr ⟨hawaits, hsound.placed k e c rest hw⟩)
  · intro contents results sent t hresponds
    cases hfault : d.message.refusal? with
    | some fault => exact hresponds.refused hfault
    | none =>
      dsimp only
      split
      · next hlate =>
        obtain ⟨hresults, hsent, -⟩ := hresponds.late hfault hlate
        exact ⟨hresults, hsent⟩
      · next hfirst => exact hresponds.first hfault hfirst

namespace Site

/-- A node with two listeners on a channel, of which the first one answers twice. -/
def desk : Site (Watched Scripted) where
  node := { Node.new ⟨"a", "a:1"⟩ 4096 5000 with
    messenger := ((Messenger.new 5000).listen "c" 0 (.recorder "first" [[1], [2]])).listen "c" 1
      (.recorder "second" [[3]]) }
  links := ⟨Scripted.empty.connect ⟨"b", "b:1"⟩, []⟩
  drawn := 0
  calls := []
  clock := 0
  noticed := 0
  now := .epoch

/-- A query, with or without a correlation id. -/
def question (correlation : Option Uuid) : Delivery :=
  ⟨⟨"c", "b", [.all], [], true, correlation⟩, 0⟩

theorem handlers_desk : desk.node.messenger.listeners.handlers "c" =
    [.recorder "first" [[1], [2]], .recorder "second" [[3]]] := by
  have hfirst (h : Handler) : (Listeners.empty.register "c" 0 h).entries "c" =
      [Listeners.empty.entry ⟨0, h⟩] := by
    rw [Listeners.entries_register, if_pos rfl]
    exact List.mergeSort_singleton _
  change (((Listeners.empty.register "c" 0 _).register "c" 1 _).entries "c").map (·.handler) = _
  rw [Listeners.entries_register, if_pos rfl, hfirst,
    List.mergeSort_of_pairwise (by decide +kernel)]
  rfl

/-- The work on such a query, from its beginning to its end. -/
theorem course_question (correlation : Option Uuid) :
    ∃ t tr, Dispatch.Course (question correlation) desk .done t tr ∧
      tr.answers = [[1], [2], [3]] := by
  have hbegins : Dispatch.Course (question correlation) desk
      (.firing 0 ⟨(question correlation).message, none⟩
        (desk.node.messenger.listeners.handlers "c")) desk {} := .begins
  rw [handlers_desk] at hbegins
  exact ⟨_, _, .step (.step (.step (.step hbegins rfl) rfl) rfl) rfl, rfl⟩

/-- The query is responded to once, with the first of three answers; and of two responses to it that
are asked for directly the second one is refused. -/
theorem question_answered :
    let d := question (some (.fresh 1))
    d.ticket ∉ desk.node.messenger.answered ∧
    (∃ t tr, Dispatch.Course d desk .done t tr ∧
      tr.outcomes = [none, some (.alreadyAnswered "c"), some (.alreadyAnswered "c")] ∧
      ∃ worked, tr.responses =
        [⟨"b", worked, ⟨"c", "a", [.node "b"], [1], false, some (.fresh 1)⟩⟩]) ∧
    ∃ r sent t, Responds d desk [[4], [5]] [r, .error (.protocol (.alreadyAnswered "c"))] sent t ∧
      sent.length = 1 := by
  intro d
  have hfirst : d.ticket ∉ desk.node.messenger.answered := List.not_mem_nil
  obtain ⟨t, tr, hcourse, hanswers⟩ := course_question (some (.fresh 1))
  obtain ⟨-, houtcomes, -, hresponse, -⟩ := (answered_once desk d).1 hfirst _ _ _ hcourse
  rw [hanswers] at houtcomes
  have hconcludes := hresponse rfl
  rw [Dispatch.Concludes, if_pos ⟨rfl, rfl⟩, hanswers] at hconcludes
  obtain ⟨results, sent, t', hresponds⟩ : ∃ results sent t,
      Responds d desk [[4], [5]] results sent t := ⟨_, _, _, .respond (.respond .starts [4]) [5]⟩
  have hnone : d.message.refusal? = none := rfl
  have honce := (answered_once desk d).2 _ _ _ _ hresponds
  simp only [hnone, if_neg hfirst] at honce
  obtain ⟨hempty, -⟩ | ⟨content, more, r, hcontents, rfl, rfl, -⟩ := honce
  · cases hempty
  · cases hcontents
    exact ⟨hfirst, ⟨t, tr, hcourse, houtcomes, hconcludes.2⟩, _, _, t', hresponds, rfl⟩

/-- A query without a correlation id takes its first answer all the same, but gets no response. -/
theorem uncorrelated_answered :
    let d := question none
    d.ticket ∉ desk.node.messenger.answered ∧ ∃ t tr, Dispatch.Course d desk .done t tr ∧
      tr.outcomes = [none, some (.alreadyAnswered "c"), some (.alreadyAnswered "c")] ∧
      ¬ (∀ outcome ∈ tr.outcomes, outcome ≠ none) ∧ tr.responses = [] := by
  intro d
  have hfirst : d.ticket ∉ desk.node.messenger.answered := List.not_mem_nil
  obtain ⟨t, tr, hcourse, hanswers⟩ := course_question none
  have hsound := hcourse.sound hfirst
  have houtcomes := hsound.outcomes
  rw [hanswers, Event.answerAll_new] at houtcomes
  refine ⟨hfirst, t, tr, hcourse, houtcomes, ?_, (hsound.ended rfl).2⟩
  rw [houtcomes]
  exact fun hfail => hfail none (.head _) rfl

end Site

end Fleet

import Fleet.Messenger

/-!
# Answers to a message

A message is guarded twice. Its event takes one answer, and only if it is a query; its ticket gives
the right to answer once, and only if it is a query that can be told apart from others.

## Main definitions

* `Message.outcomes` — what comes of answers to an event.
* `Message.refusal?` — why nobody may respond to a message.

## Main statements

* `Event.answerAll_new` — the first answer to a query counts, and no other one does.
* `Messenger.claimAnswer_eq` — who gets the right to respond.
-/

namespace Fleet

/-- What comes of answers to the event of a message, in order: the first one to a query counts. -/
def Message.outcomes (m : Message) (answers : Nat) : List (Option ProtocolError) :=
  if m.query then (List.replicate answers (some (.alreadyAnswered m.channel))).set 0 none
  else List.replicate answers (some (.notQuery m.channel))

/-- Why nobody may respond to a message. -/
def Message.refusal? (m : Message) : Option ProtocolError :=
  if !m.query then some (.notQuery m.channel)
  else if m.correlation.isNone then some (.noCorrelation m.channel)
  else none

namespace Message

variable {m : Message}

theorem refusal?_eq_none_iff :
    m.refusal? = none ↔ m.query = true ∧ m.correlation.isSome = true := by
  unfold refusal?
  cases m.query <;> cases m.correlation <;> simp

end Message

namespace Event

theorem answerAll_append (e : Event) (answers more : List Bytes) :
    e.answerAll (answers ++ more) =
      ((e.answerAll answers).1 ++ ((e.answerAll answers).2.answerAll more).1,
        ((e.answerAll answers).2.answerAll more).2) := by
  induction answers generalizing e with
  | nil => rfl
  | cons content rest ih =>
    simp only [List.cons_append, answerAll]
    cases e.answer content <;> simp [ih]

theorem tryAnswer_eq (e : Event) (content : Bytes) :
    e.tryAnswer content = (e.answerAll [content]).2 := by
  rw [tryAnswer, answerAll]
  cases e.answer content <;> rfl

/-- Whoever answers an event that takes no answer leaves it as it is. -/
theorem answerAll_of_error {e : Event} {fault : ProtocolError}
    (h : ∀ content, e.answer content = .error fault) (answers : List Bytes) :
    e.answerAll answers = (List.replicate answers.length (some fault), e) := by
  induction answers with
  | nil => rfl
  | cons content rest ih => simp [answerAll, h, ih, List.replicate_succ]

/-- The first answer to a query counts, and no other one changes anything. -/
theorem answerAll_new (m : Message) (answers : List Bytes) :
    (⟨m, none⟩ : Event).answerAll answers =
      (m.outcomes answers.length, ⟨m, if m.query then answers.head? else none⟩) := by
  cases hquery : m.query with
  | false =>
    have hrefused : ∀ content,
        (⟨m, none⟩ : Event).answer content = .error (.notQuery m.channel) := by
      simp [answer, hquery]
    rw [answerAll_of_error hrefused]
    simp [Message.outcomes, hquery]
  | true =>
    cases answers with
    | nil => simp [answerAll, Message.outcomes, hquery]
    | cons content rest =>
      have hfirst : (⟨m, none⟩ : Event).answer content = .ok ⟨m, some content⟩ := by
        simp [answer, hquery]
      have hlater : ∀ more,
          (⟨m, some content⟩ : Event).answer more = .error (.alreadyAnswered m.channel) := by
        simp [answer, hquery]
      simp [answerAll, hfirst, answerAll_of_error hlater, Message.outcomes, hquery,
        List.replicate_succ]

end Event

/-- Who gets the right to respond to a message: the first one who asks for it, or nobody. -/
theorem Messenger.claimAnswer_eq (m : Messenger) (d : Delivery) :
    m.claimAnswer d =
      match d.message.refusal? with
      | some fault => .error fault
      | none =>
        if d.ticket ∈ m.answered then .error (.alreadyAnswered d.message.channel)
        else .ok { m with answered := d.ticket :: m.answered } := by
  unfold claimAnswer Message.refusal?
  cases d.message.query <;> cases d.message.correlation <;> rfl

end Fleet

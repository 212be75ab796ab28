import Fleet.Proofs.Messenger.Answers
import Fleet.Proofs.Transport.Watched

/-!
# Responses to a message

A message may be responded to any number of times and through any copy of it, while anything else
happens at the node. One response is sent at most: the first one to a query with a correlation id.
Whoever comes later is refused, and so is everybody who responds to another message, without taking
the right to respond.

## Main definitions

* `Site.Response` — what comes of a response.
* `Site.Responds` — responses to a message, one after another.

## Main statements

* `Site.Responds.refused`, `Site.Responds.late`, `Site.Responds.first` — what comes of them.
-/

namespace Fleet

variable {σ : Type}

/-- What happens at a node besides: it keeps its id and does not respond to a message. -/
structure Site.Elsewhere (d : Delivery) (s s' : Site σ) : Prop where
  id : s'.node.id = s.node.id
  claim : d.ticket ∈ s'.node.messenger.answered ↔ d.ticket ∈ s.node.messenger.answered

variable [Transport σ]

/-- What comes of a response to a message. -/
inductive Site.Response (s : Site (Watched σ)) (d : Delivery) (content : Bytes) :
    Except MessengerError Unit → Site (Watched σ) → Prop
  | refused {fault : ProtocolError} (h : d.message.refusal? = some fault) :
      Response s d content (.error (.protocol fault)) s
  | late (h : d.message.refusal? = none) (hlate : d.ticket ∈ s.node.messenger.answered) :
      Response s d content (.error (.protocol (.alreadyAnswered d.message.channel))) s
  | sent {r : Except TransportError Unit} {s' : Site (Watched σ)} (h : d.message.refusal? = none)
      (hfirst : d.ticket ∉ s.node.messenger.answered) (hid : s'.node.id = s.node.id)
      (hanswered : s'.node.messenger.answered = d.ticket :: s.node.messenger.answered)
      (hwritten : s.written s' =
        [⟨d.message.sender, r.isOk, d.message.responseFor s.node.id content⟩]) :
      Response s d content (r.mapError .transport) s'

theorem Site.response_respond (s : Site (Watched σ)) (d : Delivery) (content : Bytes) :
    s.Response d content (s.respond d content).1 (s.respond d content).2 := by
  have hclaim := s.node.messenger.claimAnswer_eq d
  cases hfault : d.message.refusal? with
  | some fault =>
    simp only [hfault] at hclaim
    simp only [respond, hclaim]
    exact .refused hfault
  | none =>
    simp only [hfault] at hclaim
    by_cases hlate : d.ticket ∈ s.node.messenger.answered
    · rw [if_pos hlate] at hclaim
      simp only [respond, hclaim]
      exact .late hfault hlate
    · rw [if_neg hlate] at hclaim
      simp only [respond, hclaim]
      exact .sent hfault hlate rfl rfl (written_of_append (attempts_write ..))

/-- Responses to a message, one after another, and anything else at the node in between: their
contents, what came of them, and what was sent. -/
inductive Site.Responds (d : Delivery) (s : Site (Watched σ)) : List Bytes →
    List (Except MessengerError Unit) → List Attempt → Site (Watched σ) → Prop
  | starts : Responds d s [] [] [] s
  | respond {contents : List Bytes} {results : List (Except MessengerError Unit)}
      {sent : List Attempt} {t : Site (Watched σ)} (h : Responds d s contents results sent t)
      (content : Bytes) :
      Responds d s (contents ++ [content]) (results ++ [(t.respond d content).1])
        (sent ++ t.written (t.respond d content).2) (t.respond d content).2
  | elsewhere {contents : List Bytes} {results : List (Except MessengerError Unit)}
      {sent : List Attempt} {t t' : Site (Watched σ)} (h : Responds d s contents results sent t)
      (helse : t.Elsewhere d t') : Responds d s contents results sent t'

namespace Site.Responds

variable {d : Delivery} {s t : Site (Watched σ)} {contents : List Bytes}
  {results : List (Except MessengerError Unit)} {sent : List Attempt}

/-- Nobody may respond to a message that is no query, or to a query without a correlation id, and
who tries does not take the right to. -/
theorem refused (h : Responds d s contents results sent t) {fault : ProtocolError}
    (hfault : d.message.refusal? = some fault) :
    results = List.replicate contents.length (.error (.protocol fault)) ∧ sent = [] ∧
      (d.ticket ∈ t.node.messenger.answered ↔ d.ticket ∈ s.node.messenger.answered) := by
  induction h with
  | starts => exact ⟨rfl, rfl, .rfl⟩
  | @respond contents results sent t _ content ih =>
    obtain ⟨rfl, rfl, hclaim⟩ := ih
    have hresponse := t.response_respond d content
    generalize (t.respond d content).1 = result, (t.respond d content).2 = t' at hresponse ⊢
    cases hresponse with
    | refused hfault' =>
      cases hfault.symm.trans hfault'
      refine ⟨by simp [List.replicate_succ'], by simp [written_of_eq], hclaim⟩
    | late hnone | sent hnone => cases hfault.symm.trans hnone
  | elsewhere _ helse ih => exact ⟨ih.1, ih.2.1, helse.claim.trans ih.2.2⟩

/-- Where the right to respond was taken before, all come too late. -/
theorem late (h : Responds d s contents results sent t) (hnone : d.message.refusal? = none)
    (hlate : d.ticket ∈ s.node.messenger.answered) :
    results = List.replicate contents.length
        (.error (.protocol (.alreadyAnswered d.message.channel))) ∧
      sent = [] ∧ d.ticket ∈ t.node.messenger.answered := by
  induction h with
  | starts => exact ⟨rfl, rfl, hlate⟩
  | @respond contents results sent t _ content ih =>
    obtain ⟨rfl, rfl, hclaim⟩ := ih
    have hresponse := t.response_respond d content
    generalize (t.respond d content).1 = result, (t.respond d content).2 = t' at hresponse ⊢
    cases hresponse with
    | refused hfault => cases hfault.symm.trans hnone
    | late => exact ⟨by simp [List.replicate_succ'], by simp [written_of_eq], hclaim⟩
    | sent _ hfirst => exact absurd hclaim hfirst
  | elsewhere _ helse ih => exact ⟨ih.1, ih.2.1, helse.claim.2 ih.2.2⟩

theorem id_eq (h : Responds d s contents results sent t) : t.node.id = s.node.id := by
  induction h with
  | starts => rfl
  | @respond contents results sent t _ content ih =>
    have hresponse := t.response_respond d content
    generalize (t.respond d content).1 = result, (t.respond d content).2 = t' at hresponse ⊢
    cases hresponse with
    | refused | late => exact ih
    | sent _ _ hid => exact hid.trans ih
  | elsewhere _ helse ih => exact helse.id.trans ih

/-- The first response to a query is sent and takes the right to respond, and all others come too
late. -/
theorem first (h : Responds d s contents results sent t) (hnone : d.message.refusal? = none)
    (hfirst : d.ticket ∉ s.node.messenger.answered) :
    (contents = [] ∧ results = [] ∧ sent = [] ∧ d.ticket ∉ t.node.messenger.answered) ∨
      ∃ (content : Bytes) (later : List Bytes) (r : Except TransportError Unit),
        contents = content :: later ∧
        results = r.mapError .transport :: List.replicate later.length
          (.error (.protocol (.alreadyAnswered d.message.channel))) ∧
        sent = [⟨d.message.sender, r.isOk, d.message.responseFor s.node.id content⟩] ∧
        d.ticket ∈ t.node.messenger.answered := by
  induction h with
  | starts => exact .inl ⟨rfl, rfl, rfl, hfirst⟩
  | @respond contents results sent t h content ih =>
    have hid := h.id_eq
    have hresponse := t.response_respond d content
    generalize (t.respond d content).1 = result, (t.respond d content).2 = t' at hresponse ⊢
    rcases ih with ⟨rfl, rfl, rfl, hclaim⟩ | ⟨content', later, r', rfl, rfl, rfl, hclaim⟩
    · cases hresponse with
      | refused hfault => cases hfault.symm.trans hnone
      | late _ hlate => exact absurd hlate hclaim
      | @sent r _ _ _ _ hanswered hwritten =>
        refine .inr ⟨content, [], r, rfl, rfl, ?_, hanswered ▸ List.mem_cons_self⟩
        rw [List.nil_append, hwritten, hid]
    · cases hresponse with
      | refused hfault => cases hfault.symm.trans hnone
      | late =>
        exact .inr ⟨content', later ++ [content], r', rfl, by simp [List.replicate_succ'],
          by simp [written_of_eq], hclaim⟩
      | sent _ hfirst => exact absurd hclaim hfirst
  | elsewhere _ helse ih =>
    rcases ih with ⟨hc, hr, hs, hclaim⟩ | ⟨content, later, r, hc, hr, hs, hclaim⟩
    · exact .inl ⟨hc, hr, hs, fun h => hclaim (helse.claim.1 h)⟩
    · exact .inr ⟨content, later, r, hc, hr, hs, helse.claim.2 hclaim⟩

end Site.Responds

end Fleet

import Fleet.Proofs.Cluster.Sound
import Fleet.Proofs.Cluster.Tokens

/-!
# Every step moves at most one token

The moves of queries, of creations and of the work on messages, one by one: what they do to the
tokens of the activity, to the outcomes that wait at its node and to the messages in transit.
-/

namespace Fleet

variable {σ : Type} [FaithfulTransport σ] {boxes : Nat → String → Prop}

/-- The tokens that every activity of a node may touch. -/
def Site.tokens (s : Site σ) : Multiset (Uuid × Token) := Fleet.tokens.site s

namespace Site

variable {s s' : Site σ}

theorem tokens_of_eq (hreplies : s'.node.messenger.replies = s.node.messenger.replies)
    (hlinks : s'.links = s.links) : s'.tokens = s.tokens := by
  rw [tokens, tokens, Measure.site, Measure.site, hlinks, Measure.replies_of_eq _ hreplies]

/-- Writing a message brings at most its own token. -/
theorem tokens_write (s : Site σ) (receiver : String) (m : Message) :
    (s.write receiver m).2.tokens ≤ s.tokens ∨
      ∃ k, FaithfulTransport.box? s.links receiver = some k ∧
        (s.write receiver m).2.tokens ≤ Fleet.tokens.letter k m + s.tokens := by
  rcases FaithfulTransport.transit_write s.links s.node.id receiver m with hle | ⟨k, hk, hle⟩
  · left
    exact add_le_add_right (Fleet.tokens.links_le hle) _
  · right
    refine ⟨k, hk, ?_⟩
    calc (s.write receiver m).2.tokens
        ≤ Fleet.tokens.replies s.node.messenger +
            (Fleet.tokens.letter k m + Fleet.tokens.links s.links) :=
          add_le_add_right (Fleet.tokens.links_cons_le hle) _
      _ = Fleet.tokens.letter k m + s.tokens := by rw [tokens, Measure.site]; ac_rfl

end Site

namespace Query

theorem subject?_notes {cause : Cause} {a : String} {q q' : Query}
    (h : ∀ id target m timeout, q' ≠ .writing id target m timeout) :
    ∀ n ∈ q.notes cause a q', n.subject? = none := by
  intro n hn
  simp only [notes] at hn
  split at hn
  · exact absurd rfl (h _ _ _ _)
  · obtain ⟨id, -, rfl⟩ : ∃ id, _ ∧ _ = n := by simpa using hn
    rfl
  · cases hn

/-- A query that is written travels, or is lost. -/
theorem shift_write {s : Site σ} {s' : Site σ} {id : Uuid} {target : String} {m : Message}
    {timeout : Nat} {new : List Note} (hkept : Kept boxes s.links)
    (hs' : s'.tokens = (s.write target m).2.tokens) (hnew : ∀ n ∈ new, n.subject? = none)
    (hdrawn : s'.drawn = s.drawn) :
    Shift boxes ((Query.writing id target m timeout).token + s.tokens) s'.tokens new
      s.drawn s'.drawn := by
  have hstory := story_eq_nil hnew
  by_cases hm : m.IsQuery id
  · rcases s.tokens_write target m with hle | ⟨k, hk, hle⟩
    · refine .quiet ?_ hstory hdrawn.ge
      rw [hs']
      exact hle.trans (Multiset.le_add_left _ _)
    · have hletter : tokens.letter k m = {(id, .travelling k m)} := by
        simp [tokens, hm.1, Message.queryId, hm.2]
      have hfit : ∀ st, Fits boxes id (.writing target m) st →
          Fits boxes id (.travelling k m) (story new id ++ st) := by
        rintro st ⟨-, c, a, rfl⟩
        refine ⟨hm, c, a, target, by simp [hstory], fun b' hb' => ?_⟩
        exact (hkept k b' hb' target hk).symm
      have hT' : s'.tokens ≤ (id, Token.travelling k m) ::ₘ s.tokens := by
        rw [hs']
        rwa [hletter] at hle
      exact .advance (le_refl _) hT' (fun other _ => hstory other) hfit hdrawn.ge
  · have hmem : (id, Token.writing target m) ∈
        (Query.writing id target m timeout).token + s.tokens :=
      Multiset.mem_add.2 (.inl (Multiset.mem_singleton_self _))
    exact .never hmem fun st hst => hm hst.1

theorem Move.shift {s s' : Site σ} {q q' : Query} (hmove : Query.Move s q q' s') (cause : Cause)
    (hkept : Kept boxes s.links) :
    Shift boxes (q.token + s.tokens) (q'.token + s'.tokens) (q.notes cause s.node.id q')
      s.drawn s'.drawn := by
  cases hmove with
  | @enters m timeout target hfound =>
    have hfit : Fits boxes (.fresh s.drawn) (.writing target (m.intoQuery (.fresh s.drawn)))
        (story (notes cause s.node.id (.opening m timeout)
          (.writing (.fresh s.drawn) target (m.intoQuery (.fresh s.drawn)) timeout))
          (.fresh s.drawn)) :=
      ⟨⟨rfl, rfl⟩, cause, s.node.id, by simp [notes, story, Note.subject?]⟩
    refine .draw ?_ (fun other hne => ?_) hfit rfl
    · change _ ≤ _ ::ₘ (0 + s.tokens)
      rw [zero_add]
      exact le_refl _
    · simp [notes, story, Note.subject?, hne.symm]
  | unaddressed => exact .quiet (le_refl _) (fun id => rfl) (le_refl _)
  | @written id target m timeout =>
    have h : Shift boxes ((Query.writing id target m timeout).token + s.tokens)
        (s.write target m).2.tokens [] s.drawn (s.write target m).2.drawn :=
      shift_write hkept rfl (by simp) rfl
    exact h.mono_right (zero_add _).le
  | @unwritten id target m timeout =>
    have h : Shift boxes ((Query.writing id target m timeout).token + s.tokens)
        ((s.write target m).2.withMessenger (s.node.messenger.dropQuery id)).tokens
        (notes cause s.node.id (.writing id target m timeout) (.done (.ok none))) s.drawn s.drawn :=
      shift_write hkept rfl (subject?_notes (by simp)) rfl
    exact h.mono_right (zero_add _).le
  | @picks q id r hq hr =>
    have htoken : (ofReply r).token = 0 := by cases r <;> rfl
    refine .quiet ?_ (story_eq_nil (subject?_notes ?_)) (le_refl _)
    · rw [htoken, zero_add]
      refine le_trans ?_ (Multiset.le_add_left _ _)
      exact add_le_add_left (tokens.replies_erase_le _ id) _
    · cases r <;> simp [ofReply]
  | expires => exact .quiet (le_refl _) (story_eq_nil (subject?_notes (by simp))) (le_refl _)
  | late => exact .quiet (le_refl _) (story_eq_nil (subject?_notes (by simp))) (le_refl _)
  | rests _ hwriting =>
    exact .quiet (le_refl _) (story_eq_nil (subject?_notes hwriting)) (le_refl _)

end Query

/-! ### Creations -/

/-- The notes of a step of a creation that tell the story of a query. -/
theorem Work.story_notes (cause : Cause) (n n' : Node) (work work' : Work) (id : Uuid) :
    story (work.notes cause n n' work') id =
      story (work.answers work') id ++ story (work.progress cause n.id work') id := by
  have hconclusion : story (work.conclusion cause work') id = [] := by
    refine story_eq_nil (fun x hx => ?_) id
    simp only [conclusion, Creation.notes] at hx
    split at hx
    · split at hx
      · cases hx
      · simp only [List.mem_singleton] at hx
        rw [hx]
        rfl
      · cases hx
    · cases hx
  have hstarted : story ((n.ledger.additions n'.ledger).map (.started cause n.id)) id = [] := by
    refine story_eq_nil (fun x hx => ?_) id
    obtain ⟨s, -, rfl⟩ := List.mem_map.1 hx
    rfl
  have hsight : story (work.sight cause n) id = [] := by
    refine story_eq_nil (fun x hx => ?_) id
    rcases mem_sight hx with ⟨head, rfl⟩ | ⟨chosen, rfl⟩ <;> rfl
  simp [notes, hconclusion, hstarted, hsight]

/-- The note on a query in a step of a creation. -/
def Creation.progress (cause : Cause) (a : String) (c c' : Creation) : List Note :=
  match c.query?, c'.query? with
  | some q, some q' => q.notes cause a q'
  | _, _ => []

namespace Creation

omit [FaithfulTransport σ] in
/-- A creation that asks another node starts with a query that has not been entered. -/
theorem query?_ask (channel node : String) (spec : ServiceSpec) (s : Site σ) :
    (ask channel node spec s).query? = none ∨
      ∃ m timeout, (ask channel node spec s).query? = some (.opening m timeout) := by
  rw [ask]
  split
  · exact .inr ⟨_, _, rfl⟩
  · exact .inl rfl

theorem undecided?_query? {c : Creation} {spec : ServiceSpec} (h : c.undecided? = some spec) :
    c.query? = none := by
  cases c <;> first | rfl | cases h

theorem Move.shift {s s' : Site σ} {c c' : Creation} (hmove : Creation.Move s c c' s')
    (cause : Cause) (hkept : Kept boxes s.links) :
    Shift boxes (c.token + s.tokens) (c'.token + s'.tokens) (c.progress cause s.node.id c')
      s.drawn s'.drawn := by
  have hquiet : ∀ {c c' : Creation} {s' : Site σ}, c.query? = none → c'.token = 0 →
      s'.tokens = s.tokens → s.drawn ≤ s'.drawn →
      Shift boxes (c.token + s.tokens) (c'.token + s'.tokens) (c.progress cause s.node.id c')
        s.drawn s'.drawn := by
    intro c c' s' hc hc' htokens hdrawn
    refine .quiet ?_ (fun id => by simp [progress, hc]) hdrawn
    rw [hc', htokens, zero_add]
    exact Multiset.le_add_left _ _
  cases hmove with
  | refuses hc => exact hquiet (by rcases hc with rfl | rfl <;> rfl) rfl rfl (le_refl _)
  | leads => exact hquiet rfl rfl rfl (le_refl _)
  | refreshes =>
    obtain ⟨roster, heq, -⟩ := s.node.exists_refreshLoad s.now
    rw [heq]
    exact hquiet rfl rfl rfl (le_refl _)
  | starts => exact hquiet rfl rfl rfl (Nat.le_succ _)
  | @sends c spec channel target haim =>
    refine hquiet (by cases haim <;> rfl) ?_ rfl (le_refl _)
    rcases query?_ask channel target spec s with h | h
    · simp [token, h]
    · obtain ⟨m, timeout, h⟩ := h
      simp [token, h, Query.token]
  | asks hq hmove => exact hmove.shift cause hkept
  | concludes => exact .quiet (le_refl _) (fun id => rfl) (le_refl _)
  | rests => exact hquiet rfl rfl rfl (le_refl _)

end Creation

/-! ### Work on messages -/

namespace Event

/-- An answer that counts moves the token of its query along. -/
theorem Answered.shift {e e' : Event} (h : Answered e e') (a : String)
    {drawn drawn' : Nat} (hdrawn : drawn ≤ drawn') :
    Shift boxes (e.token a) (e'.token a) (e.notes e') drawn drawn' := by
  rcases h.response with heq | ⟨hquery, hnone, content, hsome⟩
  · have hsame : e' = e := by
      have hmessage := h.message
      cases e
      cases e'
      cases hmessage
      cases heq
      rfl
    rw [hsame, e.notes_self]
    exact .quiet (le_refl _) (fun _ => rfl) hdrawn
  · have hT : e.token a = {(e.message.queryId, .handling a e.message none)} := by
      simp [token, hquery, hnone]
    have hT' : e'.token a = {(e.message.queryId, .handling a e.message (some content))} := by
      simp [token, h.message, hquery, hsome]
    have hnotes : e.notes e' = [.set e.message.queryId content] := by
      simp [notes, Message.cause, hquery, hnone, hsome, Message.queryId]
    have hfit : ∀ s, Fits boxes e.message.queryId (.handling a e.message none) s →
        Fits boxes e.message.queryId (.handling a e.message (some content))
          (story (e.notes e') e.message.queryId ++ s) := by
      rintro s ⟨hm, c, b, rfl⟩
      exact ⟨hm, c, b, by simp [hnotes, story, Note.subject?, takenStory]⟩
    refine .advance (R := 0) hT.ge hT'.le (fun other hne => ?_) hfit hdrawn
    simp [hnotes, story, Note.subject?, hne.symm]

end Event

namespace Dispatch

/-- The note on a query in a step of the work on a message. -/
def progress (cause : Cause) (a : String) (d d' : Dispatch) : List Note :=
  Work.progress cause a (.dispatch d) (.dispatch d')

/-- The note on an answer in a step of the work on a message. -/
def answers (d d' : Dispatch) : List Note := Work.answers (.dispatch d) (.dispatch d')

/-- The response to a query takes its token back, or is lost. -/
theorem shift_respond (s : Site σ) (ticket : Nat) (e : Event) :
    Shift boxes (e.token s.node.id + s.tokens)
      (s.respond ⟨e.message, ticket⟩ (e.response.getD [])).2.tokens [] s.drawn
      (s.respond ⟨e.message, ticket⟩ (e.response.getD [])).2.drawn := by
  rw [Site.respond]
  cases hclaim : s.node.messenger.claimAnswer ⟨e.message, ticket⟩ with
  | error fault => exact .quiet (Multiset.le_add_left _ _) (fun id => rfl) (le_refl _)
  | ok messenger =>
    obtain ⟨hquery, answered, rfl⟩ := Messenger.exists_claimAnswer hclaim
    dsimp only at hquery
    have hreplies : ({ s.node.messenger with answered } : Messenger).replies =
        s.node.messenger.replies := rfl
    have hsite : (s.withMessenger { s.node.messenger with answered }).tokens = s.tokens :=
      Site.tokens_of_eq hreplies rfl
    have htoken : e.token s.node.id =
        {(e.message.queryId, .handling s.node.id e.message e.response)} := by
      simp [Event.token, hquery]
    by_cases hm : e.message.IsQuery e.message.queryId
    · rcases (s.withMessenger { s.node.messenger with answered }).tokens_write e.message.sender
        (e.message.responseFor s.node.id (e.response.getD [])) with hle | ⟨k, -, hle⟩
      · refine .quiet ?_ (fun id => rfl) (le_refl _)
        exact (hle.trans hsite.le).trans (Multiset.le_add_left _ _)
      · have hletter : tokens.letter k (e.message.responseFor s.node.id (e.response.getD [])) =
            {(e.message.queryId, .returning
              (e.message.responseFor s.node.id (e.response.getD [])))} := by
          simp [tokens, Message.responseFor, hm.2]
        rw [hletter, hsite] at hle
        have hfit : ∀ st,
            Fits boxes e.message.queryId (.handling s.node.id e.message e.response) st →
              Fits boxes e.message.queryId (.returning
                (e.message.responseFor s.node.id (e.response.getD []))) ([] ++ st) := by
          rintro st ⟨hm, c, a, rfl⟩
          exact ⟨c, a, s.node.id, e.message, e.response, hm, rfl, rfl⟩
        exact .advance (by rw [htoken]; rfl) hle (fun _ _ => rfl) hfit (le_refl _)
    · have hmem : (e.message.queryId, Token.handling s.node.id e.message e.response) ∈
          e.token s.node.id + s.tokens := by
        rw [htoken]
        exact Multiset.mem_add.2 (.inl (Multiset.mem_singleton_self _))
      exact .never hmem fun st hst => hm hst.1

theorem Move.shift {s s' : Site σ} {d d' : Dispatch} (hmove : Dispatch.Move s d d' s')
    (cause : Cause) (hkept : Kept boxes s.links) :
    Shift boxes (d.token s.node.id + s.tokens) (d'.token s.node.id + s'.tokens)
      (d.answers d' ++ d.progress cause s.node.id d') s.drawn s'.drawn := by
  -- A step that sets at most the answer of the event moves at most the event's token.
  have hevent : ∀ {d d' : Dispatch} {s' : Site σ} {e e' : Event}, d.event? = some e →
      d'.event? = some e' → d'.creation?.elim 0 Creation.token = 0 →
      d.progress cause s.node.id d' = [] → e.Answered e' → s'.tokens = s.tokens →
      s.drawn ≤ s'.drawn →
      Shift boxes (d.token s.node.id + s.tokens) (d'.token s.node.id + s'.tokens)
        (d.answers d' ++ d.progress cause s.node.id d') s.drawn s'.drawn := by
    intro d d' s' e e' he he' hc hprogress hanswered htokens hdrawn
    have hnotes : d.answers d' ++ d.progress cause s.node.id d' = e.notes e' := by
      simp [hprogress, Dispatch.answers, Work.answers, Work.event?, he, he']
    have hshift : Shift boxes (e.token s.node.id) (e'.token s.node.id) (e.notes e') s.drawn
        s'.drawn := hanswered.shift s.node.id hdrawn
    have h := hshift.add_right (d.creation?.elim 0 Creation.token + s.tokens)
    rw [hnotes]
    refine (h.congr_left ?_).mono_right ?_
    · simp only [token, he, Option.elim_some, add_assoc]
    · simp only [token, he', Option.elim_some, hc, htokens, add_zero]
      exact add_le_add_right (Multiset.le_add_left _ _) _
  cases hmove with
  | opens dl => exact hevent rfl rfl rfl rfl (.refl _) rfl (le_refl _)
  | @ends ticket e =>
    split
    · exact hevent rfl rfl rfl rfl (.refl _) rfl (le_refl _)
    · refine .quiet ?_ (fun id => rfl) (le_refl _)
      exact add_le_add_left (Multiset.zero_le _) _
  | records label answers =>
    exact hevent rfl rfl rfl rfl (Event.answered_answerAll _ answers) rfl (le_refl _)
  | @stores ticket e rest =>
    obtain ⟨roster, heq, -⟩ := storeLoad_eq e.message s
    exact hevent rfl rfl rfl rfl (.refl _) (by rw [heq]; rfl) (by rw [heq]; rfl)
  | ignores => exact hevent rfl rfl rfl rfl (.refl _) rfl (le_refl _)
  | starts =>
    exact hevent rfl rfl rfl rfl (Event.answered_answerWith _ _) rfl (Nat.le_succ _)
  | places => exact hevent rfl rfl rfl rfl (.refl _) rfl (le_refl _)
  | @creates ticket e c c' rest s' hc hmove =>
    have h := (hmove.shift cause hkept).add_right (e.token s.node.id)
    have hanswers : Dispatch.answers (.placing ticket e c rest) (.placing ticket e c' rest) =
        e.notes e := rfl
    rw [hanswers, e.notes_self, List.nil_append]
    refine (h.congr_left ?_).mono_right (le_of_eq ?_)
    · simp only [token, event?, creation?, Option.elim_some]
      ac_rfl
    · simp only [token, event?, creation?, Option.elim_some]
      ac_rfl
  | resumes =>
    exact hevent rfl rfl rfl rfl (Event.answered_answerWith _ _) rfl (le_refl _)
  | @answers ticket e =>
    have h : Shift boxes (e.token s.node.id + s.tokens) _ _ _ _ := shift_respond s ticket e
    refine (h.congr_left ?_).mono_right (zero_add _).le
    simp [token, event?, creation?]
  | rests => exact .quiet (le_refl _) (fun id => rfl) (le_refl _)

end Dispatch

end Fleet

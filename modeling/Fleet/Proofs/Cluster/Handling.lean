import Fleet.Proofs.Cluster.Requests
import Fleet.Proofs.Messenger.Listeners

/-!
# What becomes of a start request on a node

The nodes of a cluster listen on two channels for start requests. A query on the one makes a node
start a service itself, one on the other makes it decide as the head. What has been noted since a
node took up a query says what it has done about it and with what it answers.
-/

namespace Fleet

/-- A listener starts or places services. -/
def Handler.Starts (h : Handler) : Prop := h = .startHere ∨ h = .startAsHead

/-- The listeners of a node of a cluster: start requests go to the listeners that are there for
them, if these are still registered, and no other listener starts anything. -/
structure Listeners.Standard (ls : Listeners Handler) : Prop where
  start : ls.handlers startChannel = [] ∨ ls.handlers startChannel = [.startHere]
  place : ls.handlers placeChannel = [] ∨ ls.handlers placeChannel = [.startAsHead]
  others : ∀ channel, channel ≠ startChannel → channel ≠ placeChannel →
    ∀ h ∈ ls.handlers channel, ¬ h.Starts

/-- The handlers after a registration on a channel that has no listeners. -/
theorem Listeners.handlers_register {ls : Listeners Handler} {handlers : String → List Handler}
    (hls : ∀ channel, ls.handlers channel = handlers channel) (channel : String)
    (hnone : handlers channel = []) (priority : Int) (h : Handler) (other : String) :
    (ls.register channel priority h).handlers other =
      if other = channel then [h] else handlers other := by
  have hentries : ls.entries channel = [] := List.map_eq_nil_iff.1 ((hls channel).trans hnone)
  rw [Listeners.handlers, entries_register]
  split
  · rw [hentries, List.nil_append, List.mergeSort_singleton]
    rfl
  · exact hls other

/-- The listeners that make a node a part of a cluster. -/
theorem Node.standard_withListeners (i : Identity) (memory : UInt64) (timeout : Nat) :
    (Node.new i memory timeout).withListeners.messenger.listeners.Standard := by
  have hhandlers : ∀ channel,
      (Node.new i memory timeout).withListeners.messenger.listeners.handlers channel =
        if channel = reportChannel then [.storeLoad]
        else if channel = placeChannel then [.startAsHead]
        else if channel = startChannel then [.startHere] else [] := by
    have hempty : ∀ channel, (Listeners.empty : Listeners Handler).handlers channel = [] :=
      fun _ => rfl
    have hstart := Listeners.handlers_register hempty startChannel rfl normalPriority .startHere
    have hplace := Listeners.handlers_register hstart placeChannel rfl normalPriority .startAsHead
    exact Listeners.handlers_register hplace reportChannel rfl normalPriority .storeLoad
  refine ⟨.inr ?_, .inr ?_, fun channel hstart hplace h hh => ?_⟩
  · rw [hhandlers, if_neg (by decide), if_neg (by decide), if_pos rfl]
  · rw [hhandlers, if_neg (by decide), if_pos rfl]
  · rw [hhandlers, if_neg hplace, if_neg hstart] at hh
    split at hh
    · rw [List.mem_singleton.1 hh]
      simp [Handler.Starts]
    · cases hh

namespace Dispatch

/-- What a node has noted about a query that it has taken up, when all listeners are through, and
the answer that they have set. -/
inductive Handled (b : String) (id : Uuid) (m : Message) : Option Bytes → List Note → Prop
  | unserved : Handled b id m none [.taken b id]
  | elsewhere {content : Bytes} (hstart : m.channel ≠ startChannel)
      (hplace : m.channel ≠ placeChannel) :
      Handled b id m (some content) [.set id content, .taken b id]
  | started {spec : ServiceSpec} {s : Service} (hchannel : m.channel = startChannel)
      (hspec : ServiceSpec.ofBytes? m.content = some spec)
      (hserves : Ledger.Serves spec b s.created s) (hnow : s.created.Regular) :
      Handled b id m (some s.bytes)
        [.set id s.bytes, .started (.query id) b s, .taken b id]
  | placed {spec : ServiceSpec} {s : Service} {T : List Note} (hchannel : m.channel = placeChannel)
      (hspec : ServiceSpec.ofBytes? m.content = some spec)
      (htold : Creation.Told (.query id) b (.placing spec) spec (.done (.ok s)) T) :
      Handled b id m (some s.bytes) (.set id s.bytes :: (T ++ [.taken b id]))
  | unplaced {spec : ServiceSpec} {e : CreateError} {T : List Note}
      (hchannel : m.channel = placeChannel)
      (hspec : ServiceSpec.ofBytes? m.content = some spec)
      (htold : Creation.Told (.query id) b (.placing spec) spec (.done (.error e)) T) :
      Handled b id m none (T ++ [.taken b id])

/-- What has been noted since a node took up a query, by where it is now. -/
inductive Told (b : String) (id : Uuid) (m : Message) : Dispatch → List Note → Prop
  | opening {d : Delivery} (hd : d.message = m) : Told b id m (.opening d) [.taken b id]
  | starting {ticket : Nat} {e : Event} (he : e.message = m) (hnone : e.response = none)
      (hchannel : m.channel = startChannel) :
      Told b id m (.firing ticket e [.startHere]) [.taken b id]
  | heading {ticket : Nat} {e : Event} (he : e.message = m) (hnone : e.response = none)
      (hchannel : m.channel = placeChannel) :
      Told b id m (.firing ticket e [.startAsHead]) [.taken b id]
  | placing {ticket : Nat} {e : Event} {spec : ServiceSpec} {c : Creation} {T : List Note}
      (he : e.message = m) (hnone : e.response = none) (hchannel : m.channel = placeChannel)
      (hspec : ServiceSpec.ofBytes? m.content = some spec)
      (htold : Creation.Told (.query id) b (.placing spec) spec c T) :
      Told b id m (.placing ticket e c []) (T ++ [.taken b id])
  | firing {ticket : Nat} {e : Event} {rest : List Handler} {T : List Note} (he : e.message = m)
      (hrest : ∀ h ∈ rest, ¬ h.Starts ∧ m.channel ≠ startChannel ∧ m.channel ≠ placeChannel)
      (hhandled : Handled b id m e.response T) : Told b id m (.firing ticket e rest) T
  | answering {ticket : Nat} {e : Event} {T : List Note} (he : e.message = m)
      (hhandled : Handled b id m e.response T) : Told b id m (.answering ticket e) T
  | done {response : Option Bytes} {T : List Note} (hhandled : Handled b id m response T) :
      Told b id m .done T

variable {σ : Type} [FaithfulTransport σ] {b : String} {id : Uuid} {m : Message} {T : List Note}

theorem Told.message {d : Dispatch} {e : Event} (hT : Told b id m d T) (he : d.event? = some e) :
    e.message = m := by
  cases hT with
  | opening hd =>
    cases he
    exact hd
  | starting h | heading h | placing h | firing h | answering h =>
    cases he
    exact h
  | done => cases he

theorem Handled.taken_mem {response : Option Bytes} (h : Handled b id m response T) :
    .taken b id ∈ T := by
  cases h <;> simp

theorem Told.taken_mem {d : Dispatch} (hT : Told b id m d T) : .taken b id ∈ T := by
  cases hT with
  | firing _ _ h | answering _ h | done h => exact h.taken_mem
  | opening | starting | heading | placing => simp

/-- The answer that a listener which starts services gives. -/
theorem notes_answerWith {e : Event} {r : Except CreateError Service} (hm : e.message.IsQuery id)
    (hnone : e.response = none) :
    e.notes (answerWith e r) = (r.toOption.map fun s => .set id s.bytes).toList ∧
      (answerWith e r).message = e.message ∧
        (answerWith e r).response = r.toOption.map Service.bytes := by
  have hcause : e.message.cause = .query id := by simp [Message.cause, hm.1, hm.2]
  cases r with
  | error f => exact ⟨e.notes_self, rfl, hnone⟩
  | ok s =>
    have hanswer : answerWith e (.ok s) = { e with response := some s.bytes } := by
      simp [answerWith, Event.tryAnswer, Event.answer, hm.1, hnone]
    rw [hanswer]
    refine ⟨?_, rfl, rfl⟩
    simp [Event.notes, hcause, hnone, Except.toOption]

/-- Listeners that start nothing answer at most once. -/
theorem Handled.answered {e e' : Event} (hm : m.IsQuery id) (he : e.message = m)
    (hanswered : e.Answered e') (hstart : m.channel ≠ startChannel)
    (hplace : m.channel ≠ placeChannel) (hhandled : Handled b id m e.response T) :
    Handled b id m e'.response (e.notes e' ++ T) := by
  have hcause : e.message.cause = .query id := by simp [Message.cause, he, hm.1, hm.2]
  rcases hanswered.response with hsame | ⟨-, hnone, content, hsome⟩
  · have hnotes : e.notes e' = [] := by
      rw [Event.notes]
      split
      · next hnone hsome =>
        rw [hsame, hnone] at hsome
        cases hsome
      · rfl
    rw [hnotes, hsame]
    exact hhandled
  · have hnotes : e.notes e' = [.set id content] := by
      simp [Event.notes, hcause, hnone, hsome]
    rw [hnotes, hsome]
    rw [hnone] at hhandled
    cases hhandled with
    | unserved => exact .elsewhere hstart hplace
    | unplaced hchannel => exact absurd hchannel hplace

omit [FaithfulTransport σ] in
/-- A start request that is served is a query with a specification. -/
theorem ofBytes?_of_request? {n : Node} {spec : ServiceSpec} (h : request? n m = some spec) :
    m.query = true ∧ ServiceSpec.ofBytes? m.content = some spec := by
  rw [request?] at h
  split at h
  · next hserved =>
    simp only [Bool.and_eq_true] at hserved
    exact ⟨hserved.2, h⟩
  · cases h

theorem ledger_respond (s : Site σ) (d : Delivery) (content : Bytes) :
    (s.respond d content).2.node.ledger = s.node.ledger := by
  rw [Site.respond]
  cases h : s.node.messenger.claimAnswer d with
  | error => rfl
  | ok messenger => rfl

/-- Looking up the listeners of a node of a cluster. -/
theorem told_opens {ls : Listeners Handler} (hls : ls.Standard) (d : Delivery) :
    Told b id d.message
      (.firing d.ticket ⟨d.message, none⟩ (ls.handlers d.message.channel)) [.taken b id] := by
  have hquiet : Told b id d.message (.firing d.ticket ⟨d.message, none⟩ []) [.taken b id] :=
    .firing rfl (by simp) .unserved
  by_cases hstart : d.message.channel = startChannel
  · rw [hstart]
    rcases hls.start with h | h <;> rw [h]
    · exact hquiet
    · exact .starting rfl rfl hstart
  · by_cases hplace : d.message.channel = placeChannel
    · rw [hplace]
      rcases hls.place with h | h <;> rw [h]
      · exact hquiet
      · exact .heading rfl rfl hplace
    · exact .firing rfl (fun h hh => ⟨hls.others _ hstart hplace h hh, hstart, hplace⟩) .unserved

/-- A creation that has ended answers for the head. -/
theorem told_resumes {ticket : Nat} {e : Event} {r : Except CreateError Service}
    {rest : List Handler} (hm : m.IsQuery id)
    (hT : Told b id m (.placing ticket e (.done r) rest) T) :
    Told b id m (.firing ticket (answerWith e r) rest) (e.notes (answerWith e r) ++ T) := by
  cases hT with
  | placing he hnone hchannel hspec htold =>
    obtain ⟨hnotes, hmessage, hresponse⟩ := notes_answerWith (r := r) (he ▸ hm) hnone
    rw [hnotes]
    refine .firing (hmessage.trans he) (by simp) ?_
    rw [hresponse]
    cases r with
    | ok s => exact .placed hchannel hspec htold
    | error f => exact .unplaced hchannel hspec htold

omit [FaithfulTransport σ] in
/-- A service that is started for a query is its answer. -/
theorem told_starts {s : Site σ} {ticket : Nat} {e : Event} {rest : List Handler}
    {spec : ServiceSpec} (hm : m.IsQuery id) (hspec : request? s.node e.message = some spec)
    (hT : Told s.node.id id m (.firing ticket e (.startHere :: rest)) T)
    (hn : s.node.Sound Listeners.Standard s.drawn) (hnow : s.now.Regular)
    (hdrawn : s.drawn < 2 ^ 128) :
    Told s.node.id id m
      (.firing ticket (answerWith e ((s.start spec).1.mapError .refused)) rest)
      (e.notes (answerWith e ((s.start spec).1.mapError .refused)) ++
        (s.node.ledger.additions (s.start spec).2.node.ledger).map
          (.started (.query id) s.node.id) ++ T) := by
  cases hT with
  | starting he hnone hchannel =>
    obtain ⟨hnotes, hmessage, hresponse⟩ :=
      notes_answerWith (r := (s.start spec).1.mapError .refused) (he ▸ hm) hnone
    rw [he] at hspec
    rw [hnotes]
    refine .firing (hmessage.trans he) (by simp) ?_
    rw [hresponse, Site.start_eq]
    rcases hn.start hnow hdrawn spec with ⟨x, hx, hadds, hserves, hcreated⟩ | ⟨f, hf, hadds⟩
    · simp only [hx, hadds]
      exact .started hchannel (ofBytes?_of_request? hspec).2 hserves hcreated
    · simp only [hf, hadds]
      exact .unserved
  | firing he hrest => exact absurd (.inl rfl) (hrest _ List.mem_cons_self).1

omit [FaithfulTransport σ] in
/-- A step that answers and starts nothing notes nothing. -/
theorem notes_quiet {n n' : Node} {d d' : Dispatch} {e : Event} {c : Cause}
    (hcreation : d.creation? = none) (he : d.event? = some e)
    (he' : d'.event? = some e ∨ d'.event? = none)
    (hledger : n'.ledger = n.ledger) :
    (Work.dispatch d).notes c n n' (.dispatch d') = [] := by
  have hanswers : Work.answers (.dispatch d) (.dispatch d') = [] := by
    rcases he' with he' | he' <;> simp [Work.answers, Work.event?, he, he']
  rw [Work.notes_listening (.inl hcreation), hanswers, hledger,
    Ledger.additions_of_services_eq rfl]
  rfl

/-- Every step of the work on a query notes what becomes of it. -/
theorem Move.told {s s' : Site σ} {d d' : Dispatch} (hmove : Dispatch.Move s d d' s')
    (hm : m.IsQuery id) (hT : Told s.node.id id m d T)
    (hn : s.node.Sound Listeners.Standard s.drawn) (hnow : s.now.Regular)
    (hdrawn : s'.drawn ≤ 2 ^ 128) :
    Told s.node.id id m d'
      ((Work.dispatch d).notes (.query id) s.node s'.node (.dispatch d') ++ T) := by
  cases hmove with
  | opens d =>
    cases hT with
    | opening hd =>
      subst hd
      rw [notes_quiet rfl rfl (.inl rfl) rfl]
      exact told_opens hn.listeners d
  | ends =>
    cases hT with
    | firing he hrest hhandled =>
      rw [if_pos (by rw [he]; exact hm.1), notes_quiet rfl rfl (.inl rfl) rfl]
      exact .answering he hhandled
  | @records ticket e rest label answers =>
    cases hT with
    | firing he hrest hhandled =>
      have hanswered : e.Answered (record label answers e s).1 := e.answered_answerAll answers
      obtain ⟨-, hstart, hplace⟩ := hrest _ List.mem_cons_self
      have hadds : s.node.ledger.additions (record label answers e s).2.node.ledger = [] :=
        Ledger.additions_of_services_eq rfl
      rw [Work.notes_listening (.inl rfl), hadds, List.map_nil, List.append_nil]
      exact .firing (hanswered.message.trans he) (fun h hh => hrest h (List.mem_cons_of_mem _ hh))
        (hhandled.answered hm he hanswered hstart hplace)
  | @stores ticket e rest =>
    cases hT with
    | firing he hrest hhandled =>
      obtain ⟨roster, heq, -⟩ := storeLoad_eq e.message s
      rw [notes_quiet rfl rfl (.inl rfl) (by rw [heq]; rfl)]
      exact .firing he (fun h hh => hrest h (List.mem_cons_of_mem _ hh)) hhandled
  | ignores hh hnone =>
    rw [notes_quiet rfl rfl (.inl rfl) rfl]
    cases hT with
    | starting he hresponse | heading he hresponse =>
      refine .firing he (by simp) ?_
      rw [hresponse]
      exact .unserved
    | firing he hrest => exact absurd hh (hrest _ List.mem_cons_self).1
  | starts hspec =>
    have hlt : s.drawn + 1 ≤ 2 ^ 128 := hdrawn
    rw [Work.notes_listening (.inl rfl)]
    exact told_starts hm hspec hT hn hnow (by omega)
  | @places ticket e rest spec hspec =>
    have hnotes : (Work.dispatch (.firing ticket e (.startAsHead :: rest))).notes (.query id)
        s.node { s.node with creations := s.node.creations + 1 }
          (.dispatch (.placing ticket e (.placing spec) rest)) = [] :=
      notes_quiet rfl rfl (.inl rfl) rfl
    rw [hnotes]
    cases hT with
    | heading he hresponse hchannel =>
      rw [he] at hspec
      exact .placing he hresponse hchannel (ofBytes?_of_request? hspec).2 .placing
    | firing he hrest => exact absurd (.inr rfl) (hrest _ List.mem_cons_self).1
  | creates hdone hcreation =>
    cases hT with
    | placing he hresponse hchannel hspec htold =>
      rw [Work.notes_placing, ← List.append_assoc]
      exact .placing he hresponse hchannel hspec (hcreation.told htold hn hnow hdrawn)
  | resumes =>
    rw [Work.notes_listening (.inr ⟨_, rfl⟩), Ledger.additions_of_services_eq rfl, List.map_nil,
      List.append_nil]
    exact told_resumes hm hT
  | @answers ticket e =>
    cases hT with
    | answering he hhandled =>
      rw [notes_quiet rfl rfl (.inr rfl) (ledger_respond s _ _)]
      exact .done hhandled
  | rests =>
    rw [Work.notes_listening (.inl rfl), Ledger.additions_of_services_eq rfl]
    exact hT

end Dispatch

end Fleet

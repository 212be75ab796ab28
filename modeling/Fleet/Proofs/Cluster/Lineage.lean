import Fleet.Proofs.Cluster.Attribution
import Mathlib.Algebra.GroupWithZero.Nat

/-!
# What a call causes

A call causes whatever is done for it, and whatever is done for a query that is sent for something
it has caused. For each cause a node sends at most one query or starts at most one service, and
never both; the second node that is asked sends no query. So a call causes two queries and one start
at most.
-/

namespace Fleet

/-- A note says that a query was sent. -/
def Note.isAsk : Note → Bool
  | .asked .. => true
  | _ => false

/-- A note says that a service was started. -/
def Note.isStart : Note → Bool
  | .started .. => true
  | _ => false

/-- A note says what a node has seen of the others. -/
def Note.isSight : Note → Bool
  | .read .. | .chose .. => true
  | _ => false

/-- The notes on the queries that were sent for a cause. -/
def asksOf (notes : List Note) (c : Cause) : List Note := (tale notes c).filter Note.isAsk

/-- The notes on the services that were started for a cause. -/
def startsOf (notes : List Note) (c : Cause) : List Note := (tale notes c).filter Note.isStart

/-- What a call has caused. -/
inductive Caused (notes : List Note) (n : Nat) : Cause → Prop
  | call : Caused notes n (.call n)
  | query {c : Cause} {a b : String} {id : Uuid} {m : Message} (hc : Caused notes n c)
      (hasked : .asked c a id b m ∈ notes) : Caused notes n (.query id)

theorem mem_asksOf_iff {notes : List Note} {c : Cause} {x : Note} :
    x ∈ asksOf notes c ↔ ∃ a id b m, x = .asked c a id b m ∧ x ∈ notes := by
  rw [asksOf, List.mem_filter, mem_tale_iff]
  constructor
  · rintro ⟨⟨hx, rfl⟩, hask⟩
    cases x with
    | asked c a id b m => exact ⟨a, id, b, m, rfl, hx⟩
    | called | read | chose | taken | set | started | returned | concluded => cases hask
  · rintro ⟨a, id, b, m, rfl, hx⟩
    exact ⟨⟨hx, rfl⟩, rfl⟩

theorem mem_startsOf_iff {notes : List Note} {c : Cause} {x : Note} :
    x ∈ startsOf notes c ↔ ∃ a s, x = .started c a s ∧ x ∈ notes := by
  rw [startsOf, List.mem_filter, mem_tale_iff]
  constructor
  · rintro ⟨⟨hx, rfl⟩, hstart⟩
    cases x with
    | started c a s => exact ⟨a, s, rfl, hx⟩
    | called | read | chose | taken | set | asked | returned | concluded => cases hstart
  · rintro ⟨a, s, rfl, hx⟩
    exact ⟨⟨hx, rfl⟩, rfl⟩

theorem not_asked_of_asksOf_eq_nil {notes : List Note} {c : Cause} (hnone : asksOf notes c = [])
    (a b : String) (id : Uuid) (m : Message) : .asked c a id b m ∉ notes := by
  intro hasked
  have hask := mem_asksOf_iff.2 ⟨a, id, b, m, rfl, hasked⟩
  rw [hnone] at hask
  cases hask

/-- What a call has caused is among any causes that it is among and that are closed under sending
queries. -/
theorem Caused.mem_of_closed {notes : List Note} {n : Nat} {c : Cause} {cs : List Cause}
    (hcall : .call n ∈ cs)
    (hclosed : ∀ c ∈ cs, ∀ a b id m, .asked c a id b m ∈ notes → .query id ∈ cs)
    (hc : Caused notes n c) : c ∈ cs := by
  induction hc with
  | call => exact hcall
  | query _ hasked ih => exact hclosed _ ih _ _ _ _ hasked

/-- A call that has sent no query has caused nothing but itself. -/
theorem Caused.eq_call {notes : List Note} {n : Nat} {c : Cause}
    (hnone : asksOf notes (.call n) = []) (hc : Caused notes n c) : c = .call n := by
  refine List.mem_singleton.1 (hc.mem_of_closed (List.mem_singleton.2 rfl) ?_)
  intro c hc a b id m hasked
  rw [List.mem_singleton.1 hc] at hasked
  exact absurd hasked (not_asked_of_asksOf_eq_nil hnone a b id m)

/-! ### One deed for each cause -/

/-- The number of queries sent and services started. -/
def deeds (notes : List Note) : Nat :=
  (notes.filter Note.isAsk).length + (notes.filter Note.isStart).length

theorem deeds_append (l l' : List Note) : deeds (l ++ l') = deeds l + deeds l' := by
  simp only [deeds, List.filter_append, List.length_append]
  omega

theorem deeds_cons (x : Note) (l : List Note) : deeds (x :: l) = deeds [x] + deeds l :=
  deeds_append [x] l

theorem Creation.Sights.isSight {c : Cause} {a : String} {D : List Note} {x : Note}
    (hD : Sights c a D) (hx : x ∈ D) : x.isSight = true := by
  rcases hD x hx with ⟨head, rfl⟩ | ⟨chosen, rfl⟩ <;> rfl

theorem Creation.Sights.deeds {c : Cause} {a : String} {D : List Note} (hD : Sights c a D) :
    deeds D = 0 := by
  have hnone : D.filter Note.isAsk = [] ∧ D.filter Note.isStart = [] := by
    constructor <;> refine List.filter_eq_nil_iff.2 fun x hx => ?_
    all_goals rcases hD x hx with ⟨head, rfl⟩ | ⟨chosen, rfl⟩ <;> simp [Note.isAsk, Note.isStart]
  rw [Fleet.deeds, hnone.1, hnone.2]
  rfl

theorem Creation.Told.deeds_le {c : Cause} {a : String} {first cr : Creation} {spec : ServiceSpec}
    {T : List Note} (hT : Creation.Told c a first spec cr T) : deeds T ≤ 1 := by
  cases hT with
  | routing => exact Nat.zero_le _
  | placing | choosing => exact sights_lead.deeds.le.trans (Nat.zero_le _)
  | refused hD | unaddressed hD => exact hD.deeds.le.trans (Nat.zero_le _)
  | opening _ hcarries => exact hcarries.sights.deeds.le.trans (Nat.zero_le _)
  | started hD =>
    rw [deeds_cons, hD.deeds]
    exact Nat.le_refl 1
  | awaiting _ hcarries =>
    rw [deeds_cons, hcarries.sights.deeds]
    exact Nat.le_refl 1
  | returned _ hcarries =>
    rw [deeds_cons, deeds_cons (.asked ..), hcarries.sights.deeds]
    exact Nat.le_refl 1

theorem Creation.Called.deeds_le {n : Nat} {a : String} {cr : Creation} {T : List Note}
    (hT : cr.Called n a T) : deeds T ≤ 1 := by
  obtain ⟨spec, T', htold, rfl⟩ := hT
  have hending : deeds (cr.ending n) = 0 := by cases cr <;> rfl
  have hcalled : deeds [.called n a spec] = 0 := rfl
  have hle := htold.deeds_le
  rw [deeds_append, deeds_append]
  omega

theorem Dispatch.Handled.deeds_le {b : String} {id : Uuid} {m : Message}
    {response : Option Bytes} {T : List Note} (hT : Handled b id m response T) : deeds T ≤ 1 := by
  have htaken : deeds [.taken b id] = 0 := rfl
  cases hT with
  | unserved | elsewhere | started => simp [deeds, List.filter_cons, Note.isAsk, Note.isStart]
  | @placed spec s T _ _ htold =>
    have hset : deeds [.set id s.bytes] = 0 := rfl
    have hle := htold.deeds_le
    rw [← List.singleton_append, deeds_append, deeds_append]
    omega
  | unplaced _ _ htold =>
    have hle := htold.deeds_le
    rw [deeds_append]
    omega

theorem Dispatch.Told.deeds_le {b : String} {id : Uuid} {m : Message} {d : Dispatch}
    {T : List Note} (hT : Dispatch.Told b id m d T) : deeds T ≤ 1 := by
  cases hT with
  | firing _ _ h | answering _ h | done h => exact h.deeds_le
  | opening | starting | heading => simp [deeds, Note.isAsk, Note.isStart]
  | placing _ _ _ _ htold =>
    have htaken : deeds [.taken b id] = 0 := rfl
    have hle := htold.deeds_le
    rw [deeds_append]
    omega

/-! ### Queries that are sent -/

variable {σ : Type} [FaithfulTransport σ]

/-- A query that is on its way has been sent once. -/
theorem Fits.length_asks {boxes : Nat → String → Prop} {id : Uuid} {tok : Token} {s : List Note}
    (h : Fits boxes id tok s) : (s.filter Note.isAsk).length = 1 := by
  have htaken : ∀ c a b m response,
      ((takenStory c a id b m response).filter Note.isAsk).length = 1 := by
    intro c a b m response
    cases response <;> simp [takenStory, List.filter_cons, Note.isAsk]
  cases tok with
  | writing | waiting =>
    obtain ⟨-, c, a, rfl⟩ := h
    rfl
  | travelling =>
    obtain ⟨-, c, a, b, rfl, -⟩ := h
    rfl
  | handling =>
    obtain ⟨-, c, a, rfl⟩ := h
    exact htaken _ _ _ _ _
  | returning =>
    obtain ⟨c, a, b, m, response, -, rfl, -⟩ := h
    exact htaken _ _ _ _ _

/-- Every query is sent once. -/
theorem Coherent.length_asks_shift {boxes : Nat → String → Prop}
    {T T' : Multiset (Uuid × Token)} {notes new : List Note} {drawn drawn' : Nat}
    (h : Coherent boxes T notes drawn) (hshift : Shift boxes T T' new drawn drawn')
    (hdrawn : drawn' ≤ 2 ^ 128) (hone : ∀ id, ((story notes id).filter Note.isAsk).length ≤ 1)
    (id : Uuid) : ((story (new ++ notes) id).filter Note.isAsk).length ≤ 1 := by
  have hsame : story new id = [] → ((story (new ++ notes) id).filter Note.isAsk).length ≤ 1 := by
    intro hnone
    rw [story_append, hnone]
    exact hone id
  cases hshift with
  | quiet hle hnew => exact hsame (hnew id)
  | @advance other tok tok' R hT hT' hnew hfit =>
    by_cases heq : id = other
    · subst heq
      have hold := h.fits id tok (Multiset.mem_of_le hT (Multiset.mem_cons_self _ _))
      rw [story_append]
      exact (hfit _ hold).length_asks.le
    · exact hsame (hnew id heq)
  | draw hT' hnew hfit hdrawn' =>
    by_cases heq : id = .fresh drawn
    · subst heq
      rw [story_append, h.story_fresh (by omega), List.append_nil]
      exact hfit.length_asks.le
    · exact hsame (hnew id heq)
  | never hT hfit => exact absurd (h.fits _ _ hT) (hfit _)

theorem eq_of_length_filter_le_one {α : Type} {p : α → Bool} {l : List α} {x y : α}
    (h : (l.filter p).length ≤ 1) (hx : x ∈ l) (hy : y ∈ l) (hpx : p x = true)
    (hpy : p y = true) : x = y := by
  have hx' : x ∈ l.filter p := List.mem_filter.2 ⟨hx, hpx⟩
  have hy' : y ∈ l.filter p := List.mem_filter.2 ⟨hy, hpy⟩
  cases hl : l.filter p with
  | nil =>
    rw [hl] at hx'
    cases hx'
  | cons z rest =>
    rw [hl] at h hx' hy'
    obtain rfl : rest = [] := List.length_eq_zero_iff.1 (by simpa using h)
    exact (List.mem_singleton.1 hx').trans (List.mem_singleton.1 hy').symm

namespace History

variable {P : Listeners Handler → Prop} {h : History σ}

/-- Queries with the same id are the same query. -/
theorem Reachable.asked_unique (hr : Reachable P h) (hdrawn : h.cluster.drawn ≤ 2 ^ 128)
    {c c' : Cause} {a a' b b' : String} {id : Uuid} {m m' : Message}
    (hasked : .asked c a id b m ∈ h.notes) (hasked' : .asked c' a' id b' m' ∈ h.notes) :
    c' = c ∧ a' = a ∧ b' = b ∧ m' = m := by
  have hone : ∀ id, ((story h.notes id).filter Note.isAsk).length ≤ 1 := by
    clear hasked hasked'
    induction hr with
    | empty => exact fun id => Nat.zero_le _
    | next hr hnext ih =>
      have hold := (hnext.drawn_le hr.sound).trans hdrawn
      obtain ⟨new, hnotes, heffect⟩ := hnext.effect hr.sound
      rw [hnotes]
      exact (hr.correlated hold).coherent.length_asks_shift (heffect.shift hr.sound) hdrawn
        (ih hold)
  have heq := eq_of_length_filter_le_one (hone id) (asked_mem_story hasked')
    (asked_mem_story hasked) rfl rfl
  cases heq
  exact ⟨rfl, rfl, rfl, rfl⟩

end History

/-! ### What a query follows -/

/-- A query follows what its sender has seen. The head was read once. The query goes to the head, if
that is another node, and this has a smaller id; or its sender has read that it is the head itself
and has chosen, once, another node to which the query goes. -/
structure Led (notes : List Note) (c : Cause) (a head b : String) (m : Message) : Prop where
  read : .read c a head ∈ notes
  once : ∀ a' head', .read c a' head' ∈ notes → a' = a ∧ head' = head
  goes : (m.channel = placeChannel ∧ b = head ∧ head ≠ a ∧ head < a) ∨
    (m.channel = startChannel ∧ head = a ∧ b ≠ a ∧ .chose c a (some b) ∈ notes ∧
      ∀ a' chosen, .chose c a' chosen ∈ notes → a' = a ∧ chosen = some b)

/-- Only what nodes have seen matters to what a query follows. -/
theorem Led.congr {notes notes' : List Note} {c : Cause} {a head b : String} {m : Message}
    (h : Led notes c a head b m)
    (hsame : ∀ x : Note, x.isSight = true → x.cause = c → (x ∈ notes' ↔ x ∈ notes)) :
    Led notes' c a head b m := by
  refine ⟨(hsame _ rfl rfl).2 h.read, fun a' head' hx => h.once a' head' ((hsame _ rfl rfl).1 hx),
    h.goes.imp_right ?_⟩
  rintro ⟨hstart, hhead, hne, hchose, honly⟩
  exact ⟨hstart, hhead, hne, (hsame _ rfl rfl).2 hchose,
    fun a' chosen hx => honly a' chosen ((hsame _ rfl rfl).1 hx)⟩

namespace Creation

variable {c : Cause} {a channel target : String} {first : Creation} {spec : ServiceSpec}
  {D : List Note} {m : Message}

theorem Hands.placing (h : Hands c a (.placing spec) D channel target) :
    channel = startChannel ∧ target ≠ a := by
  cases h with
  | forward hfirst => cases hfirst
  | place hne => exact ⟨rfl, hne⟩

theorem Hands.channel_eq (h : Hands c a first D channel target) :
    channel = placeChannel ∨ channel = startChannel := by
  cases h with
  | forward => exact .inl rfl
  | place => exact .inr rfl

theorem Hands.led (h : Hands c a (.routing spec) D m.channel target) :
    ∃ head, Led D c a head target m := by
  generalize hchannel : m.channel = channel at h
  cases h with
  | forward _ hne hlt =>
    refine ⟨target, List.mem_cons_self, fun a' head' hx => ?_, .inl ⟨hchannel, rfl, hne, hlt⟩⟩
    simpa using hx
  | place hne =>
    refine ⟨a, by simp [lead], fun a' head' hx => by simpa [lead] using hx,
      .inr ⟨hchannel, rfl, hne, List.mem_cons_self, fun a' chosen hx => by simpa [lead] using hx⟩⟩

/-- What has been noted about a request says to whom it was handed on, if to anybody, and why. -/
theorem Told.asked {c' : Cause} {a' : String} {cr : Creation} {T : List Note} {id : Uuid}
    (hT : Creation.Told c a first spec cr T) (h : .asked c' a' id target m ∈ T) :
    a' = a ∧ ∃ D, (∀ x : Note, x.isSight = true → (x ∈ T ↔ x ∈ D)) ∧
      Carries c a first D spec target m := by
  have hout : ∀ {D : List Note}, Sights c a D → .asked c' a' id target m ∉ D :=
    fun hD hmem => Bool.false_ne_true (hD.isSight hmem)
  cases hT with
  | routing => cases h
  | placing | choosing => exact absurd h (hout sights_lead)
  | refused hD | unaddressed hD => exact absurd h (hout hD)
  | opening _ hcarries => exact absurd h (hout hcarries.sights)
  | started hD => simp [hout hD] at h
  | @awaiting _ _ _ _ D _ hcarries | @returned _ _ _ _ _ D _ hcarries =>
    obtain ⟨rfl, rfl, rfl, rfl, rfl⟩ : c' = c ∧ a' = a ∧ id = _ ∧ target = _ ∧ m = _ := by
      simpa [hout hcarries.sights] using h
    refine ⟨rfl, D, fun x hx => ?_, hcarries⟩
    cases x with
    | read | chose => simp
    | called | asked | taken | set | started | returned | concluded => cases hx

theorem Called.asked {n : Nat} {a' : String} {cr : Creation} {T : List Note} {id : Uuid}
    (hT : cr.Called n a T) (h : .asked c a' id target m ∈ T) :
    a' = a ∧ ∃ spec head, .called n a spec ∈ T ∧ Led T (.call n) a head target m ∧
      ServiceSpec.ofBytes? m.content = some spec := by
  obtain ⟨spec, T', htold, rfl⟩ := hT
  have hmem : ∀ x : Note, (∀ r, x ≠ .concluded n r) → x ≠ .called n a spec →
      (x ∈ cr.ending n ++ T' ++ [.called n a spec] ↔ x ∈ T') := by
    intro x hconcluded hcalled
    have hending : x ∉ cr.ending n := by
      cases cr with
      | done r => exact fun hx => hconcluded r (List.mem_singleton.1 hx)
      | routing | placing | choosing | asking => exact List.not_mem_nil
    simp [hending, hcalled]
  obtain ⟨rfl, D, hsights, hcarries⟩ := htold.asked ((hmem _ (by simp) (by simp)).1 h)
  obtain ⟨head, hled⟩ := hcarries.hands.led
  refine ⟨rfl, spec, head, by simp, hled.congr fun x hx _ => ?_, hcarries.reads⟩
  rw [hmem x (fun r heq => by rw [heq] at hx; cases hx) (fun heq => by rw [heq] at hx; cases hx),
    hsights x hx]

end Creation

/-- A query that a node sends as the head for a query that it has got. -/
structure Dispatch.Onward (b : String) (m : Message) (a target : String) (m' : Message) : Prop where
  node : a = b
  place : m.channel = placeChannel
  start : m'.channel = startChannel
  target : target ≠ b
  content : ∃ spec, ServiceSpec.ofBytes? m.content = some spec ∧
    ServiceSpec.ofBytes? m'.content = some spec

namespace Dispatch

variable {b : String} {id id' : Uuid} {m m' : Message} {T : List Note} {c : Cause}
  {a target : String}

theorem Onward.of_told {spec : ServiceSpec} {cr : Creation}
    (hchannel : m.channel = placeChannel) (hspec : ServiceSpec.ofBytes? m.content = some spec)
    (htold : Creation.Told (.query id) b (.placing spec) spec cr T)
    (h : .asked c a id' target m' ∈ T) : Onward b m a target m' := by
  obtain ⟨rfl, D, -, hcarries⟩ := htold.asked h
  obtain ⟨hstart, hne⟩ := hcarries.hands.placing
  exact ⟨rfl, hchannel, hstart, hne, spec, hspec, hcarries.reads⟩

theorem Handled.asked {response : Option Bytes} (hT : Handled b id m response T)
    (h : .asked c a id' target m' ∈ T) : Onward b m a target m' := by
  cases hT with
  | unserved | elsewhere | started => simp at h
  | placed hchannel hspec htold | unplaced hchannel hspec htold =>
    exact .of_told hchannel hspec htold (by simpa using h)

theorem Told.asked {d : Dispatch} (hT : Told b id m d T) (h : .asked c a id' target m' ∈ T) :
    Onward b m a target m' := by
  cases hT with
  | firing _ _ hhandled | answering _ hhandled | done hhandled => exact hhandled.asked h
  | opening | starting | heading => simp at h
  | placing _ _ hchannel hspec htold => exact .of_told hchannel hspec htold (by simpa using h)

end Dispatch

/-! ### Two queries and one start -/

namespace Attributed

variable {h : History σ}

omit [FaithfulTransport σ] in
theorem deeds_le (ha : Attributed h) {c : Cause}
    (hc : (∃ n, c = .call n) ∨ ∃ id, c = .query id) : deeds (tale h.notes c) ≤ 1 := by
  by_cases hnone : tale h.notes c = []
  · rw [hnone]
    exact Nat.zero_le _
  · have hrecorded := ha.recorded c hnone
    rcases hc with ⟨n, rfl⟩ | ⟨id, rfl⟩
    · obtain ⟨-, a, cr, hcalled⟩ := hrecorded
      exact hcalled.deeds_le
    · obtain ⟨c, a, b, m, d, -, -, htold⟩ := hrecorded
      exact htold.deeds_le

omit [FaithfulTransport σ] in
/-- For each call and each query one query is sent at most. -/
theorem asked_eq (ha : Attributed h) {c : Cause} (hc : (∃ n, c = .call n) ∨ ∃ id, c = .query id)
    {a a' b b' : String} {id id' : Uuid} {m m' : Message} (hasked : .asked c a id b m ∈ h.notes)
    (hasked' : .asked c a' id' b' m' ∈ h.notes) : id' = id := by
  have hle := ha.deeds_le hc
  have heq := eq_of_length_filter_le_one (l := tale h.notes c) (p := Note.isAsk)
    (by unfold deeds at hle; omega) (mem_tale_iff.2 ⟨hasked', rfl⟩) (mem_tale_iff.2 ⟨hasked, rfl⟩)
    rfl rfl
  cases heq
  rfl

end Attributed

namespace History

variable {h : History σ}

/-- What is done about a query is done for the query that was sent. -/
theorem Reachable.told_of_asked (hr : Reachable Listeners.Standard h)
    (hdrawn : h.cluster.drawn ≤ 2 ^ 128) {c : Cause} {a b : String} {id : Uuid} {m : Message}
    (hasked : .asked c a id b m ∈ h.notes) (hne : tale h.notes (.query id) ≠ []) :
    ∃ d, Dispatch.Told b id m d (tale h.notes (.query id)) := by
  obtain ⟨c', a', b', m', d, hasked', -, htold⟩ := (hr.attributed hdrawn).recorded _ hne
  obtain ⟨-, -, rfl, rfl⟩ := hr.asked_unique hdrawn hasked hasked'
  exact ⟨d, htold⟩

/-- A query that is sent for another one is sent by the node that got the other one. -/
theorem Reachable.onward (hr : Reachable Listeners.Standard h)
    (hdrawn : h.cluster.drawn ≤ 2 ^ 128) {c : Cause} {a a' b b' : String} {id id' : Uuid}
    {m m' : Message} (hasked : .asked c a id b m ∈ h.notes)
    (honward : .asked (.query id) a' id' b' m' ∈ h.notes) : Dispatch.Onward b m a' b' m' := by
  have hmem : .asked (.query id) a' id' b' m' ∈ tale h.notes (.query id) :=
    mem_tale_iff.2 ⟨honward, rfl⟩
  obtain ⟨d, htold⟩ := hr.told_of_asked hdrawn hasked (List.ne_nil_of_mem hmem)
  exact htold.asked hmem

/-- A node that is asked to start a service asks nobody. -/
theorem Reachable.asksOf_eq_nil (hr : Reachable Listeners.Standard h)
    (hdrawn : h.cluster.drawn ≤ 2 ^ 128) {c : Cause} {a b : String} {id : Uuid} {m : Message}
    (hasked : .asked c a id b m ∈ h.notes) (hstart : m.channel = startChannel) :
    asksOf h.notes (.query id) = [] := by
  by_contra hne
  obtain ⟨x, hx⟩ := List.exists_mem_of_ne_nil _ hne
  obtain ⟨a', id', b', m', rfl, honward⟩ := mem_asksOf_iff.1 hx
  have hplace := (hr.onward hdrawn hasked honward).place
  rw [hstart] at hplace
  exact absurd hplace (by decide)

/-- What a call has caused is the call itself, the query that was sent for it, and the query that
was sent for that one; of these at most one has started a service. -/
theorem Reachable.exists_lineage (hr : Reachable Listeners.Standard h)
    (hdrawn : h.cluster.drawn ≤ 2 ^ 128) (n : Nat) :
    ∃ cs : List Cause, (∀ c, Caused h.notes n c → c ∈ cs) ∧
      (cs.map fun c => (asksOf h.notes c).length).sum ≤ 2 ∧
        (cs.map fun c => (startsOf h.notes c).length).sum ≤ 1 := by
  have ha := hr.attributed hdrawn
  have hcall : (asksOf h.notes (.call n)).length + (startsOf h.notes (.call n)).length ≤ 1 :=
    ha.deeds_le (.inl ⟨n, rfl⟩)
  have hquery : ∀ id,
      (asksOf h.notes (.query id)).length + (startsOf h.notes (.query id)).length ≤ 1 :=
    fun id => ha.deeds_le (.inr ⟨id, rfl⟩)
  by_cases hfirst : asksOf h.notes (.call n) = []
  · refine ⟨[.call n], fun c hc => List.mem_singleton.2 (hc.eq_call hfirst), ?_, ?_⟩
    · simp [hfirst]
    · simp only [List.map_cons, List.map_nil, List.sum_cons, List.sum_nil]
      omega
  · obtain ⟨x, hx⟩ := List.exists_mem_of_ne_nil _ hfirst
    have hpos := List.length_pos_of_mem hx
    obtain ⟨a, id, b, m, rfl, hasked⟩ := mem_asksOf_iff.1 hx
    have hquery₁ := hquery id
    have hsent : ∀ a' b' id' m', .asked (.call n) a' id' b' m' ∈ h.notes → id' = id :=
      fun _ _ _ _ => ha.asked_eq (.inl ⟨n, rfl⟩) hasked
    by_cases hsecond : asksOf h.notes (.query id) = []
    · refine ⟨[.call n, .query id], fun c => Caused.mem_of_closed (by simp) ?_, ?_, ?_⟩
      · intro c hc a' b' id' m' hasked'
        rcases List.mem_pair.1 hc with rfl | rfl
        · simp [hsent a' b' id' m' hasked']
        · exact absurd hasked' (not_asked_of_asksOf_eq_nil hsecond a' b' id' m')
      · simp only [List.map_cons, List.map_nil, List.sum_cons, List.sum_nil]
        omega
      · simp only [List.map_cons, List.map_nil, List.sum_cons, List.sum_nil]
        omega
    · obtain ⟨y, hy⟩ := List.exists_mem_of_ne_nil _ hsecond
      have hpos' := List.length_pos_of_mem hy
      obtain ⟨a', id', b', m', rfl, honward⟩ := mem_asksOf_iff.1 hy
      have hquery₂ := hquery id'
      have hthird := hr.asksOf_eq_nil hdrawn honward (hr.onward hdrawn hasked honward).start
      refine ⟨[.call n, .query id, .query id'], fun c => Caused.mem_of_closed (by simp) ?_, ?_, ?_⟩
      · intro c hc a'' b'' id'' m'' hasked'
        simp only [List.mem_cons, List.not_mem_nil, or_false] at hc
        rcases hc with rfl | rfl | rfl
        · simp [hsent a'' b'' id'' m'' hasked']
        · simp [ha.asked_eq (.inr ⟨id, rfl⟩) honward hasked']
        · exact absurd hasked' (not_asked_of_asksOf_eq_nil hthird a'' b'' id'' m'')
      · rw [hthird] at hquery₂
        simp only [List.map_cons, List.map_nil, List.sum_cons, List.sum_nil, hthird,
          List.length_nil]
        omega
      · simp only [List.map_cons, List.map_nil, List.sum_cons, List.sum_nil]
        omega

end History

/-- Notes of one kind that some causes have are not more than these causes have together. -/
theorem length_le_sum_of_sublist {notes l : List Note} (p : Note → Bool) (hl : l.Sublist notes)
    (hp : ∀ x ∈ l, p x = true) (cs : List Cause) (hcs : ∀ x ∈ l, x.cause ∈ cs) :
    l.length ≤ (cs.map fun c => ((tale notes c).filter p).length).sum := by
  induction cs generalizing l with
  | nil =>
    cases l with
    | nil => exact Nat.zero_le _
    | cons x rest => exact absurd (hcs x List.mem_cons_self) List.not_mem_nil
  | cons c cs ih =>
    have hhere : (l.filter fun x => x.cause = c).length ≤ ((tale notes c).filter p).length := by
      have hsub : (l.filter fun x => x.cause = c).Sublist (tale notes c) := hl.filter _
      have hall : (l.filter fun x => x.cause = c).filter p = l.filter fun x => x.cause = c :=
        List.filter_eq_self.2 fun x hx => hp x (List.mem_filter.1 hx).1
      rw [← hall]
      exact (hsub.filter p).length_le
    have hrest := ih (l := l.filter fun x => ¬ x.cause = c) (List.filter_sublist.trans hl)
      (fun x hx => hp x (List.mem_filter.1 hx).1) fun x hx => by
        obtain ⟨hmem, hne⟩ := List.mem_filter.1 hx
        exact (List.mem_cons.1 (hcs x hmem)).resolve_left (by simpa using hne)
    have hsplit : l.length = (l.filter fun x => x.cause = c).length +
        (l.filter fun x => ¬ x.cause = c).length := by
      simpa using List.length_eq_length_filter_add (l := l) fun x => decide (x.cause = c)
    rw [List.map_cons, List.sum_cons]
    omega

end Fleet

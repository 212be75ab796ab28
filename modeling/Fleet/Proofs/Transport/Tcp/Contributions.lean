import Fleet.Proofs.Transport.Tcp.Notes

/-!
# What each connection contributes to the events of a node

The task of a connection says nothing, or it announces its peer, passes on the messages that it
reads, and reports the peer gone at the end. Which of the two it is depends on the first arrival
alone, and on the table at that time.

## Main definitions

* `Agrees` — what a task has read, what it has sent and how far it has come agree.
* `Contributes` — what the events of a connection have to do with what was read from it.
* `Exclusive` — the table and the connections agree, and each peer has one connection at most.

## Main statements

* `Deed.agrees` — every deed of a task keeps the agreement.
* `Noted.contributions` — at every moment of every run, the events of the node are what its
  connections contribute, and the table is exclusive.
-/

namespace Fleet.Tcp

/-! ### What reading and sending have to do with each other -/

/-- The peer that gets the connection if this is read first. -/
def Read.welcome? (self : Identity) (r : Read) : Option Identity :=
  Tcp.welcome? self r.registered r.arrival

/-- The events for the messages among what has been read. -/
def passedOn (l : List Read) : List TransportEvent :=
  l.filterMap fun r => r.arrival.message?.map .message

theorem passedOn_concat (l : List Read) (r : Read) :
    passedOn (l ++ [r]) = passedOn l ++ (r.arrival.message?.map .message).toList := by
  rw [passedOn, List.filterMap_append, ← passedOn]
  cases h : r.arrival.message? <;> simp [h]

theorem Arrival.message?_of_not_isFrame {a : Arrival} (h : a.isFrame = false) :
    a.message? = none := by
  cases a with
  | frame b => cases h
  | failure | close => rfl

/-- What the task of a connection has read, what it has sent and how far it has come agree. -/
inductive Agrees (self : Identity) : List Read → List TransportEvent → Phase → Prop
  | unheard {phase : Phase} (hphase : phase = .greeting ∨ phase = .ended) : Agrees self [] [] phase
  | refused {first : Read} (hfirst : first.welcome? self = none) : Agrees self [first] [] .ended
  | entered {first : Read} {p : Identity} {k : UInt64} (hfirst : first.welcome? self = some p) :
      Agrees self [first] [] (.entered p k)
  | reading {first : Read} {rest : List Read} {p : Identity} {k : UInt64}
      (hfirst : first.welcome? self = some p) (hrest : ∀ r ∈ rest, r.arrival.isFrame = true) :
      Agrees self (first :: rest) (.connected p :: passedOn rest) (.reading p k)
  | ceased {first last : Read} {rest : List Read} {p : Identity} {phase : Phase}
      (hfirst : first.welcome? self = some p) (hrest : ∀ r ∈ rest, r.arrival.isFrame = true)
      (hlast : last.arrival.isFrame = false)
      (hphase : (∃ k, phase = .leaving p k) ∨ phase = .left p) :
      Agrees self (first :: (rest ++ [last])) (.connected p :: passedOn (rest ++ [last])) phase
  | gone {first last : Read} {rest : List Read} {p : Identity}
      (hfirst : first.welcome? self = some p) (hrest : ∀ r ∈ rest, r.arrival.isFrame = true)
      (hlast : last.arrival.isFrame = false) :
      Agrees self (first :: (rest ++ [last]))
        (.connected p :: passedOn (rest ++ [last]) ++ [.disconnected p.id]) .ended

namespace Agrees

variable {self : Identity} {l : List Read} {events : List TransportEvent} {phase : Phase}
  {p : Identity} {k : UInt64}

/-! What has been read and sent, phase by phase. -/

theorem of_greeting (h : Agrees self l events .greeting) : l = [] ∧ events = [] := by
  cases h with
  | unheard => exact ⟨rfl, rfl⟩
  | ceased _ _ _ hphase => simp at hphase

theorem of_entered (h : Agrees self l events (.entered p k)) :
    ∃ first, l = [first] ∧ events = [] ∧ first.welcome? self = some p := by
  cases h with
  | unheard hphase => simp at hphase
  | entered hfirst => exact ⟨_, rfl, rfl, hfirst⟩
  | ceased _ _ _ hphase => simp at hphase

theorem of_reading (h : Agrees self l events (.reading p k)) :
    ∃ first rest, l = first :: rest ∧ events = .connected p :: passedOn rest ∧
      first.welcome? self = some p ∧ ∀ r ∈ rest, r.arrival.isFrame = true := by
  cases h with
  | unheard hphase => simp at hphase
  | reading hfirst hrest => exact ⟨_, _, rfl, rfl, hfirst, hrest⟩
  | ceased _ _ _ hphase => simp at hphase

theorem of_ceased (h : Agrees self l events phase)
    (hphase : (∃ k, phase = .leaving p k) ∨ phase = .left p) :
    ∃ first rest last, l = first :: (rest ++ [last]) ∧
      events = .connected p :: passedOn (rest ++ [last]) ∧ first.welcome? self = some p ∧
        (∀ r ∈ rest, r.arrival.isFrame = true) ∧ last.arrival.isFrame = false := by
  cases h with
  | unheard hunheard => rcases hphase with ⟨k, rfl⟩ | rfl <;> simp at hunheard
  | refused | entered | reading | gone => simp at hphase
  | @ceased first last rest q _ hfirst hrest hlast hceased =>
    obtain rfl : p = q := by rcases hphase with ⟨k, rfl⟩ | rfl <;> simpa using hceased
    exact ⟨first, rest, last, rfl, rfl, hfirst, hrest, hlast⟩

end Agrees

/-- A deed brings the task of its connection further, and what it reads and sends agrees with how
far it has come then. -/
theorem Deed.agrees {t t' : Tcp} {n : Nat} {c : Connection} (h : Deed t n c t') (hs : t.Sound)
    (hc : t.connections[n]? = some c) :
    t'.self = t.self ∧ ∃ c' read new, t'.connections = (t.set n c').connections ∧
      c.arrivals = read ++ c'.arrivals ∧ t'.events = t.events ++ new ∧
        ∀ l events, Agrees t.self l events c.phase →
          Agrees t.self (l ++ read.map fun a => ⟨a, t.table.keys⟩) (events ++ new) c'.phase := by
  refine ⟨by cases h <;> rfl, ?_⟩
  cases h with
  | @refuses a rest k hphase harrivals hwelcome =>
    refine ⟨_, [a], [], rfl, harrivals, (List.append_nil _).symm, fun l events hold => ?_⟩
    obtain ⟨rfl, rfl⟩ := (hphase ▸ hold).of_greeting
    exact .refused hwelcome
  | @enters a rest p hphase harrivals hwelcome =>
    refine ⟨_, [a], [], rfl, harrivals, (List.append_nil _).symm, fun l events hold => ?_⟩
    obtain ⟨rfl, rfl⟩ := (hphase ▸ hold).of_greeting
    exact .entered hwelcome
  | @announces p k hphase =>
    refine ⟨_, [], [.connected p], rfl, rfl, rfl, fun l events hold => ?_⟩
    obtain ⟨first, rfl, rfl, hfirst⟩ := (hphase ▸ hold).of_entered
    exact .reading hfirst (fun r hr => nomatch hr)
  | @reads p k a rest hphase harrivals hframe =>
    refine ⟨_, [a], _, rfl, harrivals, rfl, fun l events hold => ?_⟩
    obtain ⟨first, l, rfl, rfl, hfirst, hl⟩ := (hphase ▸ hold).of_reading
    have hboth : ∀ r ∈ l ++ [⟨a, t.table.keys⟩], r.arrival.isFrame = true := by
      intro r hr
      rcases List.mem_append.1 hr with hr | hr
      · exact hl r hr
      · rw [List.mem_singleton.1 hr]
        exact hframe
    have hnext := Agrees.reading (k := k) hfirst hboth
    rw [passedOn_concat] at hnext
    rw [hphase]
    exact hnext
  | @ceases p k a rest hphase harrivals hframe =>
    refine ⟨_, [a], [], rfl, harrivals, (List.append_nil _).symm, fun l events hold => ?_⟩
    obtain ⟨first, l, rfl, rfl, hfirst, hl⟩ := (hphase ▸ hold).of_reading
    have hnext : Agrees t.self (first :: (l ++ [⟨a, t.table.keys⟩]))
        (.connected p :: passedOn (l ++ [⟨a, t.table.keys⟩])) (.leaving p k) :=
      .ceased hfirst hl hframe (.inl ⟨k, rfl⟩)
    rw [passedOn_concat, Arrival.message?_of_not_isFrame hframe] at hnext
    simpa using hnext
  | @releases p e hphase he =>
    refine ⟨_, [], [], rfl, rfl, (List.append_nil _).symm, fun l events hold => ?_⟩
    obtain ⟨first, l, last, rfl, rfl, hfirst, hl, hlast⟩ := hold.of_ceased (.inl ⟨_, hphase⟩)
    simpa using Agrees.ceased hfirst hl hlast (.inr rfl)
  | forgets hphase hother =>
    exact absurd rfl (hother _ (hs.held _ _ _ _ hc (by rw [hphase]; rfl)))
  | @departs p hphase =>
    refine ⟨_, [], [.disconnected p.id], rfl, rfl, rfl, fun l events hold => ?_⟩
    obtain ⟨first, l, last, rfl, rfl, hfirst, hl, hlast⟩ := hold.of_ceased (.inr hphase)
    simpa using Agrees.gone hfirst hl hlast
  | writes | stops =>
    exact ⟨_, [], [], rfl, rfl, (List.append_nil _).symm, fun l events hold => by simpa using hold⟩

/-! ### What is known from the notes -/

/-- What is known about a connection from the notes. -/
structure Known (owner : Identity) (log : List Note) (n : Nat) (c : Connection) : Prop where
  came : arrivedOn n log = (readOn n log).map (·.arrival) ++ c.arrivals
  agrees : Agrees owner (readOn n log) (sentOn n log) c.phase

/-- What happens opens a connection, changes one of them, or lets them be. -/
inductive Affects (self : Identity) (t : Tcp) (new : List Note) (t' : Tcp) : Prop
  | none (hconnections : t'.connections = t.connections) (hnew : new = [])
  | opens (hconnections : t'.connections = t.establish.2.connections) (hnew : new = [])
  /-- The notes are about the connection that changes. -/
  | changes {n : Nat} {c c' : Connection} (hc : t.connections[n]? = some c)
      (hconnections : t'.connections = (t.set n c').connections)
      (habout : ∀ note ∈ new, note.connection = n)
      (hknown : ∀ log, Known self log n c → Known self (log ++ new) n c')

theorem Deed.affects {t t' : Tcp} {n : Nat} {c : Connection} (h : Deed t n c t') (hs : t.Sound)
    (hc : t.connections[n]? = some c) : Affects t.self t (t.doings n t') t' := by
  obtain ⟨-, c', read, new, hconnections, harrivals, hevents, hagrees⟩ := h.agrees hs hc
  rw [doings_eq hc hconnections harrivals hevents]
  refine .changes hc hconnections (fun _ => connection_of_mem_taskNotes) fun log hknown => ?_
  constructor
  · rw [arrivedOn_append, arrivedOn_taskNotes, List.append_nil, hknown.came, readOn_append,
      readOn_taskNotes, harrivals]
    simp [Function.comp_def]
  · rw [readOn_append, readOn_taskNotes, sentOn_append, sentOn_taskNotes]
    exact hagrees _ _ hknown.agrees

/-- A change that neither reads nor sends, and ends a task at most before its peer has introduced
itself. -/
theorem affects_of_quiet {self : Identity} {t t' : Tcp} {n : Nat} {c c' : Connection}
    (hc : t.connections[n]? = some c) (hconnections : t'.connections = (t.set n c').connections)
    (harrivals : c'.arrivals = c.arrivals)
    (hphase : c'.phase = c.phase ∨ c.phase = .greeting ∧ c'.phase = .ended) :
    Affects self t [] t' := by
  refine .changes hc hconnections (fun _ hnote => nomatch hnote) fun log hknown => ?_
  obtain ⟨hcame, hagrees⟩ := hknown
  rw [List.append_nil]
  refine ⟨by rw [harrivals]; exact hcame, ?_⟩
  rcases hphase with heq | ⟨hgreeting, hended⟩
  · rw [heq]
    exact hagrees
  · rw [hgreeting] at hagrees
    rw [hended]
    obtain ⟨hread, hsent⟩ := hagrees.of_greeting
    rw [hread, hsent]
    exact .unheard (.inr rfl)

/-- What arrives waits after what has arrived before. -/
theorem Known.arrived {owner : Identity} {log : List Note} {n : Nat} {c : Connection}
    (h : Known owner log n c) (a : Arrival) :
    Known owner (log ++ [.arrived n a]) n { c with arrivals := c.arrivals ++ [a] } := by
  have hreads : readOn n (log ++ [.arrived n a]) = readOn n log := by
    simp [readOn, about, Note.connection, Note.read?]
  have hsent : sentOn n (log ++ [.arrived n a]) = sentOn n log := by
    simp [sentOn, about, Note.connection, Note.event?]
  have hnew : arrivedOn n [.arrived n a] = [a] := by
    simp [arrivedOn, about, Note.connection, Note.arrival?]
  constructor
  · rw [arrivedOn_append, hnew, h.came, hreads, List.append_assoc]
  · rw [hreads, hsent]
    exact h.agrees

theorem Act.affects {t t' : Tcp} {a : Act} (h : t.act? a = some t') (hs : t.Sound) :
    t'.self = t.self ∧ Affects t.self t (t.notes t' a) t' := by
  cases a with
  | task k =>
    obtain ⟨c, hc, hdeed⟩ := deed_of_step h
    exact ⟨(hdeed.agrees hs hc).1, hdeed.affects hs hc⟩
  | opened =>
    cases h
    exact ⟨rfl, .opens rfl rfl⟩
  | arrived n a =>
    rw [act?] at h
    split at h
    · next hn =>
      cases h
      have hc := List.getElem?_eq_getElem hn
      refine ⟨rfl, .changes hc (by rw [arrive, modify_eq_set _ hc]) ?_ fun _ h => h.arrived a⟩
      intro note hnote
      rw [List.mem_singleton.1 hnote]
      rfl
    · cases h
  | expired n =>
    cases h
    refine ⟨rfl, ?_⟩
    rw [notes, expire]
    cases hc : t.connections[n]? with
    | none => exact .none (by rw [modify_of_none _ hc]) rfl
    | some c =>
      refine affects_of_quiet hc (by rw [modify_eq_set _ hc]) ?_ ?_
      · split <;> rfl
      · split
        · next hphase => exact .inr ⟨hphase, rfl⟩
        · exact .inl rfl
  | broken n =>
    cases h
    refine ⟨rfl, ?_⟩
    rw [notes, breakWriter]
    cases hc : t.connections[n]? with
    | none => exact .none (by rw [modify_of_none _ hc]) rfl
    | some c =>
      refine affects_of_quiet hc (by rw [modify_eq_set _ hc]) ?_ (.inl ?_)
      · split <;> rfl
      · split <;> rfl
  | sent id m =>
    obtain ⟨⟨r, t'⟩, hr, rfl⟩ := Option.map_eq_some_iff.1 h
    rcases sendTo?_eq_some hr with rfl | ⟨n, c, hc, rfl⟩
    · exact ⟨rfl, .none rfl rfl⟩
    · exact ⟨rfl, affects_of_quiet hc rfl rfl (.inl rfl)⟩
  | taken =>
    obtain ⟨⟨e, t'⟩, he, rfl⟩ := Option.map_eq_some_iff.1 h
    obtain ⟨rest, -, rfl⟩ := take?_eq_some he
    exact ⟨rfl, .none rfl rfl⟩

/-- What is known about every connection from the notes; nothing is noted down about a connection
before it is opened. -/
structure Kept (owner : Identity) (t : Tcp) (log : List Note) : Prop where
  own : t.self = owner
  known : ∀ n c, t.connections[n]? = some c → Known owner log n c
  unopened : ∀ n, t.connections.length ≤ n → about n log = []

theorem Affects.kept {self : Identity} {t t' : Tcp} {log new : List Note}
    (h : Affects self t new t') (howner : t'.self = t.self) (hold : Kept self t log) :
    Kept self t' (log ++ new) := by
  obtain ⟨hself, hknown, hunopened⟩ := hold
  refine ⟨howner.trans hself, fun m c hm => ?_, fun m hm => ?_⟩
  · cases h with
    | none hconnections hnew =>
      rw [hnew, List.append_nil]
      exact hknown m c (hconnections ▸ hm)
    | opens hconnections hnew =>
      rw [hnew, List.append_nil]
      rw [hconnections, establish, List.getElem?_append] at hm
      split at hm
      · exact hknown m c hm
      · next hlt =>
        have hnone := hunopened m (Nat.not_lt.1 hlt)
        obtain rfl := List.mem_singleton.1 (List.mem_of_getElem? hm)
        constructor
        · simp [arrivedOn, readOn, hnone]
        · simpa [readOn, sentOn, hnone] using Agrees.unheard (.inl rfl)
    | @changes n c₀ c' hc hconnections habout hnext =>
      rw [hconnections] at hm
      rcases getElem?_set hc hm with ⟨rfl, rfl⟩ | ⟨hne, hm⟩
      · exact hnext log (hknown _ _ hc)
      · have hnone : about m new = [] := about_eq_nil fun note hnote heq =>
          hne (heq.symm.trans (habout note hnote))
        obtain ⟨hcame, hagrees⟩ := hknown m c hm
        constructor
        · rw [arrivedOn, readOn, about_append, hnone, List.append_nil]
          exact hcame
        · rw [readOn, sentOn, about_append, hnone, List.append_nil]
          exact hagrees
  · cases h with
    | none hconnections hnew =>
      rw [hnew, List.append_nil]
      exact hunopened m (hconnections ▸ hm)
    | opens hconnections hnew =>
      rw [hnew, List.append_nil]
      refine hunopened m (Nat.le_trans ?_ hm)
      simp [hconnections, establish]
    | @changes n c₀ c' hc hconnections habout hnext =>
      obtain ⟨hlt, -⟩ := List.getElem?_eq_some_iff.1 hc
      have hlength : t'.connections.length = t.connections.length := by
        rw [hconnections, set, List.length_set]
      rw [hlength] at hm
      have hnone : about m new = [] := about_eq_nil fun note hnote heq =>
        absurd (heq.symm.trans (habout note hnote)) (by omega)
      rw [about_append, hnone, List.append_nil]
      exact hunopened m hm

theorem Noted.kept {self : Identity} {t : Tcp} {log : List Note} (h : Noted self t log) :
    Kept self t log := by
  induction h with
  | new => exact ⟨rfl, fun _ _ hc => (nomatch hc), fun _ _ => rfl⟩
  | act hold a ha ih =>
    obtain ⟨howner, haffects⟩ := Act.affects ha hold.reachable.sound
    rw [ih.own] at haffects
    exact haffects.kept howner ih

/-! ### What a connection contributes -/

/-- What the task of a connection has sent, given what has been read from the connection. -/
structure Contributes (owner : Identity) (log : List Note) (n : Nat) (c : Connection) : Prop where
  /-- What arrives is read in order. -/
  ordered : arrivedOn n log = (readOn n log).map (·.arrival) ++ c.arrivals
  /-- The task has sent nothing, or it has announced the peer of the first arrival, passed on every
  message that it has read since, and reported the peer gone once it has ended. -/
  events : sentOn n log = [] ∨ ∃ first rest p, readOn n log = first :: rest ∧
    first.welcome? owner = some p ∧ sentOn n log =
      .connected p :: passedOn rest ++ if c.phase = .ended then [.disconnected p.id] else []
  /-- A connection that its peer does not get is dropped without a word. -/
  refused : ∀ first rest, readOn n log = first :: rest → first.welcome? owner = none →
    rest = [] ∧ sentOn n log = [] ∧ c.phase = .ended
  /-- A connection that its peer gets is in the table when nothing has been sent. -/
  welcomed : ∀ first rest p, readOn n log = first :: rest → first.welcome? owner = some p →
    (sentOn n log = [] ↔ ∃ k, c.phase = .entered p k)
  /-- Once the peer has been announced, no frame ends the reading, and everything else does. -/
  persists : ∀ first rest p, readOn n log = first :: rest → first.welcome? owner = some p →
    sentOn n log ≠ [] → (∀ r ∈ rest.dropLast, r.arrival.isFrame = true) ∧
      ((∃ k, c.phase = .reading p k) ↔ ∀ r ∈ rest, r.arrival.isFrame = true)

/-- The table has an entry for a peer exactly as long as a connection is registered for it, and no
two connections are. -/
structure Exclusive (t : Tcp) : Prop where
  entry : ∀ id e, t.table.get? id = some e ↔ e.peer.id = id ∧
    ∃ c, t.connections[e.connection]? = some c ∧ c.phase.held? = some (e.peer, e.number)
  single : ∀ (n m : Nat) (c c' : Connection) p q k l, t.connections[n]? = some c →
    t.connections[m]? = some c' → c.phase.held? = some (p, k) → c'.phase.held? = some (q, l) →
      p.id = q.id → n = m

namespace Agrees

variable {self : Identity} {l : List Read} {events : List TransportEvent} {phase : Phase}

theorem events_eq (h : Agrees self l events phase) :
    events = [] ∨ ∃ first rest p, l = first :: rest ∧ first.welcome? self = some p ∧
      events = .connected p :: passedOn rest ++
        if phase = .ended then [.disconnected p.id] else [] := by
  cases h with
  | unheard | refused | entered => exact .inl rfl
  | reading hfirst hrest => exact .inr ⟨_, _, _, rfl, hfirst, by simp⟩
  | ceased hfirst hrest hlast hphase =>
    have hended : phase ≠ .ended := by rcases hphase with ⟨k, rfl⟩ | rfl <;> simp
    exact .inr ⟨_, _, _, rfl, hfirst, by rw [if_neg hended, List.append_nil]⟩
  | gone hfirst hrest hlast => exact .inr ⟨_, _, _, rfl, hfirst, by rw [if_pos rfl]⟩

/-- Whoever is turned away is so by the first arrival. -/
theorem of_refused (h : Agrees self l events phase) {first : Read} {rest : List Read}
    (hl : l = first :: rest) (hfirst : first.welcome? self = none) :
    rest = [] ∧ events = [] ∧ phase = .ended := by
  have hnot : ∀ (first' : Read) (rest' : List Read) p, first' :: rest' = first :: rest →
      first'.welcome? self ≠ some p := by
    rintro first' rest' p heq
    cases heq
    simp [hfirst]
  cases h with
  | unheard => cases hl
  | refused =>
    cases hl
    exact ⟨rfl, rfl, rfl⟩
  | entered hsome | reading hsome | ceased hsome | gone hsome => exact absurd hsome (hnot _ _ _ hl)

theorem of_welcomed (h : Agrees self l events phase) {first : Read} {rest : List Read}
    {p : Identity} (hl : l = first :: rest) (hfirst : first.welcome? self = some p) :
    events = [] ↔ ∃ k, phase = .entered p k := by
  cases h with
  | unheard => cases hl
  | refused hnone =>
    cases hl
    cases hnone.symm.trans hfirst
  | @entered first' p' k hsome =>
    cases hl
    cases hsome.symm.trans hfirst
    simp
  | reading | gone => simp
  | ceased _ _ _ hphase => rcases hphase with ⟨k, rfl⟩ | rfl <;> simp

theorem not_frames_concat {l : List Read} {last : Read} (hlast : last.arrival.isFrame = false) :
    ¬ ∀ r ∈ l ++ [last], r.arrival.isFrame = true := by
  intro hall
  rw [hall last (by simp)] at hlast
  cases hlast

theorem persists (h : Agrees self l events phase) {first : Read} {rest : List Read}
    {p : Identity} (hl : l = first :: rest) (hfirst : first.welcome? self = some p)
    (hevents : events ≠ []) : (∀ r ∈ rest.dropLast, r.arrival.isFrame = true) ∧
      ((∃ k, phase = .reading p k) ↔ ∀ r ∈ rest, r.arrival.isFrame = true) := by
  cases h with
  | unheard | refused | entered => exact absurd rfl hevents
  | reading hsome hrest =>
    cases hl
    cases hsome.symm.trans hfirst
    exact ⟨fun r hr => hrest r (List.mem_of_mem_dropLast hr), fun _ => hrest, fun _ => ⟨_, rfl⟩⟩
  | @ceased _ last rest' p' phase _ hrest hlast hphase =>
    cases hl
    have hreading : ¬ ∃ k, phase = .reading p k := by
      rcases hphase with ⟨k, rfl⟩ | rfl <;> simp
    exact ⟨by simpa using hrest, iff_of_false hreading (not_frames_concat hlast)⟩
  | @gone _ last rest' p' _ hrest hlast =>
    cases hl
    exact ⟨by simpa using hrest, iff_of_false (by simp) (not_frames_concat hlast)⟩

end Agrees

theorem Known.contributes {owner : Identity} {log : List Note} {n : Nat} {c : Connection}
    (h : Known owner log n c) : Contributes owner log n c := by
  obtain ⟨hcame, hagrees⟩ := h
  exact ⟨hcame, hagrees.events_eq, fun _ _ => hagrees.of_refused, fun _ _ _ => hagrees.of_welcomed,
    fun _ _ _ => hagrees.persists⟩

theorem Sound.exclusive {t : Tcp} (h : t.Sound) : t.Exclusive := by
  refine ⟨fun id e => ⟨h.entry id e, ?_⟩, fun n m c c' p q k l hc hc' hp hq hid => ?_⟩
  · rintro ⟨rfl, c, hc, hheld⟩
    exact h.held e.connection c e.peer e.number hc hheld
  · have hn := h.held n c p k hc hp
    have hm := h.held m c' q l hc' hq
    rw [hid] at hn
    cases hn.symm.trans hm
    rfl

/-- At every moment of every run, the events of the node are those which its connections contribute:
each connection contributes nothing, or that its peer is there, its messages, and that the peer is
gone. At no time are two connections registered for one peer. -/
theorem Noted.contributions {self : Identity} {t : Tcp} {log : List Note} (h : Noted self t log) :
    Logged self t (log.filterMap Note.event?) ∧
      (∀ n c, t.connections[n]? = some c → Contributes self log n c) ∧ t.Exclusive :=
  ⟨h.logged, fun n c hc => (h.kept.known n c hc).contributes, h.reachable.sound.exclusive⟩

/-- A message from a peer. -/
def word : Message := { channel := "c", sender := "b", targets := [.node "a"], content := [1] }

/-- A peer connects and sends what is no frame, a message and its introduction once more; it
connects a second time, and then the first connection is closed. -/
def visit : List Act :=
  [.opened, .arrived 0 (.frame (Frame.hello ⟨"b", ""⟩).encode), .task (.greet 0),
    .task (.announce 0), .arrived 0 (.frame [7]), .arrived 0 (.frame (Frame.message word).encode),
    .arrived 0 (.frame (Frame.hello ⟨"b", ""⟩).encode), .task (.read 0), .opened,
    .arrived 1 (.frame (Frame.hello ⟨"b", ""⟩).encode), .task (.greet 1), .task (.read 0),
    .task (.read 0), .arrived 0 .close, .task (.read 0), .task (.release 0), .task (.depart 0)]

theorem visit_contributes : ∃ t log, Noted ⟨"a", ""⟩ t log ∧
    sentOn 0 log = [.connected ⟨"b", ""⟩, .message word, .disconnected "b"] ∧ sentOn 1 log = [] ∧
      (Logged ⟨"a", ""⟩ t (log.filterMap Note.event?) ∧
        (∀ n c, t.connections[n]? = some c → Contributes ⟨"a", ""⟩ log n c) ∧ t.Exclusive) := by
  have hrun : (run? ⟨"a", ""⟩ visit).map (fun x => (sentOn 0 x.2, sentOn 1 x.2)) =
      some ([.connected ⟨"b", ""⟩, .message word, .disconnected "b"], []) := by decide +kernel
  obtain ⟨⟨t, log⟩, hlog, heq⟩ := Option.map_eq_some_iff.1 hrun
  obtain ⟨hfirst, hsecond⟩ := Prod.mk.inj heq
  have hnoted := noted_run hlog
  exact ⟨t, log, hnoted, hfirst, hsecond, hnoted.contributions⟩

end Fleet.Tcp

import Fleet.Proofs.Transport.Tcp.Signals
import Mathlib.Logic.Relation

/-!
# Connections that have fallen silent

Only the end of reading takes a connection out of the table, but a writer may stop on its own, at a
frame that is too long or when writing fails. Then the peer stays in the table, the node does not
dial it again, and whatever is sent to it fails, until the peer closes the connection. In every
other case the writer of a connection in the table is at work, or the node goes on by itself to take
the connection out and to report the peer gone.
-/

namespace Fleet.Tcp

/-- The writer of a connection has stopped, while its task reads and nothing but frames has
arrived. -/
structure Connection.Silent (c : Connection) (p : Identity) (k : UInt64) : Prop where
  phase : c.phase = .reading p k
  writer : c.writer = .stopped
  arrivals : ∀ a ∈ c.arrivals, ∃ b, a = .frame b

/-- A peer is in the table with a connection that has fallen silent. -/
def Muted (t : Tcp) (p : String) (e : Entry) : Prop :=
  t.table.get? p = some e ∧
    ∃ c, t.connections[e.connection]? = some c ∧ c.Silent e.peer e.number

/-- A step in which a connection is not closed from outside, and reading on it does not fail. -/
def Spared (n : Nat) (t t' : Tcp) : Prop := Step t t' ∧ ∀ a, t' = t.arrive n a → ∃ b, a = .frame b

/-- A step of the node alone. -/
inductive Own (t : Tcp) : Tcp → Prop
  | task {t' : Tcp} (k : Task) (h : t.step? k = some t') : Own t t'
  | taken {t' : Tcp} (e : TransportEvent) (h : t.take? = some (e, t')) : Own t t'

/-- Steps of the node alone take a peer out of the table and report it gone. -/
def Departs (t : Tcp) (p : String) : Prop :=
  ∃ t', Relation.ReflTransGen Own t t' ∧ t'.table.get? p = none ∧
    t'.events.getLast? = some (.disconnected p)

variable {t t' : Tcp} {p : String} {e : Entry}

/-! ### Silence lasts -/

theorem Muted.silent {c : Connection} (h : Muted t p e)
    (hc : t.connections[e.connection]? = some c) : c.Silent e.peer e.number := by
  obtain ⟨-, c', hc', hsilent⟩ := h
  exact Option.some.inj (hc'.symm.trans hc) ▸ hsilent

theorem Muted.ne {n : Nat} {c : Connection} (h : Muted t p e) (hc : t.connections[n]? = some c)
    (hphase : c.phase ≠ .reading e.peer e.number) : n ≠ e.connection := by
  rintro rfl
  exact hphase (h.silent hc).phase

/-- Silence outlasts a change of one connection, if the peer stays in the table and the connection
is another one or stays silent. -/
theorem Muted.set {n : Nat} {c c' : Connection} (h : Muted t p e) (he : t'.table.get? p = some e)
    (hconnections : t'.connections = (t.set n c').connections) (hc : t.connections[n]? = some c)
    (hsilent : n = e.connection → c'.Silent e.peer e.number) : Muted t' p e := by
  obtain ⟨-, c₀, hc₀, hold⟩ := h
  refine ⟨he, ?_⟩
  rw [hconnections]
  by_cases heq : e.connection = n
  · subst heq
    exact ⟨c', getElem?_set_self c' hc, hsilent rfl⟩
  · exact ⟨c₀, (getElem?_set_ne c' heq).trans hc₀, hold⟩

theorem Muted.move {news : Option (Nat × Arrival)} (h : Muted t p e) (hs : t.Sound)
    (hmove : Move t news t')
    (hnews : ∀ a, news = some (e.connection, a) → ∃ b, a = .frame b) : Muted t' p e := by
  have hothers : ∀ {n : Nat} {c c' : Connection}, t.connections[n]? = some c →
      c.phase ≠ .reading e.peer e.number → n = e.connection → c'.Silent e.peer e.number :=
    fun hc hphase hn => absurd hn (h.ne hc hphase)
  cases hmove with
  | rests | takes => exact h
  | opens =>
    obtain ⟨he, c, hc, hsilent⟩ := h
    obtain ⟨hlt, -⟩ := List.getElem?_eq_some_iff.1 hc
    exact ⟨he, c, (List.getElem?_append_left hlt).trans hc, hsilent⟩
  | @arrives n c a hc =>
    refine h.set h.1 rfl hc fun hn => ?_
    have hsilent := h.silent (hn ▸ hc)
    refine ⟨hsilent.phase, hsilent.writer, fun a' ha' => ?_⟩
    rcases List.mem_append.1 ha' with hold | hnew
    · exact hsilent.arrivals a' hold
    · rw [List.mem_singleton.1 hnew]
      exact hnews a (by rw [hn])
  | works hc hphase hwriter harrivals =>
    refine h.set h.1 rfl hc fun hn => ?_
    have hsilent := h.silent (hn ▸ hc)
    refine ⟨hphase.trans hsilent.phase, ?_, fun a ha => hsilent.arrivals a (harrivals ha)⟩
    rcases hwriter with heq | ⟨-, hstopped⟩
    · exact heq.trans hsilent.writer
    · exact hstopped
  | refuses hc hphase => exact h.set h.1 rfl hc (hothers hc (by simp [hphase]))
  | @enters n c l i hc hphase hself hnone =>
    refine h.set ?_ rfl hc (hothers hc (by simp [hphase]))
    dsimp only
    rw [Table.get?_insert, if_neg, h.1]
    rintro rfl
    exact nomatch hnone.symm.trans h.1
  | announces hc hphase => exact h.set h.1 rfl hc (hothers hc (by simp [hphase]))
  | @ceases n k c i a rest hc hphase harrivals ha =>
    -- what ends the reading is no frame, so it is another connection
    refine h.set h.1 rfl hc fun hn => ?_
    obtain ⟨b, hb⟩ := (h.silent (hn ▸ hc)).arrivals a (harrivals ▸ List.mem_cons_self)
    exact absurd hb (ha b)
  | @releases n c i e' hc hphase he' =>
    have hn := h.ne hc (by simp [hphase])
    refine h.set ?_ rfl hc fun heq => absurd heq hn
    dsimp only
    rw [Table.get?_erase, if_neg, h.1]
    rintro rfl
    -- the table holds one connection for each peer
    have hentry := hs.held n c i e'.number hc (by rw [hphase]; rfl)
    cases h.1.symm.trans hentry
    exact hn rfl
  | forgets hc hphase => exact h.set h.1 rfl hc (hothers hc (by simp [hphase]))
  | departs hc hphase => exact h.set h.1 rfl hc (hothers hc (by simp [hphase]))

theorem Muted.moves {r : Tcp → Tcp → Prop} (h : Muted t p e) (hs : t.Sound)
    (hr : ∀ t t', r t t' → ∃ news, Move t news t' ∧
      ∀ a, news = some (e.connection, a) → ∃ b, a = .frame b)
    (hsteps : Relation.ReflTransGen r t t') : Muted t' p e := by
  have hboth : Muted t' p e ∧ t'.Sound := by
    induction hsteps with
    | refl => exact ⟨h, hs⟩
    | tail _ hstep ih =>
      obtain ⟨news, hmove, hnews⟩ := hr _ _ hstep
      exact ⟨ih.1.move ih.2 hmove hnews, ih.2.move hmove⟩
  exact hboth.1

/-- Whatever happens, a silent connection stays silent until it is closed from outside. -/
theorem Muted.lasts (h : Muted t p e) (hs : t.Sound)
    (hsteps : Relation.ReflTransGen (Spared e.connection) t t') : Muted t' p e := by
  refine h.moves hs (fun t t' hstep => ?_) hsteps
  obtain ⟨news, hmove, hnews⟩ := hstep.1.move
  exact ⟨news, hmove, fun a ha => hstep.2 a (hnews _ a ha)⟩

/-- Nothing can be sent on a silent connection, and its peer is not dialled again. -/
theorem Muted.closed (h : Muted t p e) (m : Message) :
    t.sendTo? p m = some (.error .closed, t) := by
  obtain ⟨he, c, hc, hsilent⟩ := h
  simp only [sendTo?, he, hc, if_pos hsilent.writer]

theorem Muted.not_dials (h : Muted t p e) (hid : e.peer.id = p) : t.dials e.peer = false := by
  have hcontains : t.table.contains e.peer.id = true := by
    rw [hid]
    exact Table.contains_iff.2 ⟨e, h.1⟩
  rw [dials, hcontains]
  rfl

/-! ### What the node does by itself -/

theorem Own.move (h : Own t t') : Move t none t' := by
  cases h with
  | task k h => exact move_step h
  | taken e h => exact move_take h

theorem Muted.not_departs (h : Muted t p e) (hs : t.Sound) : ¬ t.Departs p := by
  rintro ⟨t', hsteps, hnone, -⟩
  have hlasts := h.moves hs (fun _ _ hstep => ⟨none, hstep.move, fun _ hnews => (nomatch hnews)⟩)
    hsteps
  rw [hlasts.1] at hnone
  cases hnone

theorem Departs.of_own (h : t'.Departs p) (hsteps : Relation.ReflTransGen Own t t') :
    t.Departs p := by
  obtain ⟨t'', hrest, hend⟩ := h
  exact ⟨t'', hsteps.trans hrest, hend⟩

/-- A node can empty its mailbox. -/
theorem own_emptied (t : Tcp) : Relation.ReflTransGen Own t { t with events := [] } := by
  obtain ⟨self, table, connections, nextNumber, events⟩ := t
  induction events with
  | nil => exact .refl
  | cons e rest ih => exact .head (.taken e rfl) ih

theorem post?_of_empty {event : TransportEvent} (h : t.events = []) :
    t.post? event = some { t with events := [event] } := by
  rw [post?, h, if_pos (by decide)]
  rfl

theorem depart?_eq {n : Nat} {c : Connection} {i : Identity} (hc : t.connections[n]? = some c)
    (hphase : c.phase = .left i) (hempty : t.events = []) :
    t.depart? n = some { t.set n { c with phase := .ended } with
      events := [.disconnected i.id] } := by
  have henter := modify_eq_set (fun c => { c with phase := .ended }) hc
  simp only [depart?, hc, hphase, post?_of_empty hempty, Option.bind_eq_bind, Option.bind_some]
  rw [← henter]
  rfl

theorem release?_eq {n : Nat} {c : Connection} {i : Identity} (hc : t.connections[n]? = some c)
    (hphase : c.phase = .leaving i e.number) (he : t.table.get? i.id = some e) :
    t.release? n = some
      { t.set n { c with phase := .left i, writer := .stopped, outbound := [] } with
        table := t.table.erase i.id } := by
  obtain ⟨phase, arrivals, writer, outbound, written⟩ := c
  obtain rfl : phase = .leaving i e.number := hphase
  have hstop := modify_eq_set (fun c => { c with writer := .stopped, outbound := [] }) hc
  have htable : (t.set n ⟨.leaving i e.number, arrivals, .stopped, [], written⟩).table.get? i.id =
    some e := he
  have hleft := modify_set (c := ⟨.leaving i e.number, arrivals, .stopped, [], written⟩)
    (fun c => { c with phase := .left i }) hc
  simp only [release?, hc, Option.bind_eq_bind, Option.bind_some, hstop, htable, if_true]
  rw [← hleft]
  rfl

theorem nextArrival?_eq {n : Nat} {c : Connection} {a : Arrival} {rest : List Arrival}
    (hc : t.connections[n]? = some c) (harrivals : c.arrivals = a :: rest) :
    t.nextArrival? n = some (a, t.set n { c with arrivals := rest }) := by
  obtain ⟨phase, arrivals, writer, outbound, written⟩ := c
  subst harrivals
  simp only [nextArrival?, hc]
  rw [modify_eq_set _ hc]

/-- A task that reads takes the next frame, and goes on with what stands behind it. -/
theorem exists_read_frame {n : Nat} {c : Connection} {i : Identity} {k : UInt64} {b : Bytes}
    {rest : List Arrival} (hc : t.connections[n]? = some c) (hphase : c.phase = .reading i k)
    (harrivals : c.arrivals = .frame b :: rest) (hempty : t.events = []) :
    ∃ events, t.read? n = some { t.set n { c with arrivals := rest } with events } := by
  simp only [read?, hc, hphase, nextArrival?_eq hc harrivals, Option.bind_eq_bind, Option.bind_some]
  split
  · have hempty' : (t.set n { c with arrivals := rest }).events = [] := hempty
    exact ⟨_, post?_of_empty hempty'⟩
  · exact ⟨_, rfl⟩

/-- A task stops to read at what is no frame. -/
theorem read?_eq {n : Nat} {c : Connection} {i : Identity} {k : UInt64} {a : Arrival}
    {rest : List Arrival} (hc : t.connections[n]? = some c) (hphase : c.phase = .reading i k)
    (harrivals : c.arrivals = a :: rest) (ha : ∀ b, a ≠ .frame b) :
    t.read? n = some (t.set n { c with phase := .leaving i k, arrivals := rest }) := by
  have hleaving := modify_set (c := { c with arrivals := rest })
    (fun c => { c with phase := .leaving i k }) hc
  simp only [read?, hc, hphase, nextArrival?_eq hc harrivals, Option.bind_eq_bind, Option.bind_some]
  cases a with
  | frame b => exact absurd rfl (ha b)
  | failure | close =>
    rw [hphase] at hleaving
    rw [← hleaving]
    rfl

/-- A connection whose task leaves is taken out of the table, and its peer is reported gone. -/
theorem departs_of_leaving {n : Nat} {c : Connection} {i : Identity}
    (hc : t.connections[n]? = some c) (hphase : c.phase = .leaving i e.number)
    (he : t.table.get? i.id = some e) : t.Departs i.id := by
  have hrelease : ({ t with events := [] } : Tcp).step? (.release n) = some _ :=
    release?_eq hc hphase he
  set t₁ : Tcp := { t with
    events := [], table := t.table.erase i.id
    connections := t.connections.set n
      { c with phase := .left i, writer := .stopped, outbound := [] } }
  have hc₁ : t₁.connections[n]? =
      some { c with phase := .left i, writer := .stopped, outbound := [] } :=
    getElem?_set_self _ hc
  have hdepart : t₁.step? (.depart n) = some _ := depart?_eq hc₁ rfl rfl
  refine ⟨_, ((own_emptied t).tail (.task _ hrelease)).tail (.task _ hdepart), ?_, rfl⟩
  change (t.table.erase i.id).get? i.id = none
  rw [Table.get?_erase, if_pos rfl]

/-- A task that reads leaves once it comes to what is no frame. -/
theorem departs_of_reading {n : Nat} {c : Connection} {i : Identity}
    (hc : t.connections[n]? = some c) (hphase : c.phase = .reading i e.number)
    (he : t.table.get? i.id = some e) (hend : ∃ a ∈ c.arrivals, ∀ b, a ≠ .frame b) :
    t.Departs i.id := by
  obtain ⟨a, ha, hframe⟩ := hend
  generalize hl : c.arrivals = l at ha
  induction l generalizing t c with
  | nil => cases ha
  | cons x rest ih =>
    by_cases hx : ∃ b, x = .frame b
    · obtain ⟨b, rfl⟩ := hx
      have hrest : a ∈ rest := by
        rcases List.mem_cons.1 ha with rfl | hrest
        · exact absurd rfl (hframe b)
        · exact hrest
      obtain ⟨events, hread⟩ := exists_read_frame (t := { t with events := [] }) hc hphase hl rfl
      have hnext := ih (t := { t.set n { c with arrivals := rest } with events })
        (getElem?_set_self { c with arrivals := rest } hc) hphase he rfl hrest
      exact hnext.of_own ((own_emptied t).tail (.task (.read n) hread))
    · have hread : t.step? (.read n) = some _ :=
        read?_eq hc hphase hl fun b hb => hx ⟨b, hb⟩
      have hleaving := departs_of_leaving (t := t.set n
        { c with phase := .leaving i e.number, arrivals := rest }) (getElem?_set_self _ hc) rfl he
      exact hleaving.of_own (.single (.task _ hread))

theorem met_entry : met.1.table.get? "b" = some ⟨⟨"b", ""⟩, 0, 0⟩ := by
  have hentry : (met.1.table.get? "b").map (fun e => (e.peer, e.connection, e.number)) =
      some (⟨"b", ""⟩, 0, 0) := by decide +kernel
  obtain ⟨⟨peer, connection, number⟩, he, heq⟩ := Option.map_eq_some_iff.1 hentry
  cases heq
  exact he

theorem met_connection : ∃ c, met.1.connections[0]? = some c ∧ c.phase = .reading ⟨"b", ""⟩ 0 ∧
    c.writer = .running ∧ c.outbound = [] ∧ c.arrivals = [] := by
  have hconnection : met.1.connections[0]?.map (fun c => (c.phase, c.writer, c.outbound,
      c.arrivals)) = some (.reading ⟨"b", ""⟩ 0, .running, [], []) := by decide +kernel
  obtain ⟨c, hc, heq⟩ := Option.map_eq_some_iff.1 hconnection
  simp only [Prod.mk.injEq] at heq
  exact ⟨c, hc, heq⟩

/-- The writer of a connection in the table has not stopped, or the node takes the connection out by
itself, unless the connection has fallen silent. Then it stays in the table until it is closed from
outside; all that is sent to its peer fails, and the node does not dial the peer again. -/
theorem stopped_or_departs {self : Identity} (hr : Reachable self t)
    (he : t.table.get? p = some e) :
    (¬ Muted t p e → ∃ c, t.connections[e.connection]? = some c ∧
      (c.writer ≠ .stopped ∨ t.Departs p)) ∧
    (Muted t p e → ¬ t.Departs p ∧ ∀ t', Relation.ReflTransGen (Spared e.connection) t t' →
      t'.table.get? p = some e ∧ t'.dials e.peer = false ∧
        ∀ m, t'.sendTo? p m = some (.error .closed, t')) := by
  have hs := hr.sound
  refine ⟨fun hmuted => ?_, fun hmuted => ⟨hmuted.not_departs hs, fun t' hsteps => ?_⟩⟩
  · obtain ⟨rfl, c, hc, hheld⟩ := hs.entry p e he
    have hwriter := hs.writer e.connection c hc
    refine ⟨c, hc, ?_⟩
    by_cases hstopped : c.writer = .stopped
    · right
      cases hphase : c.phase with
      | entered i k =>
        rw [hphase, hstopped] at hwriter
        cases hwriter
      | reading i k =>
        rw [hphase] at hheld
        cases hheld
        refine departs_of_reading hc hphase he ?_
        by_contra hnone
        push Not at hnone
        exact hmuted ⟨he, c, hc, hphase, hstopped, hnone⟩
      | leaving i k =>
        rw [hphase] at hheld
        cases hheld
        exact departs_of_leaving hc hphase he
      | greeting | left | ended =>
        rw [hphase] at hheld
        cases hheld
    · exact .inl hstopped
  · have hlasts := hmuted.lasts hs hsteps
    exact ⟨hlasts.1, hlasts.not_dials (hs.entry p e he).1, hlasts.closed⟩

theorem running_met :
    Reachable ⟨"a", ""⟩ met.1 ∧ ∃ e c, met.1.table.get? "b" = some e ∧
      met.1.connections[e.connection]? = some c ∧ (c.writer ≠ .stopped ∨ met.1.Departs "b") := by
  obtain ⟨c, hc, -, hrunning, -⟩ := met_connection
  have hmuted : ¬ Muted met.1 "b" ⟨⟨"b", ""⟩, 0, 0⟩ := by
    rintro ⟨-, c', hc', hsilent⟩
    cases hc.symm.trans hc'
    exact absurd (hrunning.symm.trans hsilent.writer) (by decide)
  obtain ⟨c, hc, hwriter⟩ := (stopped_or_departs logged_met.reachable met_entry).1 hmuted
  exact ⟨logged_met.reachable, _, c, met_entry, hc, hwriter⟩

/-! ### Messages that are too long -/

theorem length_encode (f : Frame) :
    f.encode.length = f.headerBytes.length + f.content.length + 8 := by
  simp only [Frame.encode, Frame.chunk, Frame.lengthBytes, List.length_append, List.length_cons,
    List.length_nil]
  omega

/-- A writer stops at a frame that is too long. -/
theorem writeNext?_of_long {n : Nat} {c : Connection} {b : Bytes} {rest : List Bytes}
    (hc : t.connections[n]? = some c) (hrunning : c.writer = .running)
    (hnext : c.outbound = b :: rest) (hlong : Stream.maxFrame < b.length) :
    t.writeNext? n = some (t.set n { c with writer := .stopped, outbound := [] }) := by
  obtain ⟨phase, arrivals, writer, outbound, written⟩ := c
  obtain rfl : writer = .running := hrunning
  obtain rfl : outbound = b :: rest := hnext
  have hnone : Stream.wrap? b = none := if_pos hlong
  simp only [writeNext?, hc, Option.bind_eq_bind, Option.bind_some, hnone, Option.isSome_none,
    Bool.false_eq_true, if_false]
  rw [modify_eq_set _ hc]

/-- A message to a peer goes into the queue of its writer. -/
theorem sendTo?_eq {c : Connection} (m : Message) (he : t.table.get? p = some e)
    (hc : t.connections[e.connection]? = some c) (hrunning : c.writer = .running)
    (hroom : c.outbound.length < outboundCapacity) :
    t.sendTo? p m = some (.ok (), t.set e.connection
      { c with outbound := c.outbound ++ [(Frame.message m).encode] }) := by
  have hwriter : c.writer ≠ .stopped := by simp [hrunning]
  simp only [sendTo?, he, hc, if_neg hwriter, if_pos hroom]
  rw [modify_eq_set _ hc]

/-- One message that is too long makes a connection fall silent. -/
theorem muted_of_long {c : Connection} {m : Message} (he : t.table.get? p = some e)
    (hc : t.connections[e.connection]? = some c) (hphase : c.phase = .reading e.peer e.number)
    (hrunning : c.writer = .running) (hempty : c.outbound = [])
    (harrivals : ∀ a ∈ c.arrivals, ∃ b, a = .frame b)
    (hlong : Stream.maxFrame < (Frame.message m).encode.length) :
    ∃ t₁ t₂, t.sendTo? p m = some (.ok (), t₁) ∧ t₁.step? (.write e.connection) = some t₂ ∧
      Muted t₂ p e := by
  have hsend := sendTo?_eq m he hc hrunning (by simp [hempty, outboundCapacity])
  rw [hempty, List.nil_append] at hsend
  have hwrite := writeNext?_of_long (getElem?_set_self
    { c with outbound := [(Frame.message m).encode] } hc) hrunning rfl hlong
  rw [set_set] at hwrite
  exact ⟨_, _, hsend, hwrite, he, _, getElem?_set_self _ hc, hphase, rfl, harrivals⟩

/-- A message with nine million bytes of content. -/
def oversized : Message :=
  { channel := "c", sender := "a", targets := [.node "b"], content := List.replicate 9000000 0 }

theorem length_oversized : Stream.maxFrame < (Frame.message oversized).encode.length := by
  have hcontent : (Frame.message oversized).content.length = 9000000 := List.length_replicate
  rw [length_encode, hcontent, Stream.maxFrame]
  omega

/-- A peer is in the table although its writer has stopped, nothing that the node does takes it out,
and whatever is sent to it fails. -/
theorem listed_but_closed :
    ∃ t₁ t₂ e, Reachable ⟨"a", ""⟩ t₂ ∧ met.1.sendTo? "b" oversized = some (.ok (), t₁) ∧
      t₁.step? (.write 0) = some t₂ ∧ t₂.table.get? "b" = some e ∧
        (∃ c, t₂.connections[e.connection]? = some c ∧ c.writer = .stopped) ∧ ¬ t₂.Departs "b" ∧
          ∀ t', Relation.ReflTransGen (Spared e.connection) t₂ t' →
            t'.table.get? "b" = some e ∧ ∀ m, t'.sendTo? "b" m = some (.error .closed, t') := by
  obtain ⟨c, hc, hphase, hrunning, hempty, harrivals⟩ := met_connection
  obtain ⟨t₁, t₂, hsend, hwrite, hmuted⟩ := muted_of_long met_entry hc hphase hrunning hempty
    (by simp [harrivals]) length_oversized
  have hr : Reachable ⟨"a", ""⟩ t₂ :=
    (logged_met.reachable.step (.sent _ _ _ hsend)).step (.task _ hwrite)
  have hstopped : ∃ c, t₂.connections[0]? = some c ∧ c.writer = .stopped := by
    obtain ⟨-, c, hc, hsilent⟩ := hmuted
    exact ⟨c, hc, hsilent.writer⟩
  refine ⟨t₁, t₂, _, hr, hsend, hwrite, hmuted.1, hstopped, hmuted.not_departs hr.sound,
    fun t' hsteps => ?_⟩
  have hlasts := hmuted.lasts hr.sound hsteps
  exact ⟨hlasts.1, hlasts.closed⟩

end Fleet.Tcp

import Fleet.Proofs.Transport.Tcp.Deeds

/-!
# What happens to the connections of a node

Each step changes one connection at most, and with it the table or the mailbox. A move says
everything about the step as far as phases, writers, arrivals, the table and the mailbox go, and
leaves out what a message is and what is written.
-/

namespace Fleet.Tcp

/-- What a step does, given what arrives on which connection from outside. -/
inductive Move (t : Tcp) : Option (Nat × Arrival) → Tcp → Prop
  | rests {news : Option (Nat × Arrival)} : Move t news t
  | opens : Move t none t.establish.2
  | arrives {n : Nat} {c : Connection} {a : Arrival} (hc : t.connections[n]? = some c) :
      Move t (some (n, a)) (t.set n { c with arrivals := c.arrivals ++ [a] })
  /-- Frames go in or out, or a writer stops; a message may be passed on. -/
  | works {n : Nat} {c c' : Connection} {events : List TransportEvent}
      (hc : t.connections[n]? = some c) (hphase : c'.phase = c.phase)
      (hwriter : c'.writer = c.writer ∨ c.writer = .running ∧ c'.writer = .stopped)
      (harrivals : c'.arrivals ⊆ c.arrivals)
      (hevents : events = t.events ∨ ∃ m, events = t.events ++ [.message m]) :
      Move t none { t.set n c' with events }
  | takes {e : TransportEvent} {rest : List TransportEvent} (h : t.events = e :: rest) :
      Move t none { t with events := rest }
  /-- A peer is turned away before it has got a connection. -/
  | refuses {n : Nat} {k : UInt64} {c : Connection} {l : List Arrival}
      (hc : t.connections[n]? = some c) (hphase : c.phase = .greeting) :
      Move t none { t.set n { c with phase := .ended, arrivals := l } with nextNumber := k }
  | enters {n : Nat} {c : Connection} {l : List Arrival} {p : Identity}
      (hc : t.connections[n]? = some c) (hphase : c.phase = .greeting) (hself : p.id ≠ t.self.id)
      (hnone : t.table.get? p.id = none) :
      Move t none { t.set n { c with phase := .entered p t.nextNumber, arrivals := l } with
        table := t.table.insert p.id ⟨p, n, t.nextNumber⟩, nextNumber := t.nextNumber + 1 }
  | announces {n : Nat} {k : UInt64} {c : Connection} {p : Identity}
      (hc : t.connections[n]? = some c) (hphase : c.phase = .entered p k) :
      Move t none { t.set n { c with phase := .reading p k, writer := .running } with
        events := t.events ++ [.connected p] }
  /-- Reading ends with what is no frame. -/
  | ceases {n : Nat} {k : UInt64} {c : Connection} {p : Identity} {a : Arrival}
      {rest : List Arrival} (hc : t.connections[n]? = some c) (hphase : c.phase = .reading p k)
      (harrivals : c.arrivals = a :: rest) (ha : ∀ b, a ≠ .frame b) :
      Move t none (t.set n { c with phase := .leaving p k, arrivals := rest })
  | releases {n : Nat} {c : Connection} {p : Identity} {e : Entry} (hc : t.connections[n]? = some c)
      (hphase : c.phase = .leaving p e.number) (he : t.table.get? p.id = some e) :
      Move t none { t.set n { c with phase := .left p, writer := .stopped, outbound := [] } with
        table := t.table.erase p.id }
  /-- The entry of the peer is that of another connection. -/
  | forgets {n : Nat} {k : UInt64} {c : Connection} {p : Identity}
      (hc : t.connections[n]? = some c) (hphase : c.phase = .leaving p k)
      (hother : ∀ e, t.table.get? p.id = some e → e.number ≠ k) :
      Move t none (t.set n { c with phase := .ended, writer := .stopped, outbound := [] })
  | departs {n : Nat} {c : Connection} {p : Identity} (hc : t.connections[n]? = some c)
      (hphase : c.phase = .left p) :
      Move t none { t.set n { c with phase := .ended } with
        events := t.events ++ [.disconnected p.id] }

/-- What a task or a writer does is one of the moves. -/
theorem Deed.move {t t' : Tcp} {n : Nat} {c : Connection} (h : Deed t n c t')
    (hc : t.connections[n]? = some c) : Move t none t' := by
  cases h with
  | refuses hphase => exact .refuses hc hphase
  | enters hphase _ hwelcome =>
    obtain ⟨-, hself, hvacant⟩ := welcome?_eq_some_iff.1 hwelcome
    exact .enters hc hphase hself (Table.get?_eq_none_iff.2 hvacant)
  | announces hphase => exact .announces hc hphase
  | @reads p k a rest hphase harrivals hframe =>
    refine .works hc rfl (.inl rfl) (by rw [harrivals]; exact List.subset_cons_self _ _) ?_
    cases a.message? with
    | none => exact .inl (List.append_nil _)
    | some m => exact .inr ⟨m, rfl⟩
  | @ceases p k a rest hphase harrivals hframe =>
    refine .ceases hc hphase harrivals fun b hb => ?_
    rw [hb] at hframe
    cases hframe
  | releases hphase he => exact .releases hc hphase he
  | forgets hphase hother => exact .forgets hc hphase hother
  | departs hphase => exact .departs hc hphase
  | writes => exact .works hc rfl (.inl rfl) (List.Subset.refl _) (.inl rfl)
  | stops hwriter => exact .works hc rfl (.inr ⟨hwriter, rfl⟩) (List.Subset.refl _) (.inl rfl)

section Steps

variable {t t' : Tcp}

/-- The step of every task is one of the moves. -/
theorem move_step {k : Task} (h : t.step? k = some t') : Move t none t' := by
  obtain ⟨c, hc, hdeed⟩ := deed_of_step h
  exact hdeed.move hc

theorem move_take {e : TransportEvent} (h : t.take? = some (e, t')) : Move t none t' := by
  obtain ⟨rest, hevents, rfl⟩ := take?_eq_some h
  exact .takes hevents

theorem move_send {id : String} {m : Message} {r : Except TransportError Unit}
    (h : t.sendTo? id m = some (r, t')) : Move t none t' := by
  rcases sendTo?_eq_some h with rfl | ⟨n, c, hc, rfl⟩
  · exact .rests
  · exact .works hc rfl (.inl rfl) (List.Subset.refl _) (.inl rfl)

end Steps

/-- Every step is one of the moves, given what arrives from outside. -/
theorem Step.move {t t' : Tcp} (h : Step t t') :
    ∃ news, Move t news t' ∧ ∀ n a, news = some (n, a) → t' = t.arrive n a := by
  have hown : Move t none t' → ∃ news, Move t news t' ∧ ∀ n a, news = some (n, a) →
      t' = t.arrive n a := fun hmove => ⟨none, hmove, fun _ _ hnews => nomatch hnews⟩
  cases h with
  | task k h => exact hown (move_step h)
  | opened => exact hown .opens
  | arrived n a =>
    refine ⟨some (n, a), ?_, fun _ _ hnews => by cases hnews; rfl⟩
    rw [arrive]
    cases hc : t.connections[n]? with
    | none =>
      rw [modify_of_none _ hc]
      exact .rests
    | some c =>
      rw [modify_eq_set _ hc]
      exact .arrives hc
  | expired n =>
    refine hown ?_
    rw [expire]
    cases hc : t.connections[n]? with
    | none =>
      rw [modify_of_none _ hc]
      exact .rests
    | some c =>
      rw [modify_eq_set _ hc]
      split
      · next hphase => exact .refuses (k := t.nextNumber) (l := c.arrivals) hc hphase
      · exact .works hc rfl (.inl rfl) (List.Subset.refl _) (.inl rfl)
  | broken n =>
    refine hown ?_
    rw [breakWriter]
    cases hc : t.connections[n]? with
    | none =>
      rw [modify_of_none _ hc]
      exact .rests
    | some c =>
      rw [modify_eq_set _ hc]
      split
      · next hwriter => exact .works hc rfl (.inr ⟨hwriter, rfl⟩) (List.Subset.refl _) (.inl rfl)
      · exact .works hc rfl (.inl rfl) (List.Subset.refl _) (.inl rfl)
  | sent id m r h => exact hown (move_send h)
  | taken e h => exact hown (move_take h)

end Fleet.Tcp

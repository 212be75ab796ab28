import Fleet.Proofs.Transport.Tcp.Moves

/-!
# The table and the connections agree

The table has an entry for a peer exactly as long as the task of some connection holds it: from when
the connection is entered until it is taken out. Each peer has one such connection at most, so a
task always finds its own entry when it takes its connection out. None of this rests on the numbers
of the entries, which come again after $2^{64}$ of them.
-/

namespace Fleet.Tcp

/-- The peer whose entry the task of a connection holds, and the number of the entry. -/
def Phase.held? : Phase → Option (Identity × UInt64)
  | .entered p k | .reading p k | .leaving p k => some (p, k)
  | .greeting | .left _ | .ended => none

/-- How far the writer of a connection is for a phase of its task. -/
def Phase.Suits : Phase → Writer → Prop
  | .greeting, w | .entered .., w => w = .notStarted
  | .reading .., w => w ≠ .notStarted
  | _, _ => True

/-- The table and the connections agree. -/
structure Sound (t : Tcp) : Prop where
  /-- An entry is that of a connection which holds it. -/
  entry : ∀ id e, t.table.get? id = some e → e.peer.id = id ∧
    ∃ c, t.connections[e.connection]? = some c ∧ c.phase.held? = some (e.peer, e.number)
  /-- What a connection holds is the entry of its peer. -/
  held : ∀ (n : Nat) (c : Connection) p k, t.connections[n]? = some c →
    c.phase.held? = some (p, k) → t.table.get? p.id = some ⟨p, n, k⟩
  writer : ∀ (n : Nat) (c : Connection), t.connections[n]? = some c → c.phase.Suits c.writer

/-- The connections after one of them has changed. -/
theorem getElem?_set {t : Tcp} {n m : Nat} {c c' c'' : Connection}
    (hc : t.connections[n]? = some c) (h : (t.set n c').connections[m]? = some c'') :
    m = n ∧ c'' = c' ∨ m ≠ n ∧ t.connections[m]? = some c'' := by
  obtain ⟨hlt, -⟩ := List.getElem?_eq_some_iff.1 hc
  rw [set, List.getElem?_set] at h
  split at h
  · next heq =>
    subst heq
    exact .inl ⟨rfl, (Option.some.inj h).symm⟩
  · next hne => exact .inr ⟨fun heq => hne heq.symm, h⟩

theorem getElem?_set_self {t : Tcp} {n : Nat} {c : Connection} (c' : Connection)
    (hc : t.connections[n]? = some c) : (t.set n c').connections[n]? = some c' := by
  obtain ⟨hlt, -⟩ := List.getElem?_eq_some_iff.1 hc
  simp [set, hlt]

theorem getElem?_set_ne {t : Tcp} {n m : Nat} (c' : Connection) (hne : m ≠ n) :
    (t.set n c').connections[m]? = t.connections[m]? := by
  simp [set, hne.symm]

namespace Sound

variable {t t' : Tcp} {n : Nat} {c c' : Connection}

/-- Every writer suits its task if the one of the connection that changes does. -/
theorem writer_set (h : t.Sound) (hc : t.connections[n]? = some c)
    (hconnections : t'.connections = (t.set n c').connections)
    (hwriter : c'.phase.Suits c'.writer) (m : Nat) (c'' : Connection)
    (hm : t'.connections[m]? = some c'') : c''.phase.Suits c''.writer := by
  rw [hconnections] at hm
  rcases getElem?_set hc hm with ⟨rfl, rfl⟩ | ⟨-, hm⟩
  · exact hwriter
  · exact h.writer m c'' hm

/-- A connection changes that holds what it held before. -/
theorem set (h : t.Sound) (hc : t.connections[n]? = some c)
    (hconnections : t'.connections = (t.set n c').connections) (htable : t'.table = t.table)
    (hheld : c'.phase.held? = c.phase.held?) (hwriter : c'.phase.Suits c'.writer) : t'.Sound := by
  refine ⟨fun id e he => ?_, fun m c'' p k hm hp => ?_, h.writer_set hc hconnections hwriter⟩
  · rw [htable] at he
    obtain ⟨hid, c'', hc'', hp⟩ := h.entry id e he
    refine ⟨hid, ?_⟩
    rw [hconnections]
    by_cases hn : e.connection = n
    · subst hn
      obtain rfl := Option.some.inj (hc''.symm.trans hc)
      exact ⟨c', getElem?_set_self c' hc, hheld.trans hp⟩
    · exact ⟨c'', (getElem?_set_ne c' hn).trans hc'', hp⟩
  · rw [hconnections] at hm
    rw [htable]
    rcases getElem?_set hc hm with ⟨rfl, rfl⟩ | ⟨-, hm⟩
    · exact h.held _ c p k hc (hheld ▸ hp)
    · exact h.held m c'' p k hm hp

/-- A connection is entered for a peer that had none. -/
theorem enters {p : Identity} {k : UInt64} (h : t.Sound) (hc : t.connections[n]? = some c)
    (hconnections : t'.connections = (t.set n c').connections)
    (htable : t'.table = t.table.insert p.id ⟨p, n, k⟩) (hnone : t.table.get? p.id = none)
    (hfree : c.phase.held? = none) (hheld : c'.phase.held? = some (p, k))
    (hwriter : c'.phase.Suits c'.writer) : t'.Sound := by
  refine ⟨fun id e he => ?_, fun m c'' p' k' hm hp => ?_, h.writer_set hc hconnections hwriter⟩
  · rw [htable, Table.get?_insert] at he
    rw [hconnections]
    split at he
    · next hid =>
      cases he
      exact ⟨hid.symm, c', getElem?_set_self c' hc, hheld⟩
    · obtain ⟨hid, c'', hc'', hp⟩ := h.entry id e he
      have hn : e.connection ≠ n := by
        intro hn
        obtain rfl := Option.some.inj ((hn ▸ hc'').symm.trans hc)
        rw [hfree] at hp
        cases hp
      exact ⟨hid, c'', (getElem?_set_ne c' hn).trans hc'', hp⟩
  · rw [hconnections] at hm
    rw [htable, Table.get?_insert]
    rcases getElem?_set hc hm with ⟨rfl, rfl⟩ | ⟨-, hm⟩
    · cases hheld.symm.trans hp
      rw [if_pos rfl]
    · have hold := h.held m c'' p' k' hm hp
      have hne : p'.id ≠ p.id := by
        intro heq
        rw [heq, hnone] at hold
        cases hold
      rw [if_neg hne]
      exact hold

/-- A connection is taken out. -/
theorem releases {p : Identity} {k : UInt64} (h : t.Sound) (hc : t.connections[n]? = some c)
    (hconnections : t'.connections = (t.set n c').connections)
    (htable : t'.table = t.table.erase p.id) (hheld : c.phase.held? = some (p, k))
    (hfree : c'.phase.held? = none) (hwriter : c'.phase.Suits c'.writer) : t'.Sound := by
  have hentry := h.held n c p k hc hheld
  refine ⟨fun id e he => ?_, fun m c'' p' k' hm hp => ?_, h.writer_set hc hconnections hwriter⟩
  · rw [htable, Table.get?_erase] at he
    rw [hconnections]
    split at he
    · cases he
    · next hid =>
      obtain ⟨heq, c'', hc'', hp⟩ := h.entry id e he
      have hn : e.connection ≠ n := by
        intro hn
        obtain rfl := Option.some.inj ((hn ▸ hc'').symm.trans hc)
        cases hheld.symm.trans hp
        exact hid heq.symm
      exact ⟨heq, c'', (getElem?_set_ne c' hn).trans hc'', hp⟩
  · rw [hconnections] at hm
    rw [htable, Table.get?_erase]
    rcases getElem?_set hc hm with ⟨rfl, rfl⟩ | ⟨hn, hm⟩
    · rw [hfree] at hp
      cases hp
    · have hold := h.held m c'' p' k' hm hp
      have hne : p'.id ≠ p.id := by
        intro heq
        rw [heq, hentry] at hold
        cases hold
        exact hn rfl
      rw [if_neg hne]
      exact hold

theorem move {news : Option (Nat × Arrival)} (h : t.Sound) (hmove : Move t news t') :
    t'.Sound := by
  cases hmove with
  | rests => exact h
  | takes => exact ⟨h.entry, h.held, h.writer⟩
  | opens =>
    have hget : ∀ (n : Nat) (c : Connection), t.establish.2.connections[n]? = some c →
        t.connections[n]? = some c ∨ c.phase = .greeting ∧ c.writer = .notStarted := by
      intro n c hc
      simp only [establish, List.getElem?_append] at hc
      split at hc
      · exact .inl hc
      · obtain rfl := List.mem_singleton.1 (List.mem_of_getElem? hc)
        exact .inr ⟨rfl, rfl⟩
    refine ⟨fun id e he => ?_, fun n c p k hc hp => ?_, fun n c hc => ?_⟩
    · obtain ⟨hid, c, hc, hp⟩ := h.entry id e he
      obtain ⟨hlt, -⟩ := List.getElem?_eq_some_iff.1 hc
      exact ⟨hid, c, (List.getElem?_append_left hlt).trans hc, hp⟩
    · rcases hget n c hc with hold | ⟨hphase, -⟩
      · exact h.held n c p k hold hp
      · rw [hphase] at hp
        cases hp
    · rcases hget n c hc with hold | ⟨hphase, hwriter⟩
      · exact h.writer n c hold
      · rw [hphase]
        exact hwriter
  | @arrives n c a hc =>
    have hwriter := h.writer n c hc
    exact h.set hc rfl rfl rfl hwriter
  | @works n c c' events hc hphase hwriter =>
    refine h.set hc rfl rfl (by rw [hphase]) ?_
    have hold := h.writer n c hc
    rcases hwriter with heq | ⟨hrunning, hstopped⟩
    · rw [hphase, heq]
      exact hold
    · rw [hphase, hstopped]
      rw [hrunning] at hold
      cases hp : c.phase <;> simp_all [Phase.Suits]
  | refuses hc hphase => exact h.set hc rfl rfl (by rw [hphase]; rfl) trivial
  | @enters n c l p hc hphase hself hnone =>
    have hwriter := h.writer n c hc
    rw [hphase] at hwriter
    exact h.enters hc rfl rfl hnone (by rw [hphase]; rfl) rfl hwriter
  | announces hc hphase => exact h.set hc rfl rfl (by rw [hphase]; rfl) (by simp [Phase.Suits])
  | ceases hc hphase => exact h.set hc rfl rfl (by rw [hphase]; rfl) trivial
  | releases hc hphase he => exact h.releases hc rfl rfl (by rw [hphase]; rfl) rfl trivial
  | forgets hc hphase hother =>
    exact absurd rfl (hother _ (h.held _ _ _ _ hc (by rw [hphase]; rfl)))
  | departs hc hphase => exact h.set hc rfl rfl (by rw [hphase]; rfl) trivial

end Sound

theorem sound_new (self : Identity) : (new self).Sound :=
  ⟨fun _ _ h => (nomatch h), fun _ _ _ _ h => (nomatch h), fun _ _ h => (nomatch h)⟩

theorem Reachable.sound {self : Identity} {t : Tcp} (h : Reachable self t) : t.Sound := by
  induction h with
  | new => exact sound_new self
  | step _ hstep ih =>
    obtain ⟨news, hmove, -⟩ := hstep.move
    exact ih.move hmove

end Fleet.Tcp

import Fleet.Proofs.Table
import Fleet.Transport.Tcp

/-!
# What the tasks of a node's connections do

A step of a task changes the task's own connection, and the table or the mailbox along with it. A
deed says all of it.

## Main definitions

* `Arrival.hello?`, `Arrival.message?`, `Arrival.isFrame` — what an arrival can be taken for.
* `welcome?` — the peer that gets a connection by its first arrival.
* `Deed` — what a task or a writer does in one step.

## Main statements

* `deed_of_step` — every step of a task is a deed on the task's connection.
-/

namespace Fleet.Tcp

/-! ### Changing a connection -/

/-- The connections after one of them has changed. -/
def set (t : Tcp) (n : Nat) (c : Connection) : Tcp :=
  { t with connections := t.connections.set n c }

theorem modify_eq_set {t : Tcp} {n : Nat} {c : Connection} (f : Connection → Connection)
    (h : t.connections[n]? = some c) : t.modify n f = t.set n (f c) := by
  rw [modify, set, List.modify_eq_set_getElem?, h]
  rfl

theorem modify_of_none {t : Tcp} {n : Nat} (f : Connection → Connection)
    (h : t.connections[n]? = none) : t.modify n f = t := by
  rw [modify, List.modify_eq_set_getElem?, h]
  rfl

theorem set_set (t : Tcp) (n : Nat) (c c' : Connection) : (t.set n c).set n c' = t.set n c' := by
  simp [set]

/-- A change at a connection that has just changed. -/
theorem modify_set {t : Tcp} {n : Nat} {c c₀ : Connection} (f : Connection → Connection)
    (h : t.connections[n]? = some c₀) : (t.set n c).modify n f = t.set n (f c) := by
  have hget : (t.set n c).connections[n]? = some c := by
    obtain ⟨hlt, -⟩ := List.getElem?_eq_some_iff.1 h
    simp [set, hlt]
  rw [modify_eq_set f hget, set_set]

/-! ### Arrivals -/

/-- The peer that an arrival introduces. -/
def Arrival.hello? : Arrival → Option Identity
  | .frame b =>
    match Frame.decode b with
    | .ok (.hello p) => some p
    | _ => none
  | .failure | .close => none

/-- The message that an arrival carries. -/
def Arrival.message? : Arrival → Option Message
  | .frame b =>
    match Frame.decode b with
    | .ok (.message m) => some m
    | _ => none
  | .failure | .close => none

/-- Whether reading goes on after an arrival. -/
def Arrival.isFrame : Arrival → Bool
  | .frame _ => true
  | .failure | .close => false

/-- The peer that gets a connection by its first arrival, given the ids that are in the table. -/
def welcome? (self : Identity) (registered : List String) (a : Arrival) : Option Identity :=
  a.hello?.filter fun p => p.id ≠ self.id ∧ p.id ∉ registered

theorem welcome?_eq_some_iff {self : Identity} {registered : List String} {a : Arrival}
    {p : Identity} : welcome? self registered a = some p ↔
      a.hello? = some p ∧ p.id ≠ self.id ∧ p.id ∉ registered := by
  simp [welcome?, Option.filter_eq_some_iff]

/-- No peer gets a connection by what is no introduction, introduces the node itself, or introduces
a peer that is in the table. -/
theorem welcome?_eq_none_iff {self : Identity} {registered : List String} {a : Arrival} :
    welcome? self registered a = none ↔
      ∀ p, a.hello? = some p → p.id = self.id ∨ p.id ∈ registered := by
  simp only [welcome?, Option.filter_eq_none_iff, decide_eq_true_eq, not_and_or, not_not]

/-! ### Deeds -/

/-- What the task or the writer of a connection does in one step. -/
inductive Deed (t : Tcp) (n : Nat) (c : Connection) : Tcp → Prop
  | refuses {a : Arrival} {rest : List Arrival} {k : UInt64} (hphase : c.phase = .greeting)
      (harrivals : c.arrivals = a :: rest) (hwelcome : welcome? t.self t.table.keys a = none) :
      Deed t n c { t.set n { c with phase := .ended, arrivals := rest } with nextNumber := k }
  | enters {a : Arrival} {rest : List Arrival} {p : Identity} (hphase : c.phase = .greeting)
      (harrivals : c.arrivals = a :: rest) (hwelcome : welcome? t.self t.table.keys a = some p) :
      Deed t n c { t.set n { c with phase := .entered p t.nextNumber, arrivals := rest } with
        table := t.table.insert p.id ⟨p, n, t.nextNumber⟩, nextNumber := t.nextNumber + 1 }
  | announces {p : Identity} {k : UInt64} (hphase : c.phase = .entered p k) :
      Deed t n c { t.set n { c with phase := .reading p k, writer := .running } with
        events := t.events ++ [.connected p] }
  /-- A frame is read; if it carries a message, the message is passed on. -/
  | reads {p : Identity} {k : UInt64} {a : Arrival} {rest : List Arrival}
      (hphase : c.phase = .reading p k) (harrivals : c.arrivals = a :: rest)
      (hframe : a.isFrame = true) :
      Deed t n c { t.set n { c with arrivals := rest } with
        events := t.events ++ (a.message?.map .message).toList }
  | ceases {p : Identity} {k : UInt64} {a : Arrival} {rest : List Arrival}
      (hphase : c.phase = .reading p k) (harrivals : c.arrivals = a :: rest)
      (hframe : a.isFrame = false) :
      Deed t n c (t.set n { c with phase := .leaving p k, arrivals := rest })
  | releases {p : Identity} {e : Entry} (hphase : c.phase = .leaving p e.number)
      (he : t.table.get? p.id = some e) :
      Deed t n c { t.set n { c with phase := .left p, writer := .stopped, outbound := [] } with
        table := t.table.erase p.id }
  /-- The entry of the peer is that of another connection. -/
  | forgets {p : Identity} {k : UInt64} (hphase : c.phase = .leaving p k)
      (hother : ∀ e, t.table.get? p.id = some e → e.number ≠ k) :
      Deed t n c (t.set n { c with phase := .ended, writer := .stopped, outbound := [] })
  | departs {p : Identity} (hphase : c.phase = .left p) :
      Deed t n c { t.set n { c with phase := .ended } with
        events := t.events ++ [.disconnected p.id] }
  | writes {b : Bytes} {rest : List Bytes} (houtbound : c.outbound = b :: rest) :
      Deed t n c (t.set n { c with outbound := rest, written := c.written ++ [b] })
  /-- A frame is too long for the writer. -/
  | stops {b : Bytes} {rest : List Bytes} (hwriter : c.writer = .running)
      (houtbound : c.outbound = b :: rest) :
      Deed t n c (t.set n { c with writer := .stopped, outbound := [] })

/-- The connection that a task or a writer belongs to. -/
def Task.connection : Task → Nat
  | .greet n | .announce n | .read n | .release n | .depart n | .write n => n

theorem post?_eq_some {t t' : Tcp} {e : TransportEvent} (h : t.post? e = some t') :
    t' = { t with events := t.events ++ [e] } := by
  rw [post?] at h
  split at h
  · exact (Option.some.inj h).symm
  · cases h

theorem nextArrival?_eq_some {t t' : Tcp} {n : Nat} {a : Arrival}
    (h : t.nextArrival? n = some (a, t')) :
    ∃ c rest, t.connections[n]? = some c ∧ c.arrivals = a :: rest ∧
      t' = t.set n { c with arrivals := rest } := by
  rw [nextArrival?] at h
  split at h
  · next phase a' rest writer outbound written hc =>
    cases h
    exact ⟨_, rest, hc, rfl, modify_eq_set _ hc⟩
  · cases h

theorem sendTo?_eq_some {t t' : Tcp} {id : String} {m : Message} {r : Except TransportError Unit}
    (h : t.sendTo? id m = some (r, t')) : t' = t ∨ ∃ n c, t.connections[n]? = some c ∧
      t' = t.set n { c with outbound := c.outbound ++ [(Frame.message m).encode] } := by
  rw [sendTo?] at h
  split at h
  · cases h
    exact .inl rfl
  · split at h
    · cases h
      exact .inl rfl
    · next c hc =>
      split at h
      · cases h
        exact .inl rfl
      · split at h
        · cases h
          exact .inr ⟨_, c, hc, modify_eq_set _ hc⟩
        · cases h

theorem take?_eq_some {t t' : Tcp} {e : TransportEvent} (h : t.take? = some (e, t')) :
    ∃ rest, t.events = e :: rest ∧ t' = { t with events := rest } := by
  rw [take?] at h
  split at h
  · cases h
  · next rest hevents =>
    cases h
    exact ⟨rest, hevents, rfl⟩

section Steps

variable {t t' : Tcp} {n : Nat}

theorem deed_introduce {c : Connection} {a : Arrival} {rest : List Arrival} {p : Identity}
    (hc : t.connections[n]? = some c) (hphase : c.phase = .greeting)
    (harrivals : c.arrivals = a :: rest) (hhello : a.hello? = some p) :
    Deed t n c ((t.set n { c with arrivals := rest }).introduce n p) := by
  have hrefuses : (p.id = t.self.id ∨ p.id ∈ t.table.keys) → ∀ k, Deed t n c
      { (t.set n { c with arrivals := rest }).enter n .ended with nextNumber := k } := by
    intro hid k
    have hwelcome : welcome? t.self t.table.keys a = none := by
      refine welcome?_eq_none_iff.2 fun q hq => ?_
      rwa [← Option.some.inj (hhello.symm.trans hq)]
    rw [enter, modify_set _ hc]
    exact .refuses hphase harrivals hwelcome
  rw [introduce]
  split
  · next hself => exact hrefuses (.inl hself) t.nextNumber
  · next hself =>
    dsimp only
    split
    · next hcontains =>
      exact hrefuses (.inr (Table.mem_keys_iff.2 (Table.contains_iff.1 hcontains)))
        (t.nextNumber + 1)
    · next hnone =>
      have hvacant : p.id ∉ t.table.keys := Table.get?_eq_none_iff.1
        (Table.contains_eq_false_iff.1 (Bool.eq_false_iff.2 hnone))
      have hentered : (t.set n { c with arrivals := rest }).enter n (.entered p t.nextNumber) =
          t.set n { c with phase := .entered p t.nextNumber, arrivals := rest } := modify_set _ hc
      have hdeed := Deed.enters (t := t) (n := n) hphase harrivals
        (welcome?_eq_some_iff.2 ⟨hhello, hself, hvacant⟩)
      rwa [← hentered] at hdeed

theorem deed_greet (h : t.greet? n = some t') :
    ∃ c, t.connections[n]? = some c ∧ Deed t n c t' := by
  simp only [greet?, Option.bind_eq_bind, Option.bind_eq_some_iff] at h
  obtain ⟨c, hc, h⟩ := h
  refine ⟨c, hc, ?_⟩
  split at h
  · cases h
  · next hphase =>
    obtain ⟨⟨a, t₁⟩, harrival, h⟩ := Option.bind_eq_some_iff.1 h
    obtain ⟨c', rest, hc', harrivals, rfl⟩ := nextArrival?_eq_some harrival
    obtain rfl := Option.some.inj (hc.symm.trans hc')
    have hgreeting : c.phase = .greeting := by simpa using hphase
    have hrefuses : a.hello? = none →
        Deed t n c ((t.set n { c with arrivals := rest }).enter n .ended) := by
      intro hhello
      have hdeed := Deed.refuses (t := t) (n := n) (k := t.nextNumber) hgreeting harrivals
        (welcome?_eq_none_iff.2 fun p hp => nomatch hhello.symm.trans hp)
      rw [enter, modify_set _ hc]
      exact hdeed
    dsimp only at h
    split at h
    · next b =>
      split at h
      · next p hdecode =>
        cases h
        exact deed_introduce hc hgreeting harrivals (by simp [Arrival.hello?, hdecode])
      · next hdecode =>
        cases h
        refine hrefuses ?_
        rw [Arrival.hello?]
        split
        · next p hp => exact absurd hp (hdecode p)
        · rfl
    · next hframe =>
      cases h
      refine hrefuses ?_
      cases a with
      | frame b => exact absurd rfl (hframe b)
      | failure | close => rfl

theorem deed_announce (h : t.announce? n = some t') :
    ∃ c, t.connections[n]? = some c ∧ Deed t n c t' := by
  simp only [announce?, Option.bind_eq_bind, Option.bind_eq_some_iff] at h
  obtain ⟨c, hc, h⟩ := h
  refine ⟨c, hc, ?_⟩
  split at h
  · next p k hphase =>
    obtain ⟨t₁, hpost, h⟩ := Option.bind_eq_some_iff.1 h
    obtain rfl := post?_eq_some hpost
    cases h
    have heq := modify_eq_set (fun c => { c with phase := .reading p k, writer := .running }) hc
    have hdeed := Deed.announces (t := t) (n := n) hphase
    rwa [← heq] at hdeed
  · cases h

theorem deed_read (h : t.read? n = some t') :
    ∃ c, t.connections[n]? = some c ∧ Deed t n c t' := by
  simp only [read?, Option.bind_eq_bind, Option.bind_eq_some_iff] at h
  obtain ⟨c, hc, h⟩ := h
  refine ⟨c, hc, ?_⟩
  split at h
  · next p k hphase =>
    obtain ⟨⟨a, t₁⟩, harrival, h⟩ := Option.bind_eq_some_iff.1 h
    obtain ⟨c', rest, hc', harrivals, rfl⟩ := nextArrival?_eq_some harrival
    obtain rfl := Option.some.inj (hc.symm.trans hc')
    dsimp only at h
    split at h
    · next b =>
      have hdeed := Deed.reads (t := t) (n := n) hphase harrivals rfl
      split at h
      · next m hdecode =>
        obtain rfl := post?_eq_some h
        have hsome : (Arrival.frame b).message? = some m := by simp [Arrival.message?, hdecode]
        rwa [hsome] at hdeed
      · next hdecode =>
        cases h
        have hnone : (Arrival.frame b).message? = none := by
          rw [Arrival.message?]
          split
          · next m hm => exact absurd hm (hdecode m)
          · rfl
        rw [hnone, Option.map_none, Option.toList_none, List.append_nil] at hdeed
        exact hdeed
    · next hframe =>
      cases h
      have hnone : a.isFrame = false := by
        cases a with
        | frame b => exact absurd rfl (hframe b)
        | failure | close => rfl
      rw [enter, modify_set _ hc]
      exact .ceases hphase harrivals hnone
  · cases h

theorem deed_release (h : t.release? n = some t') :
    ∃ c, t.connections[n]? = some c ∧ Deed t n c t' := by
  simp only [release?, Option.bind_eq_bind, Option.bind_eq_some_iff] at h
  obtain ⟨c, hc, h⟩ := h
  refine ⟨c, hc, ?_⟩
  split at h
  · next p k hphase =>
    have henter : ∀ phase, (t.modify n fun c => { c with writer := .stopped, outbound := [] }).enter
        n phase = t.set n { c with phase, writer := .stopped, outbound := [] } := by
      intro phase
      rw [modify_eq_set _ hc]
      exact modify_set _ hc
    have hforgets : (∀ e, t.table.get? p.id = some e → e.number ≠ k) → Deed t n c
        ((t.modify n fun c => { c with writer := .stopped, outbound := [] }).enter n .ended) := by
      rw [henter]
      exact .forgets hphase
    have htable : (t.modify n fun c => { c with writer := .stopped, outbound := [] }).table =
        t.table := rfl
    rw [htable] at h
    split at h
    · next e he =>
      split at h
      · next hnumber =>
        cases h
        subst hnumber
        have hdeed := Deed.releases (n := n) hphase he
        rwa [← henter] at hdeed
      · next hnumber =>
        cases h
        refine hforgets fun e' he' => ?_
        rw [← Option.some.inj (he.symm.trans he')]
        exact hnumber
    · next hnone =>
      cases h
      refine hforgets fun e' he' => ?_
      rw [hnone] at he'
      cases he'
  · cases h

theorem deed_depart (h : t.depart? n = some t') :
    ∃ c, t.connections[n]? = some c ∧ Deed t n c t' := by
  simp only [depart?, Option.bind_eq_bind, Option.bind_eq_some_iff] at h
  obtain ⟨c, hc, h⟩ := h
  refine ⟨c, hc, ?_⟩
  split at h
  · next p hphase =>
    obtain ⟨t₁, hpost, h⟩ := Option.bind_eq_some_iff.1 h
    obtain rfl := post?_eq_some hpost
    cases h
    have heq := modify_eq_set (fun c => { c with phase := .ended }) hc
    have hdeed := Deed.departs (t := t) (n := n) hphase
    rwa [← heq] at hdeed
  · cases h

theorem deed_write (h : t.writeNext? n = some t') :
    ∃ c, t.connections[n]? = some c ∧ Deed t n c t' := by
  simp only [writeNext?, Option.bind_eq_bind, Option.bind_eq_some_iff] at h
  obtain ⟨c, hc, h⟩ := h
  refine ⟨c, hc, ?_⟩
  split at h
  · cases h
    rw [modify_eq_set _ hc]
    split
    · exact .writes rfl
    · exact .stops rfl rfl
  · cases h

/-- Every step of a task is a deed on the task's connection. -/
theorem deed_of_step {k : Task} (h : t.step? k = some t') :
    ∃ c, t.connections[k.connection]? = some c ∧ Deed t k.connection c t' := by
  cases k with
  | greet n => exact deed_greet h
  | announce n => exact deed_announce h
  | read n => exact deed_read h
  | release n => exact deed_release h
  | depart n => exact deed_depart h
  | write n => exact deed_write h

end Steps

end Fleet.Tcp
